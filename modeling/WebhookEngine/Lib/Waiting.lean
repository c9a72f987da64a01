import Mathlib.Algebra.Order.Ring.Nat
import Mathlib.Logic.Relation

set_option autoImplicit false

/-!
# Who waits for whom

Agents `τ` own resources `κ`, each at most one owner, and an agent may want one more.

* `WaitsFor`: the agent wants a resource that another one owns;
* `Ordered`: an agent that waits wants a resource of higher rank than any it owns;
* **`Ordered.acyclic`**: then nobody waits for himself, directly or through others;
* **`Ordered.exists_running`**: and everybody waits, directly or through others, for somebody who
  waits for nobody.
-/

namespace Waiting

variable {τ κ : Type} {owner : κ → Option τ} {wants : τ → Option κ} {rank : κ → ℕ} {n : ℕ} {t u : τ}

variable (owner wants) in
/-- Agent `t` waits for agent `u`. -/
def WaitsFor (t u : τ) : Prop := ∃ x, wants t = some x ∧ owner x = some u ∧ u ≠ t

variable (owner wants) in
/-- Resources are taken in the order of their ranks, which are at most `n`. -/
structure Ordered (rank : κ → ℕ) (n : ℕ) : Prop where
  rises : ∀ t u, WaitsFor owner wants t u → ∀ x y, wants t = some x → owner y = some t →
    rank y < rank x
  bounded : ∀ x, rank x ≤ n

theorem Ordered.wanted_lt (h : Ordered owner wants rank n) (htu : WaitsFor owner wants t u) {v : τ}
    (huv : WaitsFor owner wants u v) {x y : κ} (hx : wants t = some x) (hy : wants u = some y) :
    rank x < rank y := by
  obtain ⟨x', hx', ho, -⟩ := htu
  cases hx.symm.trans hx'
  exact h.rises u v huv y x hy ho

/-- A chain of waits ends where a higher rank is wanted, or where nothing is waited for. -/
theorem Ordered.chain_lt (h : Ordered owner wants rank n)
    (htu : Relation.TransGen (WaitsFor owner wants) t u) {v : τ} (huv : WaitsFor owner wants u v)
    {x y : κ} (hx : wants t = some x) (hy : wants u = some y) : rank x < rank y := by
  induction htu generalizing v y with
  | single htu => exact h.wanted_lt htu huv hx hy
  | tail _ hwu ih =>
    obtain ⟨z, hz, -⟩ := id hwu
    exact Nat.lt_trans (ih hwu hz) (h.wanted_lt hwu huv hz hy)

/-- **Nobody waits for himself.** -/
theorem Ordered.acyclic (h : Ordered owner wants rank n) (t : τ) :
    ¬ Relation.TransGen (WaitsFor owner wants) t t := by
  intro ht
  obtain ⟨u, htu, -⟩ := Relation.TransGen.head'_iff.mp ht
  obtain ⟨x, hx, -⟩ := id htu
  exact Nat.lt_irrefl _ (h.chain_lt ht htu hx hx)

/-- **Somebody runs.** -/
theorem Ordered.exists_running (h : Ordered owner wants rank n) (t : τ) :
    ∃ u, Relation.ReflTransGen (WaitsFor owner wants) t u ∧ ∀ v, ¬ WaitsFor owner wants u v := by
  by_cases hw : ∃ u, WaitsFor owner wants t u
  · obtain ⟨u, htu⟩ := hw
    obtain ⟨x, hx, -⟩ := id htu
    -- the rank that is wanted grows along the chain and is bounded
    induction hd : n - rank x using Nat.strong_induction_on generalizing t u x with
    | _ d ih =>
      by_cases huw : ∃ v, WaitsFor owner wants u v
      · obtain ⟨v, huv⟩ := huw
        obtain ⟨y, hy, -⟩ := id huv
        have hlt := h.wanted_lt htu huv hx hy
        have hle := h.bounded y
        obtain ⟨w, huw, hend⟩ := ih (n - rank y) (by omega) u v huv y hy rfl
        exact ⟨w, .head htu huw, hend⟩
      · exact ⟨u, .single htu, fun v huv => huw ⟨v, huv⟩⟩
  · exact ⟨t, .refl, fun v htv => hw ⟨v, htv⟩⟩

end Waiting
