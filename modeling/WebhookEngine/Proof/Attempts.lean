import WebhookEngine.Proof.History

set_option autoImplicit false

/-!
# The numbering of attempts

The number of an attempt is computed from a read made long before the write, while the counter is
incremented from its current value. The invariant that keeps the two together is that a number read
is at most the counter: then the unique key turns every stale write into a rollback.

* `story_count`: the counter never decreases;
* **`attempts_numbered`**: the attempts of a delivery are numbered from 1 to its counter.
-/

namespace WebhookEngine

open EffectProg TransitionSystem

variable {env : Env} {s s' : State} {l : Label}

theorem story_count (hs : s.Ok) (h : step env s l = some s') {d : DeliveryId} {D D' : Dossier}
    (hD : s.pg.db.dossier? d = some D) (hD' : s'.pg.db.dossier? d = some D') :
    D.row.attemptCount ≤ D'.row.attemptCount := by
  rcases story hs h d with h | ⟨D₀, τ, h₀, h⟩ | ⟨t, c, th, r, k, w, m, -, -, hc⟩
  · rw [hD, hD'] at h
    cases h
    exact Nat.le_refl _
  · rw [hD] at h₀
    rw [hD'] at h
    cases h₀
    cases h
    exact Nat.le_refl _
  · rw [hD, hD'] at hc
    cases hc with
    | moved => exact Nat.le_refl _
    | recorded => exact Nat.le_succ _

/-- The attempts are numbered from 1 to the counter. -/
def Dossier.Numbered (D : Dossier) : Prop :=
  D.attempts.map (·.attemptNumber) = List.range' 1 D.row.attemptCount

theorem Dossier.Numbered.next {D : Dossier} (h : D.Numbered) {n : ℕ}
    (hle : n ≤ D.row.attemptCount) (hnew : ∀ r ∈ D.attempts, r.attemptNumber ≠ n + 1) :
    n = D.row.attemptCount := by
  by_contra hne
  have hlt : n < D.row.attemptCount := Nat.lt_of_le_of_ne hle hne
  have hmem : n + 1 ∈ D.attempts.map (·.attemptNumber) := by
    rw [h, List.mem_range'_1]
    omega
  obtain ⟨r, hr, hn⟩ := List.mem_map.mp hmem
  exact hnew r hr hn

theorem Records.number {k : Kind} {m : Facts} {a : AttemptData} {f g : Status}
    {next : Option Time} (h : Records k m a f g next) (hk : ∀ c, k ≠ .repoCall c) :
    ∃ job r, k = .deliver job ∧ job.deliveryId = a.deliveryId ∧ m.Working r ∧
      a.attemptNumber = r.attemptCount + 1 := by
  cases h with
  | circuit h hm hd hn ho => exact ⟨_, _, rfl, hd.symm, h, hn⟩
  | outcome h hm hd hn ho hnext => exact ⟨_, _, rfl, hd.symm, h, hn⟩
  | call => exact absurd rfl (hk _)

/-- What is invariant: the numbering, and that the counters read are not above the current ones. -/
structure Counted (s : State) : Prop where
  numbered : ∀ d D, s.pg.db.dossier? d = some D → D.Numbered
  read : Informed s fun r D => r.attemptCount ≤ D.row.attemptCount

theorem Counted.next {t : Tid} {th : Thread} (hI : Counted s) (hlive : s.live? t = some th)
    (hcall : ∀ c, th.kind ≠ .repoCall c) {a : AttemptData} {f g : Status} {next : Option Time}
    (h : Records th.kind th.facts a f g next) {D : Dossier}
    (hD : s.pg.db.dossier? a.deliveryId = some D)
    (hnew : ∀ r ∈ D.attempts, r.attemptNumber ≠ a.attemptNumber) :
    a.attemptNumber = D.row.attemptCount + 1 := by
  obtain ⟨job, r, hk, hd, hw, hn⟩ := h.number hcall
  rw [← hd] at hD
  have hle := hI.read t th job r D hlive (Or.inl hk) hw.row hD
  have hnum := (hI.numbered _ D hD).next hle fun r' hr' => hn ▸ hnew r' hr'
  rw [hn, hnum]

theorem Counted.step (hs : s.Ok) (hcall : ∀ t th, s.live? t = some th → ∀ c, th.kind ≠ .repoCall c)
    (h : step env s l = some s') (hI : Counted s) : Counted s' where
  numbered d D' hD' := by
    rcases story hs h d with h | ⟨D, τ, hD, h⟩ | ⟨t, c, th, r, k, w, m, -, hadv, hc⟩
    · exact hI.numbered d D' (h.symm.trans hD')
    · rw [hD'] at h
      cases h
      exact hI.numbered d D hD
    · rw [hD'] at hc
      cases hD : s.pg.db.dossier? d with
      | none =>
        rw [hD] at hc
        cases hc
        rfl
      | some D =>
        rw [hD] at hc
        cases hc with
        | moved => exact hI.numbered d D hD
        | @recorded _ a f g next hrec ha hnew id hid gen hm reason τ τ' =>
          subst ha
          have hn := hI.next hadv.live (hcall t th hadv.live) hrec hD hnew
          have hold : D.attempts.map (·.attemptNumber) = _ := hI.numbered _ D hD
          rw [Dossier.Numbered, Dossier.recorded]
          rw [List.map_append, hold, List.range'_1_concat, List.map_singleton, hn, Nat.add_comm]
  read := hI.read.step hs h (fun _ _ _ hc => Nat.le_of_eq hc)
    fun d r D D' hD hD' hle => Nat.le_trans hle (story_count hs h hD hD')

theorem counted_init : Counted {} := ⟨nofun, informed_init _⟩

theorem reachable_counted {C : State → Label → Prop} (hC : ∀ s l, C s l → NoCalls s l)
    (h : Reachable env C s) : Counted s := by
  have hinv : Reachable env C s ∧ Counted s := by
    obtain ⟨ls, h⟩ := h
    refine h.invariant (I := fun s => Reachable env C s ∧ Counted s) ?_ ⟨.refl _, counted_init⟩
    rintro s l s' ⟨hr, hI⟩ hCl hstep
    exact ⟨hr.snoc hCl hstep,
      hI.step (reachable_ok hr) (fun t th hlive => kind_ne_call hC hr hlive) hstep⟩
  exact hinv.2

/-- **In every reachable state `attempt_count` is the number of attempts of the delivery, and they
are numbered `1, ..., attempt_count`**, in the order of their commits. -/
theorem attempts_numbered (h : Reachable env NoCalls s) {row : DeliveryRow}
    (hrow : row ∈ s.pg.db.deliveries) :
    (s.pg.db.attemptsOf row.id).length = row.attemptCount ∧
      (s.pg.db.attemptsOf row.id).map (·.attemptNumber) = List.range' 1 row.attemptCount := by
  have hD := (reachable_ok h).db.dossier?_of_mem hrow
  have hnum := (reachable_counted (fun _ _ h => h) h).numbered _ _ hD
  have hlen := congrArg List.length hnum
  exact ⟨by simpa using hlen, hnum⟩

theorem attempts_numbered_delivered : ∃ s row, Reachable sampleEnv NoCalls s ∧
    row ∈ s.pg.db.deliveries ∧ row.attemptCount = 1 ∧
      (s.pg.db.attemptsOf row.id).map (·.attemptNumber) = List.range' 1 row.attemptCount := by
  obtain ⟨s, hreach, hs⟩ := sample_run (C := NoCalls) (sampleIngest ++ sampleDelivery 1)
    (fun s => s.pg.db.deliveries.any fun row => row.attemptCount = 1) (by decide +kernel)
  obtain ⟨row, hrow, hcount⟩ := List.any_eq_true.mp hs
  exact ⟨s, row, hreach, hrow, by simpa using hcount, (attempts_numbered hreach hrow).2⟩

end WebhookEngine
