import Mathlib.Data.List.Basic

set_option autoImplicit false

/-!
# Runs of a transition system

A system is a partial step function `step : σ → ℓ → Option σ`. A run may be restricted by a
constraint `C` on the state before a step and its label.

* `Run step C s ls t`: the labels `ls` lead from `s` to `t`, each step under `C`;
* `Reach step C s t`: some run leads from `s` to `t`;
* **`Reach.invariant`**: a property of the start kept by every step holds of every reachable state;
  **`Reach.along`**: it is enough that the steps from reachable states keep it;
* `Occurs step P s ls`: some step of the run of `ls` from `s` is a `P` step; **`Run.recall`** is the
  invariant rule for what is true of a state and of the steps that have led to it;
* **`Reach.simulate`**: if runs of another system match the steps, they match every run;
* `runOf`: a run computed from its labels, for concrete executions.
-/

namespace TransitionSystem

variable {σ ℓ : Type} {step : σ → ℓ → Option σ} {C C' : σ → ℓ → Prop}

variable (step C) in
/-- The labels lead from the first state to the second, every step under the constraint. -/
inductive Run : σ → List ℓ → σ → Prop where
  | nil (s : σ) : Run s [] s
  | cons {s t u : σ} {l : ℓ} {ls : List ℓ} (hC : C s l) (hs : step s l = some t)
      (h : Run t ls u) : Run s (l :: ls) u

theorem Run.append {s t u : σ} {ls ls' : List ℓ} (h : Run step C s ls t)
    (h' : Run step C t ls' u) : Run step C s (ls ++ ls') u := by
  induction h with
  | nil => exact h'
  | cons hC hs _ ih => exact .cons hC hs (ih h')

theorem Run.mono (hCC : ∀ s l, C s l → C' s l) {s t : σ} {ls : List ℓ}
    (h : Run step C s ls t) : Run step C' s ls t := by
  induction h with
  | nil => exact .nil _
  | cons hC hs _ ih => exact .cons (hCC _ _ hC) hs ih

variable (step C) in
/-- Some run leads from the first state to the second. -/
def Reach (s t : σ) : Prop := ∃ ls, Run step C s ls t

theorem Reach.refl (s : σ) : Reach step C s s := ⟨[], .nil s⟩

theorem Reach.snoc {s t u : σ} {l : ℓ} (h : Reach step C s t) (hC : C t l)
    (hs : step t l = some u) : Reach step C s u := by
  obtain ⟨ls, h⟩ := h
  exact ⟨ls ++ [l], h.append (.cons hC hs (.nil u))⟩

theorem Reach.run {s t u : σ} {ls : List ℓ} (h : Reach step C s t) (hr : Run step C t ls u) :
    Reach step C s u := by
  obtain ⟨ls', h⟩ := h
  exact ⟨ls' ++ ls, h.append hr⟩

theorem Run.invariant {I : σ → Prop} (hI : ∀ s l t, I s → C s l → step s l = some t → I t)
    {s t : σ} {ls : List ℓ} (h : Run step C s ls t) (h0 : I s) : I t := by
  induction h with
  | nil => exact h0
  | cons hC hs _ ih => exact ih (hI _ _ _ h0 hC hs)

/-- **Invariant rule.** -/
theorem Reach.invariant {I : σ → Prop} {s t : σ} (h : Reach step C s t) (h0 : I s)
    (hI : ∀ s l t, I s → C s l → step s l = some t → I t) : I t := by
  obtain ⟨ls, h⟩ := h
  exact h.invariant hI h0

/-- **Invariant rule along a run.** What a step keeps may rest on what holds of every reachable state. -/
theorem Run.along {I : σ → Prop} {r s t : σ} {ls : List ℓ} (h : Run step C s ls t)
    (hr : Reach step C r s) (h0 : I s)
    (hI : ∀ u l v, Reach step C r u → I u → C u l → step u l = some v → I v) : I t := by
  have hinv : Reach step C r t ∧ I t := by
    refine h.invariant (I := fun u => Reach step C r u ∧ I u) ?_ ⟨hr, h0⟩
    rintro u l v ⟨hu, hIu⟩ hC hs
    exact ⟨hu.snoc hC hs, hI u l v hu hIu hC hs⟩
  exact hinv.2

theorem Reach.along {I : σ → Prop} {s t : σ} (h : Reach step C s t) (h0 : I s)
    (hI : ∀ u l v, Reach step C s u → I u → C u l → step u l = some v → I v) : I t := by
  obtain ⟨ls, h⟩ := h
  exact h.along (.refl s) h0 hI

variable (step) in
/-- Some step of the run is a `P` step. -/
def Occurs (P : σ → ℓ → σ → Prop) : σ → List ℓ → Prop
  | _, [] => False
  | s, l :: ls => ∃ t, step s l = some t ∧ (P s l t ∨ Occurs P t ls)

theorem occurs_cons {P : σ → ℓ → σ → Prop} {s t : σ} {l : ℓ} {ls : List ℓ} (h : step s l = some t) :
    Occurs step P s (l :: ls) ↔ P s l t ∨ Occurs step P t ls := by
  refine ⟨?_, fun hP => ⟨t, h, hP⟩⟩
  rintro ⟨t', ht', hP⟩
  obtain rfl := Option.some.inj (h.symm.trans ht')
  exact hP

/-- **Invariant rule with memory.** `p` and `q` say whether a `P` step and a `Q` step have occurred. -/
theorem Run.recall {P Q : σ → ℓ → σ → Prop} {I : Prop → Prop → σ → Prop}
    (hI : ∀ p q s l t, I p q s → C s l → step s l = some t → I (p ∨ P s l t) (q ∨ Q s l t) t)
    {s t : σ} {ls : List ℓ} (h : Run step C s ls t) (h0 : I False False s) :
    I (Occurs step P s ls) (Occurs step Q s ls) t := by
  have hgen : ∀ p q, I p q s → I (p ∨ Occurs step P s ls) (q ∨ Occurs step Q s ls) t := by
    clear h0
    induction h with
    | nil s =>
      intro p q h
      simpa [Occurs] using h
    | cons hC hs _ ih =>
      intro p q h
      have := ih _ _ (hI p q _ _ _ h hC hs)
      rwa [or_assoc, or_assoc, ← occurs_cons hs, ← occurs_cons hs] at this
  simpa using hgen False False h0

/-- **Simulation rule.** `R` relates the states of two systems; a step of the first is matched by a
run of the second, which is empty where the second need not move. -/
theorem Reach.simulate {τ κ : Type} {step' : τ → κ → Option τ} {D : τ → κ → Prop} {R : σ → τ → Prop}
    {s s' : σ} {t : τ} (h : Reach step C s s') (h0 : R s t)
    (hR : ∀ s t l s', R s t → C s l → step s l = some s' → ∃ t', Reach step' D t t' ∧ R s' t') :
    ∃ t', Reach step' D t t' ∧ R s' t' := by
  refine h.invariant (I := fun u => ∃ t', Reach step' D t t' ∧ R u t') ⟨t, .refl t, h0⟩ ?_
  rintro u l v ⟨t', ht', hR'⟩ hC hs
  obtain ⟨t'', ⟨ls, ht''⟩, hv⟩ := hR u t' l v hR' hC hs
  exact ⟨t'', ht'.run ht'', hv⟩

section Concrete

variable [∀ s l, Decidable (C s l)]

variable (step C) in
/-- The run of a list of labels; `none` when a label is not enabled or not allowed. -/
def runOf : σ → List ℓ → Option σ
  | s, [] => some s
  | s, l :: ls => if C s l then (step s l).bind fun t => runOf t ls else none

theorem run_of_runOf {s t : σ} {ls : List ℓ} (h : runOf step C s ls = some t) :
    Run step C s ls t := by
  induction ls generalizing s with
  | nil => cases h; exact .nil _
  | cons l ls ih =>
    rw [runOf] at h
    split at h
    · rename_i hC
      obtain ⟨u, hu, h⟩ := Option.bind_eq_some_iff.mp h
      exact .cons hC hu (ih h)
    · cases h

/-- A computed run that ends in a state with the property `p`. -/
theorem exists_run {s : σ} {ls : List ℓ} {p : σ → Bool} (h : (runOf step C s ls).any p = true) :
    ∃ t, Run step C s ls t ∧ p t = true := by
  obtain ⟨t, ht, hp⟩ := (Option.any_eq_true _ _).mp h
  exact ⟨t, run_of_runOf ht, hp⟩

end Concrete

end TransitionSystem
