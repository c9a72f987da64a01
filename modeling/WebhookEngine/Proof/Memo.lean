import Mathlib.Data.List.GetD
import WebhookEngine.Lib.Run
import WebhookEngine.Model.Memo

set_option autoImplicit false

/-!
# `memoTtl` is single-flight and fresh

An invocation is outstanding until `memoTtl` has heard of its end: until the handler of `then` or the one
of `catch` has run.

* `Memo.Sound`: the invariant. `pending` is the outstanding invocation, which is the last one; a fresh
  `cached` is the value of a completed one, and there is none while the last one has no value.
* `sound_step`: every step keeps it.
* **`memo_single_flight`**: at most one invocation is outstanding, and how every call is answered.
-/

namespace WebhookEngine

open TransitionSystem

variable {T E : Type} {ttlMs : ℕ} {m m' : Memo T E} {i j : ℕ} {p q : Invocation T E}

namespace Memo

/-- The invocation is outstanding. -/
def Outstanding (m : Memo T E) (i : ℕ) : Prop :=
  ∃ p, m.invocations[i]? = some p ∧ p.outstanding = true

/-- The invocation completed successfully, at that time. -/
def Completed (m : Memo T E) (i : ℕ) (value : T) (time : ℕ) : Prop :=
  m.invocations[i]? = some (.completed value time) ∨ m.invocations[i]? = some (.fulfilled value time)

end Memo

/-- The invocation has a value. -/
def Invocation.successful : Invocation T E → Bool
  | .completed _ _ | .fulfilled _ _ => true
  | _ => false

/-- The answer of a call is that of its invocation, or the value it found. -/
def MemoCall.Served (m : Memo T E) (call : MemoCall T E) : Prop :=
  match call.source with
  | .cached value => call.answer = some (.ok value)
  | .shares i => i < m.invocations.length ∧ ∀ r, call.answer = some r → m.outcome i = some r

/-- **The invariant.** -/
structure Memo.Sound (ttlMs : ℕ) (m : Memo T E) : Prop where
  pending : ∀ i, m.pending = some i ↔ m.Outstanding i
  last : ∀ i, m.Outstanding i → i + 1 = m.invocations.length
  cached : ∀ value expiresAt, m.cached = some (value, expiresAt) →
    ∃ i time, m.Completed i value time ∧ expiresAt = time + ttlMs ∧ time ≤ m.now
  stale : ∀ p, m.invocations.getLast? = some p → p.successful = false → m.fresh = none
  calls : ∀ (c : ℕ) (call : MemoCall T E), m.calls[c]? = some call → call.Served m

/-! ## One invocation changes -/

namespace Memo

theorem lt_of_getElem? (h : m.invocations[i]? = some p) : i < m.invocations.length :=
  (List.getElem?_eq_some_iff.mp h).1

theorem set_self (h : m.invocations[i]? = some p) : (m.set i q).invocations[i]? = some q :=
  List.getElem?_set_self (lt_of_getElem? h)

theorem set_other (h : j ≠ i) : (m.set i q).invocations[j]? = m.invocations[j]? :=
  List.getElem?_set_ne (Ne.symm h)

theorem length_set : (m.set i q).invocations.length = m.invocations.length := List.length_set

theorem outstanding_set (h : m.invocations[i]? = some p) :
    (m.set i q).Outstanding j ↔ if j = i then q.outstanding = true else m.Outstanding j := by
  unfold Outstanding
  split
  · rename_i hji
    rw [hji, set_self h]
    simp
  · rename_i hji
    rw [set_other hji]

theorem outcome_set (hp : m.outcome i = none) {r : Except E T}
    (hr : m.outcome j = some r) : (m.set i q).outcome j = some r := by
  have hji : j ≠ i := fun hji => by
    rw [hji, hp] at hr
    cases hr
  rw [outcome, set_other hji]
  exact hr

theorem completed_set (h : m.invocations[i]? = some p) (hp : p.successful = false) {value : T}
    {time : ℕ} (hc : m.Completed j value time) : (m.set i q).Completed j value time := by
  have hji : j ≠ i := by
    rintro rfl
    rcases hc with hc | hc <;> cases h.symm.trans hc <;> cases hp
  rwa [Completed, set_other hji]

theorem outcome_of_outstanding (h : m.invocations[i]? = some p) (hp : p.outstanding = true) :
    m.outcome i = none := by
  rw [outcome, h]
  cases p <;> first | rfl | cases hp

theorem failed_of_outcome {err : E} (h : m.outcome i = some (.error err)) :
    m.invocations[i]? = some (.failed err) := by
  unfold outcome at h
  split at h
  · cases h
  · rename_i err' hi
    cases h
    exact hi
  · cases h

theorem unsuccessful_of_outstanding (hp : p.outstanding = true) : p.successful = false := by
  cases p <;> first | rfl | cases hp

theorem fresh_later (ms : ℕ) (h : m.fresh = none) : fresh { m with now := m.now + ms } = none := by
  unfold fresh at h ⊢
  cases hc : m.cached with
  | none => rfl
  | some c =>
    rw [hc, Option.bind_some] at h
    split at h
    · cases h
    · rename_i hle
      rw [Option.bind_some, if_neg]
      change ¬ c.2 > m.now + ms
      omega

theorem Sound.alone (h : m.Sound ttlMs) (hi : m.Outstanding i) (hj : m.Outstanding j) : i = j :=
  Option.some_inj.mp (((h.pending i).mpr hi).symm.trans ((h.pending j).mpr hj))

theorem Sound.getLast (h : m.Sound ttlMs) (hi : m.invocations[i]? = some p)
    (hp : p.outstanding = true) : m.invocations.getLast? = some p := by
  have hlast := h.last i ⟨p, hi, hp⟩
  rw [List.getLast?_eq_getElem?, ← hlast, Nat.add_sub_cancel]
  exact hi

theorem Sound.not_fresh (h : m.Sound ttlMs) (hi : m.Outstanding i) : m.fresh = none := by
  obtain ⟨p, hi, hp⟩ := hi
  exact h.stale p (h.getLast hi hp) (unsuccessful_of_outstanding hp)

end Memo

theorem MemoCall.Served.mono {call : MemoCall T E} (h : call.Served m)
    (hlen : m.invocations.length ≤ m'.invocations.length)
    (hout : ∀ i r, m.outcome i = some r → m'.outcome i = some r) : call.Served m' := by
  unfold MemoCall.Served at h ⊢
  split
  · rename_i value hs
    rw [hs] at h
    exact h
  · rename_i i hs
    rw [hs] at h
    exact ⟨Nat.lt_of_lt_of_le h.1 hlen, fun r hr => hout i r (h.2 r hr)⟩

namespace Memo.Sound

theorem goes_on (h : m.Sound ttlMs) (hi : m.invocations[i]? = some p) (hp : p.outstanding = true)
    (hq : q.outstanding = true) : (m.set i q).Sound ttlMs where
  pending j := by
    rw [outstanding_set hi]
    change m.pending = some j ↔ _
    rw [h.pending]
    split
    · rename_i hji
      rw [hji]
      exact ⟨fun _ => hq, fun _ => ⟨p, hi, hp⟩⟩
    · rfl
  last j hj := by
    rw [length_set]
    rw [outstanding_set hi] at hj
    split at hj
    · rename_i hji
      rw [hji]
      exact h.last i ⟨p, hi, hp⟩
    · exact h.last j hj
  cached value expiresAt hc := by
    obtain ⟨k, time, hk, hx, hle⟩ := h.cached value expiresAt hc
    exact ⟨k, time, completed_set hi (unsuccessful_of_outstanding hp) hk, hx, hle⟩
  stale _ _ _ := h.not_fresh ⟨p, hi, hp⟩
  calls c call hcall := (h.calls c call hcall).mono (Nat.le_of_eq length_set.symm) fun _ _ =>
    outcome_set (outcome_of_outstanding hi hp)

theorem ends (h : m.Sound ttlMs) (hi : m.invocations[i]? = some p) (hp : p.outstanding = true)
    (hq : q.outstanding = false) {cached : Option (T × ℕ)}
    (hcached : q.successful = false ∧ cached = m.cached ∨
      ∃ value, q = .completed value m.now ∧ cached = some (value, m.now + ttlMs)) :
    Memo.Sound ttlMs { m.set i q with cached := cached, pending := none } := by
  have hnone : ∀ j, ¬ (m.set i q).Outstanding j := by
    intro j hj
    rw [outstanding_set hi] at hj
    split at hj
    · rw [hq] at hj
      cases hj
    · rename_i hji
      exact hji (h.alone hj ⟨p, hi, hp⟩)
  have hlast : ∀ q', (m.set i q).invocations.getLast? = some q' → q' = q := by
    intro q' hq'
    rw [List.getLast?_eq_getElem?, length_set, ← h.last i ⟨p, hi, hp⟩, Nat.add_sub_cancel,
      set_self hi] at hq'
    exact (Option.some_inj.mp hq').symm
  refine ⟨fun j => ⟨fun hj => (by cases hj), fun hj => absurd hj (hnone j)⟩,
    fun j hj => absurd hj (hnone j), fun value expiresAt hc => ?_, fun q' hq' hs => ?_,
    fun c call hcall => (h.calls c call hcall).mono (Nat.le_of_eq length_set.symm) fun _ _ =>
      outcome_set (outcome_of_outstanding hi hp)⟩
  · rcases hcached with ⟨-, rfl⟩ | ⟨v, hv, rfl⟩
    · obtain ⟨k, time, hk, hx, hle⟩ := h.cached value expiresAt hc
      exact ⟨k, time, completed_set hi (unsuccessful_of_outstanding hp) hk, hx, hle⟩
    · cases hc
      refine ⟨i, m.now, Or.inl ?_, rfl, Nat.le_refl _⟩
      exact (set_self hi).trans (congrArg some hv)
  · rcases hcached with ⟨-, rfl⟩ | ⟨v, hv, rfl⟩
    · exact h.not_fresh ⟨p, hi, hp⟩
    · rw [hlast q' hq', hv] at hs
      cases hs

theorem fulfils (h : m.Sound ttlMs) {value : T} {time : ℕ}
    (hi : m.invocations[i]? = some (.completed value time)) :
    (m.set i (.fulfilled value time)).Sound ttlMs := by
  have hout : ∀ j, (m.set i (.fulfilled value time)).Outstanding j ↔ m.Outstanding j := by
    intro j
    rw [outstanding_set hi]
    split
    · rename_i hji
      rw [hji]
      refine ⟨fun hq => (by cases hq), ?_⟩
      rintro ⟨p, hp, hout⟩
      cases hi.symm.trans hp
      cases hout
    · rfl
  refine ⟨fun j => ?_, fun j hj => ?_, fun v x hc => ?_, fun q hq hs => ?_, fun c call hcall => ?_⟩
  · rw [hout]
    exact h.pending j
  · rw [length_set]
    exact h.last j ((hout j).mp hj)
  · obtain ⟨k, t, hk, hx, hle⟩ := h.cached v x hc
    refine ⟨k, t, ?_, hx, hle⟩
    by_cases hki : k = i
    · subst hki
      rcases hk with hk | hk
      · cases hi.symm.trans hk
        exact Or.inr (set_self hi)
      · cases hi.symm.trans hk
    · rwa [Completed, set_other hki]
  · rw [List.getLast?_eq_getElem?, length_set] at hq
    by_cases hlast : m.invocations.length - 1 = i
    · rw [hlast, set_self hi] at hq
      cases hq
      cases hs
    · rw [set_other hlast, ← List.getLast?_eq_getElem?] at hq
      exact h.stale q hq hs
  · refine (h.calls c call hcall).mono (Nat.le_of_eq length_set.symm) fun _ _ => outcome_set ?_
    rw [outcome, hi]

theorem starts (h : m.Sound ttlMs) (hfresh : m.fresh = none) (hnone : m.pending = none) :
    m.start.Sound ttlMs := by
  have hidle : ∀ j, ¬ m.Outstanding j := fun j hj => by
    have := (h.pending j).mpr hj
    rw [hnone] at this
    cases this
  have hold : ∀ {j : ℕ} {q : Invocation T E}, m.invocations[j]? = some q →
      (m.invocations ++ [.running])[j]? = some q := fun {j q} hq => by
    rw [List.getElem?_append_left (lt_of_getElem? hq)]
    exact hq
  have hnew : ∀ {j : ℕ} {q : Invocation T E}, (m.invocations ++ [.running])[j]? = some q →
      q.outstanding = true → j = m.invocations.length := fun {j q} hq ho => by
    by_cases hj : j < m.invocations.length
    · rw [List.getElem?_append_left hj] at hq
      exact absurd ⟨q, hq, ho⟩ (hidle j)
    · have hlt := (List.getElem?_eq_some_iff.mp hq).1
      rw [List.length_append, List.length_singleton] at hlt
      omega
  have hout : ∀ (j : ℕ) (r : Except E T), m.outcome j = some r → m.start.outcome j = some r := by
    intro j r hr
    cases hj : m.invocations[j]? with
    | none =>
      rw [outcome, hj] at hr
      cases hr
    | some q =>
      have hj' : m.start.invocations[j]? = some q := hold hj
      rw [outcome, hj] at hr
      rw [outcome, hj']
      exact hr
  refine ⟨fun j => ⟨fun hj => ?_, fun hj => ?_⟩, fun j hj => ?_, fun value expiresAt hc => ?_,
    fun _ _ _ => hfresh, fun c call hc => ?_⟩
  · cases hj
    exact ⟨.running, List.getElem?_concat_length, rfl⟩
  · obtain ⟨q, hq, ho⟩ := hj
    rw [hnew hq ho]
    rfl
  · obtain ⟨q, hq, ho⟩ := hj
    rw [hnew hq ho, start, List.length_append, List.length_singleton]
  · obtain ⟨k, time, hk, hx, hle⟩ := h.cached value expiresAt hc
    exact ⟨k, time, hk.imp hold hold, hx, hle⟩
  · have hlen : m.invocations.length < (m.invocations ++ [Invocation.running]).length := by simp
    rcases List.mem_append.mp (List.mem_of_getElem? hc) with hmem | hmem
    · obtain ⟨c', hc'⟩ := List.getElem?_of_mem hmem
      exact (h.calls c' call hc').mono (Nat.le_of_lt hlen) hout
    · rw [List.mem_singleton.mp hmem]
      exact ⟨hlen, fun r hr => (by cases hr)⟩

theorem calling (h : m.Sound ttlMs) : m.call.Sound ttlMs := by
  have hold : ∀ {calls : List (MemoCall T E)} (call : MemoCall T E), call.Served m →
      calls = m.calls ++ [call] → ∀ (c : ℕ) (call' : MemoCall T E), calls[c]? = some call' →
        call'.Served m := by
    rintro calls call hcall rfl c call' hc
    rcases List.mem_append.mp (List.mem_of_getElem? hc) with hmem | hmem
    · obtain ⟨c', hc'⟩ := List.getElem?_of_mem hmem
      exact h.calls c' call' hc'
    · rw [List.mem_singleton.mp hmem]
      exact hcall
  unfold Memo.call
  split
  · rename_i value hfresh
    exact ⟨h.pending, h.last, h.cached, h.stale, hold ⟨.cached value, some (.ok value)⟩ rfl rfl⟩
  · rename_i hfresh
    split
    · rename_i i hi
      obtain ⟨p, hp, -⟩ := (h.pending i).mp hi
      exact ⟨h.pending, h.last, h.cached, h.stale,
        hold ⟨.shares i, none⟩ ⟨lt_of_getElem? hp, fun r hr => (by cases hr)⟩ rfl⟩
    · rename_i hnone
      exact h.starts hfresh hnone

/-- **Every step keeps the invariant.** -/
theorem step (h : m.Sound ttlMs) {l : MemoLabel T E} (hstep : memoStep ttlMs m l = some m') :
    m'.Sound ttlMs := by
  cases l with
  | tick ms =>
    cases hstep
    refine ⟨h.pending, h.last, fun value expiresAt hc => ?_, fun p hp hs => ?_, h.calls⟩
    · obtain ⟨i, time, hi, hx, hle⟩ := h.cached value expiresAt hc
      exact ⟨i, time, hi, hx, Nat.le_add_right_of_le hle⟩
    · exact fresh_later ms (h.stale p hp hs)
  | call =>
    cases hstep
    exact h.calling
  | settle i result =>
    change m.settle i result = some m' at hstep
    unfold Memo.settle at hstep
    split at hstep
    · rename_i hi
      cases hstep
      exact h.goes_on hi rfl rfl
    · rename_i hi
      cases hstep
      exact h.goes_on hi rfl rfl
    · cases hstep
  | react i =>
    change m.react ttlMs i = some m' at hstep
    unfold Memo.react at hstep
    split at hstep
    · rename_i value hi
      cases hstep
      exact h.ends hi rfl rfl (Or.inr ⟨value, rfl, rfl⟩)
    · rename_i hi
      cases hstep
      exact h.goes_on hi rfl rfl
    · rename_i hi
      cases hstep
      exact h.ends hi rfl rfl (Or.inl ⟨rfl, rfl⟩)
    · rename_i hi
      cases hstep
      exact h.fulfils hi
    · cases hstep
  | deliver c =>
    change m.deliver c = some m' at hstep
    unfold Memo.deliver at hstep
    split at hstep
    · rename_i i hc
      obtain ⟨r, hr, rfl⟩ := Option.map_eq_some_iff.mp hstep
      refine ⟨h.pending, h.last, h.cached, h.stale, fun c' call hc' => ?_⟩
      by_cases hcc : c' = c
      · subst hcc
        rw [List.getElem?_set_self (List.getElem?_eq_some_iff.mp hc).1] at hc'
        cases hc'
        refine ⟨(h.calls c' _ hc).1, fun r' hr' => ?_⟩
        cases hr'
        exact hr
      · rw [List.getElem?_set_ne (Ne.symm hcc)] at hc'
        exact h.calls c' call hc'
    · cases hstep

end Memo.Sound

/-! ## Runs -/

/-- A state the memoised function comes to. -/
abbrev Memo.Reachable (ttlMs : ℕ) (m : Memo T E) : Prop :=
  Reach (memoStep ttlMs) (fun _ _ => True) {} m

theorem sound_init : Memo.Sound ttlMs ({} : Memo T E) where
  pending i := ⟨fun h => (by cases h), fun ⟨p, hp, _⟩ => (by cases hp)⟩
  last i h := by
    obtain ⟨p, hp, -⟩ := h
    cases hp
  cached v x h := by cases h
  stale p h := by cases h
  calls c call h := by cases h

theorem reachable_memo (h : m.Reachable ttlMs) : m.Sound ttlMs :=
  h.invariant sound_init fun _ _ _ hm _ hstep => hm.step hstep

/-- Where a call in this state may get its answer from: the invocation that is outstanding, one that it
starts, or one that completed successfully less than `ttlMs` before. -/
inductive Memo.Answers (ttlMs : ℕ) (m : Memo T E) : Source T → Prop where
  | shares {i : ℕ} (h : m.Outstanding i) (hold : m.call.invocations = m.invocations) :
      Answers ttlMs m (.shares i)
  | starts (h : ∀ i, ¬ m.Outstanding i) (hnew : m.call.invocations = m.invocations ++ [.running]) :
      Answers ttlMs m (.shares m.invocations.length)
  | cached {i : ℕ} {value : T} {time : ℕ} (h : m.Completed i value time) (hle : time ≤ m.now)
      (hlt : m.now < time + ttlMs) (hold : m.call.invocations = m.invocations) :
      Answers ttlMs m (.cached value)

/-- **One call.** -/
theorem call_answers (h : m.Sound ttlMs) : ∃ call : MemoCall T E,
    m.call.calls = m.calls ++ [call] ∧ m.Answers ttlMs call.source := by
  cases hfresh : m.fresh with
  | some value =>
    obtain ⟨⟨v, x⟩, hc, hv⟩ := Option.bind_eq_some_iff.mp hfresh
    split at hv
    · rename_i hlt
      obtain rfl := Option.some_inj.mp hv
      obtain ⟨i, time, hi, rfl, hle⟩ := h.cached _ _ hc
      refine ⟨⟨.cached v, some (.ok v)⟩, ?_, .cached hi hle hlt ?_⟩
      · rw [Memo.call, hfresh]
      · rw [Memo.call, hfresh]
    · cases hv
  | none =>
    cases hpending : m.pending with
    | some i =>
      refine ⟨⟨.shares i, none⟩, ?_, .shares ((h.pending i).mp hpending) ?_⟩
      · rw [Memo.call, hfresh, hpending]
      · rw [Memo.call, hfresh, hpending]
    | none =>
      refine ⟨⟨.shares m.invocations.length, none⟩, ?_, .starts (fun i hi => ?_) ?_⟩
      · rw [Memo.call, hfresh, hpending]
        rfl
      · have := (h.pending i).mpr hi
        rw [hpending] at this
        cases this
      · rw [Memo.call, hfresh, hpending]
        rfl

theorem step_calls (h : m.Sound ttlMs) {l : MemoLabel T E} (hstep : memoStep ttlMs m l = some m')
    {c : ℕ} {call : MemoCall T E} (hc : m'.calls[c]? = some call) :
    (∃ call', m.calls[c]? = some call' ∧ call'.source = call.source) ∨
      l = .call ∧ c = m.calls.length ∧ m.Answers ttlMs call.source := by
  cases l with
  | call =>
    cases hstep
    obtain ⟨call', hcalls, hans⟩ := call_answers h
    rw [hcalls] at hc
    by_cases hlt : c < m.calls.length
    · rw [List.getElem?_append_left hlt] at hc
      exact Or.inl ⟨call, hc, rfl⟩
    · have hle := (List.getElem?_eq_some_iff.mp hc).1
      rw [List.length_append, List.length_singleton] at hle
      obtain rfl : c = m.calls.length := by omega
      rw [List.getElem?_concat_length] at hc
      cases hc
      exact Or.inr ⟨rfl, rfl, hans⟩
  | deliver c' =>
    change m.deliver c' = some m' at hstep
    unfold Memo.deliver at hstep
    split at hstep
    · rename_i i hc'
      obtain ⟨r, -, rfl⟩ := Option.map_eq_some_iff.mp hstep
      by_cases hcc : c = c'
      · subst hcc
        rw [List.getElem?_set_self (List.getElem?_eq_some_iff.mp hc').1] at hc
        cases hc
        exact Or.inl ⟨_, hc', rfl⟩
      · rw [List.getElem?_set_ne (Ne.symm hcc)] at hc
        exact Or.inl ⟨call, hc, rfl⟩
    · cases hstep
  | tick ms =>
    cases hstep
    exact Or.inl ⟨call, hc, rfl⟩
  | settle i result =>
    change m.settle i result = some m' at hstep
    unfold Memo.settle at hstep
    split at hstep <;> cases hstep <;> exact Or.inl ⟨call, hc, rfl⟩
  | react i =>
    change m.react ttlMs i = some m' at hstep
    unfold Memo.react at hstep
    split at hstep <;> cases hstep <;> exact Or.inl ⟨call, hc, rfl⟩

variable (ttlMs m) in
/-- The call with this number was made in a state in which its answer may come from there. -/
def Memo.Made (c : ℕ) (source : Source T) : Prop :=
  ∃ m₀ : Memo T E, m₀.Reachable ttlMs ∧ Reach (memoStep ttlMs) (fun _ _ => True) m₀.call m ∧
    m₀.calls.length = c ∧ m₀.Answers ttlMs source

/-- **Every call.** -/
theorem reachable_made (h : m.Reachable ttlMs) {c : ℕ} {call : MemoCall T E}
    (hc : m.calls[c]? = some call) : m.Made ttlMs c call.source := by
  have hinv : m.Reachable ttlMs ∧ ∀ (c : ℕ) (call : MemoCall T E), m.calls[c]? = some call →
      m.Made ttlMs c call.source := by
    refine h.invariant (I := fun m => m.Reachable ttlMs ∧ ∀ (c : ℕ) (call : MemoCall T E),
      m.calls[c]? = some call → m.Made ttlMs c call.source)
        ⟨.refl _, fun c call hc => (by cases hc)⟩ ?_
    rintro m l m' ⟨hm, ih⟩ - hstep
    refine ⟨hm.snoc trivial hstep, fun c call hc => ?_⟩
    rcases step_calls (reachable_memo hm) hstep hc with ⟨call', hc', hsource⟩ | ⟨rfl, rfl, hans⟩
    · obtain ⟨m₀, h₀, hlater, hlen, hans⟩ := ih c call' hc'
      exact ⟨m₀, h₀, hlater.snoc trivial hstep, hlen, hsource ▸ hans⟩
    · cases hstep
      exact ⟨m, hm, .refl _, rfl, hans⟩
  exact hinv.2 c call hc

/-- A call without an answer waits for the promise of `fn`, or for a reaction that is due. -/
theorem call_waits (h : m.Sound ttlMs) {c : ℕ} {call : MemoCall T E} (hc : m.calls[c]? = some call)
    (hnone : call.answer = none) : ∃ i, call.source = .shares i ∧
      (m.invocations[i]? = some .running ∨ (memoStep ttlMs m (.react i)).isSome ∨
        (memoStep ttlMs m (.deliver c)).isSome) := by
  have hserved := h.calls c call hc
  obtain ⟨source, answer⟩ := call
  cases source with
  | cached value =>
    cases hserved.symm.trans hnone
  | shares i =>
    obtain rfl : answer = none := hnone
    refine ⟨i, rfl, ?_⟩
    have hdeliver : memoStep ttlMs m (.deliver c) = (m.outcome i).map fun r =>
        { m with calls := m.calls.set c ⟨.shares i, some r⟩ } := by
      change m.deliver c = _
      rw [Memo.deliver, hc]
    have hreact : memoStep ttlMs m (.react i) = m.react ttlMs i := rfl
    obtain ⟨p, hp⟩ : ∃ p, m.invocations[i]? = some p := ⟨_, List.getElem?_eq_getElem hserved.1⟩
    rw [hdeliver, hreact, Option.isSome_map, Memo.react, Memo.outcome, hp]
    cases p <;> simp

/-- **`memoTtl` is single-flight and fresh.** At most one invocation is outstanding; every call is
answered by one that was outstanding when it was made, was started by it, or completed less than `ttlMs`
before, with the outcome of that one; an error reaches only the calls that share the invocation that
failed, and after it the next call starts a new one. -/
theorem memo_single_flight (h : m.Reachable ttlMs) :
    (∀ i j, m.Outstanding i → m.Outstanding j → i = j) ∧
    (∀ (c : ℕ) (call : MemoCall T E), m.calls[c]? = some call →
      m.Made ttlMs c call.source ∧ call.Served m ∧
      (call.answer = none → ∃ i, call.source = .shares i ∧
        (m.invocations[i]? = some .running ∨ (memoStep ttlMs m (.react i)).isSome ∨
          (memoStep ttlMs m (.deliver c)).isSome)) ∧
      ∀ err, call.answer = some (.error err) →
        ∃ i, call.source = .shares i ∧ m.invocations[i]? = some (.failed err)) ∧
    ∀ err, m.invocations.getLast? = some (.failed err) → m.call = m.start := by
  have hm := reachable_memo h
  refine ⟨fun i j => hm.alone, fun c call hc => ⟨reachable_made h hc, hm.calls c call hc,
    call_waits hm hc, fun err herr => ?_⟩, fun err hlast => ?_⟩
  · have hserved := hm.calls c call hc
    obtain ⟨source, answer⟩ := call
    cases source with
    | cached value => cases hserved.symm.trans herr
    | shares i => exact ⟨i, rfl, Memo.failed_of_outcome (hserved.2 _ herr)⟩
  · have hfresh : m.fresh = none := hm.stale _ hlast rfl
    have hpending : m.pending = none := by
      cases hp : m.pending with
      | none => rfl
      | some i =>
        obtain ⟨p, hi, ho⟩ := (hm.pending i).mp hp
        cases hlast.symm.trans (hm.getLast hi ho)
        cases ho
    rw [Memo.call, hfresh, hpending]

/-- Two calls share an invocation that fails; the third starts another one, and the last one finds its
value. -/
def sampleMemo : List (MemoLabel ℕ String) :=
  [.call, .call, .settle 0 (.error "down"), .react 0, .react 0, .deliver 1, .deliver 0, .call,
    .settle 1 (.ok 7), .react 1, .tick 999, .call, .react 1, .deliver 2]

theorem memo_single_flight_shared : ∃ m : Memo ℕ String, m.Reachable 1000 ∧
    m.calls = [⟨.shares 0, some (.error "down")⟩, ⟨.shares 0, some (.error "down")⟩,
      ⟨.shares 1, some (.ok 7)⟩, ⟨.cached 7, some (.ok 7)⟩] ∧
    (∀ i j, m.Outstanding i → m.Outstanding j → i = j) ∧
    ∀ (c : ℕ) (call : MemoCall ℕ String), m.calls[c]? = some call → m.Made 1000 c call.source := by
  have hany : ((runOf (memoStep 1000) (fun _ _ => True) ({} : Memo ℕ String) sampleMemo).any fun m =>
      m.calls = [⟨.shares 0, some (.error "down")⟩, ⟨.shares 0, some (.error "down")⟩,
        ⟨.shares 1, some (.ok 7)⟩, ⟨.cached 7, some (.ok 7)⟩]) = true := by decide +kernel
  obtain ⟨m, hrun, hcalls⟩ := exists_run hany
  have hm : m.Reachable 1000 := ⟨_, hrun⟩
  obtain ⟨halone, hmade, -⟩ := memo_single_flight hm
  exact ⟨m, hm, of_decide_eq_true hcalls, halone, fun c call hc => (hmade c call hc).1⟩

end WebhookEngine
