import WebhookEngine.Model.Detail
import WebhookEngine.Proof.AuditLog

set_option autoImplicit false

/-!
# The detail is not behind its row

* `GetDetail.Sound`: what a call has read so far, against the tables as they are now.
* `sound_step`, `sound_answer`: the system and the statements of the call keep it.
* **`detail_not_behind`**: the attempts and transitions of a detail reach at least as far as its row.
-/

namespace WebhookEngine

open EffectProg TransitionSystem

variable {env : Env} {C : State → Label → Prop} {s s' : State} {l : Label} {d : DeliveryId}

/-! ## The two logs as they are read -/

theorem selectTransitions_eq (h : Reachable env C s) (d : DeliveryId) :
    s.pg.db.selectTransitions d = (s.pg.db.log d).map TransitionRow.detail := by
  have hsorted : (s.pg.db.log d).Pairwise fun a b => a.id ≤ b.id := by
    cases hD : s.pg.db.dossier? d with
    | none =>
      rw [Db.log_empty (reachable_ok h).db (Db.dossier?_none.mp hD)]
      exact .nil
    | some D =>
      rw [← (Db.dossier?_eq_some.mp hD).2.1]
      exact (reachable_projects h hD).sorted.imp Nat.le_of_lt
  rw [Db.selectTransitions, List.Pairwise.insertionSort_eq hsorted]

theorem selectTransitions_step (h : Reachable env C s) (hC : C s l) (hstep : step env s l = some s')
    (d : DeliveryId) : s.pg.db.selectTransitions d <+: s'.pg.db.selectTransitions d := by
  rw [selectTransitions_eq h, selectTransitions_eq (h.snoc hC hstep)]
  exact (story_log (reachable_ok h) hstep d).map _

theorem selectTransitions_run (h : Reachable env C s) (hlater : Reach (step env) C s s')
    (d : DeliveryId) : s.pg.db.selectTransitions d <+: s'.pg.db.selectTransitions d := by
  have hinv : Reachable env C s' ∧ s.pg.db.selectTransitions d <+: s'.pg.db.selectTransitions d := by
    refine hlater.invariant (I := fun u => Reachable env C u ∧
      s.pg.db.selectTransitions d <+: u.pg.db.selectTransitions d) ⟨h, List.prefix_rfl⟩ ?_
    rintro u l u' ⟨hu, hstem⟩ hC hstep
    exact ⟨hu.snoc hC hstep, hstem.trans (selectTransitions_step hu hC hstep d)⟩
  exact hinv.2

theorem selectAttempts_numbered (h : Reachable env NoCalls s) {row : DeliveryRow}
    (hrow : s.pg.db.delivery? d = some row) :
    (s.pg.db.selectAttempts d).map (·.attemptNumber) = List.range' 1 row.attemptCount := by
  have hD : s.pg.db.dossier? d = some ⟨row, s.pg.db.log d, s.pg.db.attemptsOf d⟩ :=
    Db.dossier?_eq_some.mpr ⟨hrow, rfl, rfl⟩
  have hnum : (s.pg.db.attemptsOf d).map (·.attemptNumber) = List.range' 1 row.attemptCount :=
    (reachable_counted (fun _ _ h => h) h).numbered _ _ hD
  have hsorted : (s.pg.db.attemptsOf d).Pairwise fun a b => a.attemptNumber ≤ b.attemptNumber := by
    have hrange : (List.range' 1 row.attemptCount).Pairwise (· ≤ ·) :=
      List.pairwise_le_range'
    rw [← hnum] at hrange
    exact List.pairwise_map.mp hrange
  rw [Db.selectAttempts, List.Pairwise.insertionSort_eq hsorted, List.map_map]
  exact hnum

/-! ## A call -/

/-- The tables have come at least as far as the row. -/
structure DetailRow.Reached (row : DetailRow) (db : Db) (d : DeliveryId) : Prop where
  count : ∃ r, db.delivery? d = some r ∧ row.attemptCount ≤ r.attemptCount
  status : ∃ tr ∈ db.selectTransitions d, tr.toStatus = row.status

/-- The attempts are numbered, and there are as many as the row counts or more. -/
structure DetailRow.Counts (row : DetailRow) (attempts : List AttemptDetail) : Prop where
  numbered : attempts.map (·.attemptNumber) = List.range' 1 attempts.length
  count : row.attemptCount ≤ attempts.length

/-- The transitions are the first ones of the log, with the one to the status of the row. -/
structure DetailRow.Logged (row : DetailRow) (db : Db) (d : DeliveryId)
    (transitions : List TransitionDetail) : Prop where
  stem : transitions <+: db.selectTransitions d
  status : ∃ tr ∈ transitions, tr.toStatus = row.status

/-- What a call has read so far. -/
def GetDetail.Sound (db : Db) (d : DeliveryId) : GetDetail → Prop
  | .start => True
  | .reading row attempts transitions => row.Reached db d ∧
      (∀ as ∈ attempts, row.Counts as) ∧ ∀ ts ∈ transitions, row.Logged db d ts
  | .done result => ∀ D ∈ result, D.toDetailRow.Counts D.attempts ∧
      D.toDetailRow.Logged db d D.transitions

theorem DetailRow.Logged.mono {row : DetailRow} {db db' : Db} {ts : List TransitionDetail}
    (h : row.Logged db d ts) (hstem : db.selectTransitions d <+: db'.selectTransitions d) :
    row.Logged db' d ts := ⟨h.stem.trans hstem, h.status⟩

/-- **The system keeps what a call has read.** -/
theorem sound_step (h : Reachable env C s) (hC : C s l) (hstep : step env s l = some s')
    {g : GetDetail} (hg : g.Sound s.pg.db d) : g.Sound s'.pg.db d := by
  have hstem := selectTransitions_step h hC hstep d
  cases g with
  | start => trivial
  | reading row attempts transitions =>
    obtain ⟨⟨⟨r, hr, hle⟩, tr, htr, hst⟩, has, hts⟩ := hg
    have hD : s.pg.db.dossier? d = some ⟨r, s.pg.db.log d, s.pg.db.attemptsOf d⟩ :=
      Db.dossier?_eq_some.mpr ⟨hr, rfl, rfl⟩
    obtain ⟨D', hD'⟩ := story_isSome (reachable_ok h) hstep hD
    have hcount := story_count (reachable_ok h) hstep hD hD'
    exact ⟨⟨⟨D'.row, (Db.dossier?_eq_some.mp hD').1, hle.trans hcount⟩, tr, hstem.subset htr, hst⟩,
      has, fun ts hmem => (hts ts hmem).mono hstem⟩
  | done result => exact fun D hmem => ⟨(hg D hmem).1, (hg D hmem).2.mono hstem⟩

theorem selectDetail_eq {db : Db} {row : DetailRow} (h : db.selectDetail d = some row) :
    ∃ r, db.delivery? d = some r ∧ row.attemptCount = r.attemptCount ∧ row.status = r.status := by
  obtain ⟨r, hr, h⟩ := Option.bind_eq_some_iff.mp h
  obtain ⟨ev, -, h⟩ := Option.bind_eq_some_iff.mp h
  obtain ⟨ep, -, rfl⟩ := Option.map_eq_some_iff.mp h
  exact ⟨r, hr, rfl, rfl⟩

theorem reached_of_selectDetail (h : Reachable env C s) {row : DetailRow}
    (hrow : s.pg.db.selectDetail d = some row) : row.Reached s.pg.db d := by
  obtain ⟨r, hr, hcount, hst⟩ := selectDetail_eq hrow
  have hD : s.pg.db.dossier? d = some ⟨r, s.pg.db.log d, s.pg.db.attemptsOf d⟩ :=
    Db.dossier?_eq_some.mpr ⟨hr, rfl, rfl⟩
  obtain ⟨-, before, last, hlog, hto⟩ := reachable_projects h hD
  refine ⟨⟨r, hr, hcount.le⟩, last.detail, ?_, hto.trans hst.symm⟩
  have hlog : s.pg.db.log d = before ++ [last] := hlog
  rw [selectTransitions_eq h, hlog]
  exact List.mem_map_of_mem (by simp)

theorem counts_of_selectAttempts (h : Reachable env NoCalls s) {row : DetailRow}
    (hrow : row.Reached s.pg.db d) : row.Counts (s.pg.db.selectAttempts d) := by
  obtain ⟨r, hr, hle⟩ := hrow.count
  have hnum := selectAttempts_numbered h hr
  have hlen : (s.pg.db.selectAttempts d).length = r.attemptCount := by
    simpa using congrArg List.length hnum
  exact ⟨hlen ▸ hnum, hlen ▸ hle⟩

theorem sound_settle {db : Db} {row : DetailRow} {attempts : Option (List AttemptDetail)}
    {transitions : Option (List TransitionDetail)} (hrow : row.Reached db d)
    (has : ∀ as ∈ attempts, row.Counts as) (hts : ∀ ts ∈ transitions, row.Logged db d ts) :
    (GetDetail.settle row attempts transitions).Sound db d := by
  cases attempts with
  | none => exact ⟨hrow, has, hts⟩
  | some as =>
    cases transitions with
    | none => exact ⟨hrow, has, hts⟩
    | some ts =>
      intro D hD
      cases hD
      exact ⟨has as rfl, hts ts rfl⟩

/-- **So do its own statements.** -/
theorem sound_answer (h : Reachable env NoCalls s) {g g' : GetDetail} {q : DetailQuery}
    (hg : g.Sound s.pg.db d) (ha : g.answer s.pg.db d q = some g') : g'.Sound s.pg.db d := by
  unfold GetDetail.answer at ha
  split at ha
  · split at ha
    · cases ha
      exact fun D hD => (by cases hD)
    · rename_i row hrow
      cases ha
      exact ⟨reached_of_selectDetail h hrow, fun as has => (by cases has), fun ts hts => (by cases hts)⟩
  · cases ha
    obtain ⟨hrow, -, hts⟩ := hg
    refine sound_settle hrow (fun as has => ?_) hts
    cases has
    exact counts_of_selectAttempts h hrow
  · cases ha
    obtain ⟨hrow, has, -⟩ := hg
    refine sound_settle hrow has fun ts hts => ?_
    cases hts
    exact ⟨List.prefix_rfl, hrow.status⟩
  · cases ha

/-! ## Interleavings -/

/-- The constraint on the steps of the system. -/
def Beside (C : State → Label → Prop) (v : State × GetDetail) : Label ⊕ DetailQuery → Prop
  | .inl l => C v.1 l
  | .inr _ => True

instance [∀ s l, Decidable (C s l)] (v : State × GetDetail) (l : Label ⊕ DetailQuery) :
    Decidable (Beside C v l) :=
  match l with
  | .inl l => (inferInstance : Decidable (C v.1 l))
  | .inr _ => .isTrue trivial

theorem reachable_sound {v : State × GetDetail}
    (h : Reach (viewStep env d) (Beside NoCalls) ({}, .start) v) :
    Reachable env NoCalls v.1 ∧ v.2.Sound v.1.pg.db d := by
  refine h.invariant (I := fun v => Reachable env NoCalls v.1 ∧ v.2.Sound v.1.pg.db d)
    ⟨.refl _, trivial⟩ ?_
  rintro ⟨s, g⟩ l v' ⟨hs, hg⟩ hC hstep
  cases l with
  | inl l =>
    obtain ⟨s', hs', rfl⟩ := Option.map_eq_some_iff.mp hstep
    exact ⟨hs.snoc hC hs', sound_step hs hC hs' hg⟩
  | inr q =>
    obtain ⟨g', hg', rfl⟩ := Option.map_eq_some_iff.mp hstep
    exact ⟨hs, sound_answer hs hg hg'⟩

/-- **The detail is never behind the row it shows**, however its statements and the steps of the system
are interleaved. -/
theorem detail_not_behind {D : DeliveryDetail}
    (h : Reach (viewStep env d) (Beside NoCalls) ({}, .start) (s, .done (some D)))
    (hlater : Reach (step env) NoCalls s s') :
    D.attempts.map (·.attemptNumber) = List.range' 1 D.attempts.length ∧
      D.attemptCount ≤ D.attempts.length ∧
        D.transitions <+: s'.pg.db.selectTransitions d ∧
          ∃ tr ∈ D.transitions, tr.toStatus = D.status := by
  obtain ⟨hs, hsound⟩ := reachable_sound h
  obtain ⟨hcounts, hlogged⟩ := hsound D rfl
  exact ⟨hcounts.numbered, hcounts.count, hlogged.stem.trans (selectTransitions_run hs hlater d),
    hlogged.status⟩

/-- The row is read before the first attempt of the sample delivery, the rest after it. -/
def sampleDetail : List (Label ⊕ DetailQuery) :=
  sampleIngest.map .inl ++ [.inr .row] ++ (sampleDelivery 1).map .inl ++
    [.inr .transitions, .inr .attempts]

/-- The detail of a call that has returned one. -/
def GetDetail.result : GetDetail → Option DeliveryDetail
  | .done result => result
  | _ => none

theorem GetDetail.result_eq {g : GetDetail} {D : DeliveryDetail} (h : g.result = some D) :
    g = .done (some D) := by
  cases g <;> cases h
  rfl

theorem detail_not_behind_delivered : ∃ s D,
    Reach (viewStep sampleEnv 2) (Beside NoCalls) ({}, .start) (s, .done (some D)) ∧
      D.status = .pending ∧ D.attemptCount = 0 ∧ D.attempts.length = 1 ∧
      D.attempts.map (·.attemptNumber) = List.range' 1 D.attempts.length ∧
      D.attemptCount ≤ D.attempts.length ∧ D.transitions <+: s.pg.db.selectTransitions 2 ∧
      ∃ tr ∈ D.transitions, tr.toStatus = D.status := by
  have hany : ((runOf (viewStep sampleEnv 2) (Beside NoCalls) ({}, .start) sampleDetail).any
      fun v => v.2.result.any fun D =>
        D.status = .pending ∧ D.attemptCount = 0 ∧ D.attempts.length = 1) = true := by decide +kernel
  obtain ⟨⟨s, g⟩, hrun, hs⟩ := exists_run hany
  obtain ⟨D, hD, hval⟩ := (Option.any_eq_true _ _).mp hs
  obtain ⟨hst, hcount, hlen⟩ := of_decide_eq_true hval
  obtain rfl := GetDetail.result_eq hD
  exact ⟨s, D, ⟨_, hrun⟩, hst, hcount, hlen, detail_not_behind ⟨_, hrun⟩ (.refl s)⟩

end WebhookEngine
