import WebhookEngine.Proof.Stranded
import WebhookEngine.Proof.Budget

set_option autoImplicit false

/-!
# What DLQ says about the attempts

`handleFailed` decides by the job's `attemptsMade`, which every throw advances; the attempts of the
delivery are advanced by `recordAttempt` alone.

* `Db.recent`: the attempts since the creation or the last manual retry.
* `Accounted`: every throw that BullMQ counts of a job of the delivery is the throw of an execution whose
  attempt was recorded and was no success.
* `Tally`: the count of the live job is covered by recent attempts, and so is the handler's decision.
* **`dlq_exhausted`**: in such runs what goes to DLQ has as many failed attempts as the budget allows and
  no successful one.
-/

namespace WebhookEngine

open EffectProg TransitionSystem

variable {env : Env} {s s' : State} {l : Label} {t u : Tid} {th th' : Thread} {d : DeliveryId}
  {j j' : Job} {D D' : Dossier}

/-! ## Recent attempts -/

/-- The row stands for an attempt. -/
def TransitionRow.isAttempt (tr : TransitionRow) : Bool :=
  tr.toStatus = .delivered ∨ tr.toStatus = .failed

/-- The rows of an audit log after its last manual retry, latest first. -/
def sinceRetry (log : List TransitionRow) : List TransitionRow :=
  log.reverse.takeWhile fun tr => tr.triple ≠ (some .dlq, .pending, .manualRetry)

/-- The last attempts, as many as the audit log has rows for since its last manual retry. -/
def recentOf (log : List TransitionRow) (attempts : List AttemptRow) : List AttemptRow :=
  attempts.drop (attempts.length - (sinceRetry log).countP (·.isAttempt))

theorem recentOf_append {log : List TransitionRow} {attempts : List AttemptRow} {tr : TransitionRow}
    (h : tr.isAttempt = false) (hne : tr.triple ≠ (some .dlq, .pending, .manualRetry)) :
    recentOf (log ++ [tr]) attempts = recentOf log attempts := by
  simp [recentOf, sinceRetry, hne, h]

theorem recentOf_retried {log : List TransitionRow} {attempts : List AttemptRow} {tr : TransitionRow}
    (h : tr.triple = (some .dlq, .pending, .manualRetry)) :
    recentOf (log ++ [tr]) attempts = [] := by
  simp [recentOf, sinceRetry, h]

theorem recentOf_recorded {log : List TransitionRow} {attempts : List AttemptRow}
    {tr : TransitionRow} (h : tr.isAttempt = true) (a : AttemptRow) :
    recentOf (log ++ [tr]) (attempts ++ [a]) = recentOf log attempts ++ [a] := by
  have hne : tr.triple ≠ (some .dlq, .pending, .manualRetry) := by
    intro heq
    have hto : tr.toStatus = .pending := congrArg (fun x => x.2.1) heq
    simp [TransitionRow.isAttempt, hto] at h
  simp [recentOf, sinceRetry, hne, h, List.drop_append_of_le_length]

/-- The attempts since the creation or the last manual retry of a delivery. -/
def Db.recent (db : Db) (d : DeliveryId) : List AttemptRow := recentOf (db.log d) (db.attemptsOf d)

/-- How many of them failed. -/
def Db.failures (db : Db) (d : DeliveryId) : ℕ := (db.recent d).countP (·.outcome ≠ .success)

theorem Db.recent_eq {db : Db} (h : db.dossier? d = some D) :
    db.recent d = recentOf D.log D.attempts := by
  obtain ⟨-, hlog, hatt⟩ := Db.dossier?_eq_some.mp h
  rw [hlog, hatt]
  rfl

theorem Db.recent_none {db : Db} (hdb : DbOk db) (h : db.dossier? d = none) : db.recent d = [] := by
  have hnone := Db.dossier?_none.mp h
  rw [Db.recent, Db.attemptsOf_empty hdb hnone, recentOf, List.drop_nil]

/-! ## Accounted throws -/

/-- The attempt of an execution, by the number it would have, is in the table and failed. -/
def Thread.recorded (th : Thread) (db : Db) (d : DeliveryId) : Bool :=
  th.facts.row.any fun r => (db.attemptsOf d).any fun a =>
    a.attemptNumber = r.attemptCount + 1 ∧ a.outcome ≠ .success

/-- When BullMQ counts a throw for the delivery, the attempt of the execution was recorded and failed. -/
def Accounts (d : DeliveryId) (s : State) : Label → Prop
  | .settle t => s.failing t = some d → (s.live? t).any (·.recorded s.pg.db d) = true
  | _ => True

instance (d : DeliveryId) (s : State) : (l : Label) → Decidable (Accounts d s l)
  | .settle t => inferInstanceAs (Decidable (s.failing t = some d → _))
  | .tick _ | .op _ _ | .crash _ | .extend _ | .extendReply _ | .request _ | .pickup _ | .stall _
  | .stallFail _ | .removeCompleted _ | .operatorAdd _ _ | .evict _ | .idemArrive _ | .redisLoss
  | .createEndpoint _ _ _ | .patchEndpoint _ _ _ => inferInstanceAs (Decidable True)

/-- No job of the delivery is lost or put into the queue by hand, its processors commit only as owners,
and what BullMQ counts for it was recorded. -/
def Accounted (d : DeliveryId) (s : State) (l : Label) : Prop := Proper d s l ∧ Accounts d s l

instance (d : DeliveryId) (s : State) (l : Label) : Decidable (Accounted d s l) :=
  inferInstanceAs (Decidable (_ ∧ _))

theorem Accounted.keepsJobs (s : State) (l : Label) (h : Accounted d s l) : KeepsJobsOf d s l := h.1.1

theorem reachable_accounted_viewed (h : Reachable env (Accounted d) s) : Viewed d s :=
  reachable_viewed Accounted.keepsJobs (fun _ _ _ hl => hl.1.2) h

theorem State.failing_eq {job : JobRef} {err : Err} (hlive : s.live? t = some th)
    (hp : th.prog = .raise err) (hne : err ≠ .delayed) (hk : th.kind = .deliver job)
    (hj : s.jobs.job? job.id = some j) (ho : j.owner = some t) :
    s.failing t = some j.deliveryId := by
  simp [State.failing, hlive, hp, hk, hne, hj, ho]

/-- **An owner that has recorded a failed attempt** leaves the delivery FAILED. -/
theorem Owns.recorded {C : State → Label → Prop} (ho : Owns s t d j)
    (hC : ∀ s l, C s l → KeepsJobsOf d s l) (hr : Reachable env C s) (hv : Viewed d s)
    (hlive : s.live? t = some th) (hrec : th.recorded s.pg.db d = true) :
    ∃ r D, th.facts.row = some r ∧ s.pg.db.dossier? d = some D ∧
      D.row.attemptCount = r.attemptCount + 1 ∧ D.row.status = .failed := by
  obtain ⟨job, hk, -, hd⟩ := ho.runs hr hlive
  obtain ⟨r, hrow, ha⟩ := (Option.any_eq_true _ _).mp hrec
  obtain ⟨a, ha, hcond⟩ := List.any_eq_true.mp ha
  obtain ⟨hn, hout⟩ := of_decide_eq_true hcond
  cases hD : s.pg.db.dossier? d with
  | none =>
    subst hd
    cases (row_none (reachable_ok hr) hlive hk hD).symm.trans hrow
  | some D =>
    refine ⟨r, D, hrow, rfl, ?_⟩
    rw [← (Db.dossier?_eq_some.mp hD).2.2] at ha
    have hnum : D.attempts.map (·.attemptNumber) = _ :=
      (reachable_counted (fun s l h => (hC s l h).1) hr).numbered d D hD
    have hcourse : th.facts.row.map (·.status) = th.course.row.join := course_row th.trace
    rw [hrow] at hcourse
    cases hv t th j D hlive ho hD with
    | unread h => simp [h] at hcourse
    | missing h => simp [h] at hcourse
    | read hrow' saved count status =>
      -- nothing was recorded since the row was read
      cases hrow.symm.trans hrow'
      have hmem := List.mem_map_of_mem (f := fun a : AttemptRow => a.attemptNumber) ha
      rw [hnum, List.mem_range'_1, count, hn] at hmem
      omega
    | @done r' a' hrow' open_ spent count ha' hn' status saved =>
      cases hrow.symm.trans hrow'
      have hnodup : (D.attempts.map (·.attemptNumber)).Nodup := hnum ▸ List.nodup_range'
      obtain rfl := List.inj_on_of_nodup_map hnodup ha ha' (hn.trans hn'.symm)
      exact ⟨count, by rw [status, AttemptOutcome.toStatus, if_neg hout]⟩

/-- A throw that counts leaves a delivery that the execution has left FAILED. -/
theorem Owns.accounted (ho : Owns s t d j) (hr : Reachable env (Accounted d) s)
    (hl : Accounts d s (.settle t)) (hlive : s.live? t = some th) {err : Err}
    (hp : th.prog = .raise err) (hne : err ≠ .delayed) :
    ∃ r D, th.facts.row = some r ∧ s.pg.db.dossier? d = some D ∧
      D.row.attemptCount = r.attemptCount + 1 ∧ D.row.status = .failed := by
  obtain ⟨job, hk, hid, -⟩ := ho.runs hr hlive
  have hfail : s.failing t = some d := by
    rw [State.failing_eq hlive hp hne hk (hid ▸ (reachable_jobs hr).job? ho.job) ho.owner, ho.delivery]
  refine ho.recorded Accounted.keepsJobs hr (reachable_accounted_viewed hr) hlive ?_
  have hany := hl hfail
  rwa [hlive] at hany

/-! ## The tally -/

/-- **What covers the counts of BullMQ.** -/
structure Tally (env : Env) (s : State) (d : DeliveryId) : Prop where
  job : ∀ j ∈ s.jobs, j.live = true → j.deliveryId = d → j.attemptsMade ≤ s.pg.db.failures d
  done : ∀ t th j r D, s.live? t = some th → Owns s t d j → th.facts.row = some r →
    s.pg.db.dossier? d = some D → D.row.attemptCount = r.attemptCount + 1 →
      D.row.status = .delivered ∨ j.attemptsMade + 1 ≤ s.pg.db.failures d
  success : ∀ a ∈ s.pg.db.recent d, a.outcome = .success → s.pg.db.status? d = some .delivered
  handler : ∀ t th job, s.live? t = some th → th.kind = .failed job → Agent env th d →
    env.maxAttempts ≤ s.pg.db.failures d ∧ ∀ a ∈ s.pg.db.recent d, a.outcome ≠ .success

theorem Tally.thrown (hI : Tally env s d) (ho : Owns s t d j) (hr : Reachable env (Accounted d) s)
    (hl : Accounts d s (.settle t)) (hlive : s.live? t = some th) {err : Err}
    (hp : th.prog = .raise err) (hne : err ≠ .delayed) :
    j.attemptsMade + 1 ≤ s.pg.db.failures d ∧ ∀ a ∈ s.pg.db.recent d, a.outcome ≠ .success := by
  obtain ⟨r, D, hrow, hD, hcount, hst⟩ := ho.accounted hr hl hlive hp hne
  constructor
  · rcases hI.done t th j r D hlive ho hrow hD hcount with hdel | hle
    · cases hst.symm.trans hdel
    · exact hle
  · intro a ha hsucc
    have hdel := hI.success a ha hsucc
    rw [Db.status?_eq hD, hst] at hdel
    cases hdel

theorem Tally.read (hI : Tally env s d) (hr : Reachable env (Accounted d) s) (h : step env s l = some s')
    (hu : s'.live? u = some th') (ho : Owns s u d j) {r : DeliveryForWorker}
    (hrow : th'.facts.row = some r) (hD : s.pg.db.dossier? d = some D)
    (hcount : D.row.attemptCount = r.attemptCount + 1) :
    D.row.status = .delivered ∨ j.attemptsMade + 1 ≤ s.pg.db.failures d := by
  cases step_arises h hu with
  | @called c th e ans k w m _ hadv hth =>
    subst hth
    rcases hadv.row (reachable_ok hr) with hsame | ⟨job, hk, -, hread, -⟩
    · exact hI.done u th j r D hadv.live ho (hsame.symm.trans hrow) hD hcount
    · -- it has just read the row, and has not recorded anything
      obtain ⟨job', hk', -, hd⟩ := ho.runs hr hadv.live
      obtain rfl : job = job' := by
        rcases hk with hk | hk <;> cases hk.symm.trans hk'
        rfl
      obtain ⟨row, hdel, -, hcount'⟩ := Db.forDelivery_isSome (hread.symm.trans hrow)
      rw [hd, (Db.dossier?_eq_some.mp hD).1] at hdel
      cases hdel
      omega
  | @kept th _ hold hkept =>
    have hf : th'.facts = th.facts := congrArg WebhookEngine.facts hkept.trace
    exact hI.done u th j r D hold ho (hf ▸ hrow) hD hcount
  | fresh hlen =>
    obtain ⟨th, ht, -⟩ := reachable_owned hr j ho.job u ho.owner
    exact absurd (List.getElem?_eq_some_iff.mp ht).1 (Nat.not_lt_of_le hlen)

/-- A job that is live after its turn is covered. -/
theorem Tally.turned (hI : Tally env s d) (hr : Reachable env (Accounted d) s) (hl : Accounted d s l)
    (hj : j ∈ s.jobs) (hturn : Turns env s l j j') (hlive' : j'.live = true)
    (hd : j.deliveryId = d) : j'.attemptsMade ≤ s.pg.db.failures d := by
  cases hturn with
  | same => exact hI.job j hj hlive' hd
  | pickup hl' hst =>
    refine hI.job j hj ?_ hd
    rcases hst with hst | hst <;> simp [Job.live, hst]
  | stall hl' hst => exact hI.job j hj (by simp [Job.live, hst]) hd
  | stallFail => cases hlive'
  | parked hl' hlive hp ho =>
    have hown : Owns s _ d j := ⟨hj, ho, hd⟩
    exact hI.job j hj (hown.live (reachable_jobs hr)) hd
  | completes => cases hlive'
  | fails hl' hlive hp hne ho =>
    subst hl'
    exact (hI.thrown ⟨hj, ho, hd⟩ hr hl.2 hlive hp hne).1

/-- A handler is invoked only for what is covered: a stalled job still has attempts left. -/
theorem Tally.starts (hI : Tally env s d) (hr : Reachable env (Accounted d) s) (hl : Accounted d s l)
    {job : JobRef} (hstart : Kind.Starts s l (.failed job)) (hd : job.deliveryId = d)
    (hmax : env.maxAttempts ≤ job.attemptsMade) :
    env.maxAttempts ≤ s.pg.db.failures d ∧ ∀ a ∈ s.pg.db.recent d, a.outcome ≠ .success := by
  cases hstart with
  | @stalled id j hl' hj hst =>
    have hlive : j.live = true := by simp [Job.live, hst]
    exact absurd hmax
      (Nat.not_le_of_lt ((reachable_jobs hr).left j (Jobs.mem_of_job? hj).1 hlive))
  | @failed t th₀ job₀ j err hl' hlive hp hne hk₀ hj ho =>
    subst hl'
    obtain ⟨hle, hnone⟩ := hI.thrown ⟨(Jobs.mem_of_job? hj).1, ho, hd⟩ hr hl.2 hlive hp hne
    exact ⟨hmax.trans hle, hnone⟩
  | request hl' hs' => cases hs'

/-- **A step that leaves the delivery alone keeps the tally.** -/
theorem Tally.rest (hI : Tally env s d) (hr : Reachable env (Accounted d) s) (hl : Accounted d s l)
    (h : step env s l = some s') (hrecent : s'.pg.db.recent d = s.pg.db.recent d)
    (hstatus : ∀ a ∈ s.pg.db.recent d, s'.pg.db.status? d = s.pg.db.status? d)
    (hrow : ∀ D', s'.pg.db.dossier? d = some D' → D'.row.attemptCount = 0 ∨
      ∃ D, s.pg.db.dossier? d = some D ∧ D'.row.attemptCount = D.row.attemptCount ∧
        D'.row.status = D.row.status) : Tally env s' d := by
  have hjobs := reachable_jobs hr
  have hfailures : s'.pg.db.failures d = s.pg.db.failures d := by rw [Db.failures, hrecent]; rfl
  refine ⟨fun j' hj' hlive' hd => ?_, fun u th' j' r D' hu ho hread hD' hcount => ?_,
    fun a ha hsucc => ?_, fun u th' job hu hk ha => ?_⟩
  · rw [hfailures]
    rcases (step_turns hjobs h).back hj' with ⟨j, hj, hturn⟩ | ⟨-, -, hnew⟩
    · exact hI.turned hr hl hj hturn hlive' (hturn.id.2.symm.trans hd)
    · rw [hnew]
      exact Nat.zero_le _
  · rcases hrow D' hD' with hzero | ⟨D, hD, hcount', hst⟩
    · rw [hzero] at hcount
      cases hcount
    rw [hfailures, hst]
    rw [hcount'] at hcount
    rcases (step_turns hjobs h).back ho.job with ⟨j, hj, hturn⟩ | ⟨-, -, hnew⟩
    · rcases hturn.owner ho.owner with rfl | ⟨rfl, rfl, -⟩
      · have ho₀ : Owns s u d j' := ⟨hj, ho.owner, ho.delivery⟩
        exact hI.read hr h hu ho₀ hread hD hcount
      · -- the job has just been handed to a new execution
        cases step_arises h hu with
        | called hl' => cases hl'
        | kept _ hold hkept => exact absurd (State.live?_lt hold) (Nat.lt_irrefl _)
        | fresh hlen hstart hth =>
          subst hth
          cases hread
    · have := ho.owner
      rw [hnew] at this
      cases this
  · rw [hrecent] at ha
    exact (hstatus a ha).trans (hI.success a ha hsucc)
  · rw [hfailures, hrecent]
    rcases agent_back h hu ha with
      ⟨th, hold, hk', ha'⟩ | ⟨_, th, _, _, _, _, rfl, hadv, ⟨n, hk'⟩, -⟩ | ⟨job', hstart, hd, hmax, hk'⟩
    · exact hI.handler u th job hold (hk'.trans hk) ha'
    · rw [hadv.live?_self] at hu
      cases hu
      cases hk.symm.trans hk'
    · exact hI.starts hr hl hstart hd hmax

/-! ## COMMITs -/

theorem Db.recent_moved {db db' : Db} (hD : db.dossier? d = some D) {id : ℕ} {f g : Status}
    {reason : String} {τ τ' : Time}
    (hD' : db'.dossier? d = some (D.moved id f g reason .worker τ τ')) (hg : g ≠ .delivered)
    (hg' : g ≠ .failed) : db'.recent d = db.recent d := by
  rw [Db.recent_eq hD', Db.recent_eq hD]
  refine recentOf_append ?_ (by simp [TransitionRow.triple])
  simp [TransitionRow.isAttempt, hg, hg']

theorem Db.recent_recorded {db db' : Db} (hD : db.dossier? d = some D) {a : AttemptRow} {id : ℕ}
    {f : Status} {next : Option Time} {reason : String} {τ τ' : Time}
    (hD' : db'.dossier? d = some (D.recorded a id f a.outcome.toStatus next reason τ τ')) :
    db'.recent d = db.recent d ++ [a] := by
  rw [Db.recent_eq hD', Db.recent_eq hD]
  refine recentOf_recorded ?_ a
  by_cases h : a.outcome = .success <;> simp [TransitionRow.isAttempt, AttemptOutcome.toStatus, h]

theorem Db.recent_retried {db : Db} {id : ℕ} {reason : String} {τ τ' : Time}
    (hD : db.dossier? d = some (D.moved id .dlq .pending reason .manualRetry τ τ')) :
    db.recent d = [] := by
  rw [Db.recent_eq hD]
  exact recentOf_retried rfl

theorem handler_back {c : Choice} (h : step env s (.op t c) = some s') (hu : s'.live? u = some th')
    {job : JobRef} (hk : th'.kind = .failed job) (ha : Agent env th' d) :
    ∃ th, s.live? u = some th ∧ th.kind = .failed job ∧ Agent env th d := by
  rcases agent_back h hu ha with
    ⟨th₀, hold, hk₀, ha₀⟩ | ⟨_, th₀, _, _, _, _, hl, hadv₀, ⟨n, hk₀⟩, -⟩ | ⟨job', hstart, -⟩
  · exact ⟨th₀, hold, hk₀.trans hk, ha₀⟩
  · rw [hadv₀.live?_self] at hu
    cases hu
    cases hk.symm.trans hk₀
  · cases hstart with
    | stalled hl => cases hl
    | failed hl => cases hl
    | request hl => cases hl

section Commit

variable {c : Choice} {r : Except Err Unit} {k : Except Err Unit → Code Reply} {w : World} {m : Memory}

theorem Owns.before (hadv : Advance s s' t c th (.sql .commit) r k w m) (ho : Owns s' u d j) :
    Owns s u d j := ⟨hadv.sql_jobs ▸ ho.job, ho.owner, ho.delivery⟩

/-- A worker or a handler moves a delivery that has no recent success. -/
theorem Tally.moved (hI : Tally env s d) (hr : Reachable env (Accounted d) s)
    (h : step env s (.op t c) = some s') (hadv : Advance s s' t c th (.sql .commit) r k w m)
    (hD : s.pg.db.dossier? d = some D) {id : ℕ} {f g : Status} {reason : String} {τ τ' : Time}
    (hD' : s'.pg.db.dossier? d = some (D.moved id f g reason .worker τ τ')) (hg : g ≠ .delivered)
    (hg' : g ≠ .failed) (hnone : ∀ a ∈ s.pg.db.recent d, a.outcome ≠ .success)
    (hst : ∀ id, s.queued d id → D.row.status ≠ .delivered) : Tally env s' d := by
  have hrecent := Db.recent_moved hD hD' hg hg'
  have hfailures : s'.pg.db.failures d = s.pg.db.failures d := by rw [Db.failures, hrecent]; rfl
  refine ⟨fun j hj hlive hd => ?_, fun u th' j y D₁ hu ho hread hD₁ hcount => ?_,
    fun a ha hsucc => ?_, fun u th' job hu hk ha => ?_⟩
  · rw [hfailures]
    exact hI.job j (hadv.sql_jobs ▸ hj) hlive hd
  · cases hD'.symm.trans hD₁
    rw [hfailures]
    have ho₀ := ho.before hadv
    refine Or.inr ((hI.read hr h hu ho₀ hread hD hcount).resolve_left ?_)
    exact hst j.id (ho₀.queued (reachable_jobs hr))
  · rw [hrecent] at ha
    exact absurd hsucc (hnone a ha)
  · obtain ⟨th₀, hold, hk₀, ha₀⟩ := handler_back h hu hk ha
    rw [hfailures, hrecent]
    exact hI.handler u th₀ job hold hk₀ ha₀

/-- The owner of the live job records an attempt on a delivery that has no recent success. -/
theorem Tally.recorded (hI : Tally env s d) (hr : Reachable env (Accounted d) s)
    (h : step env s (.op t c) = some s') (hadv : Advance s s' t c th (.sql .commit) r k w m)
    (hD : s.pg.db.dossier? d = some D) {a : AttemptRow} {id : ℕ} {f : Status} {next : Option Time}
    {reason : String} {τ τ' : Time}
    (hD' : s'.pg.db.dossier? d = some (D.recorded a id f a.outcome.toStatus next reason τ τ'))
    (hnone : ∀ a ∈ s.pg.db.recent d, a.outcome ≠ .success) (ho : Owns s t d j) :
    Tally env s' d := by
  have hjobs := reachable_jobs hr
  have hrecent := Db.recent_recorded hD hD'
  have hfailures : s'.pg.db.failures d = s.pg.db.failures d +
      if a.outcome ≠ .success then 1 else 0 := by
    rw [Db.failures, hrecent, List.countP_append, List.countP_singleton]
    simp [Db.failures]
  refine ⟨fun j hj hlive hd => ?_, fun u th' j y D₁ hu ho hread hD₁ hcount => ?_,
    fun a' ha hsucc => ?_, fun u th' job hu hk ha => ?_⟩
  · rw [hfailures]
    exact (hI.job j (hadv.sql_jobs ▸ hj) hlive hd).trans (Nat.le_add_right _ _)
  · cases hD'.symm.trans hD₁
    have ho₀ := ho.before hadv
    by_cases hout : a.outcome = .success
    · exact Or.inl (by simp [Dossier.recorded, AttemptOutcome.toStatus, hout])
    · rw [hfailures, if_pos hout]
      exact Or.inr (Nat.succ_le_succ (hI.job j ho₀.job (ho₀.live hjobs) ho.delivery))
  · rw [hrecent] at ha
    rcases List.mem_append.mp ha with ha | ha
    · exact absurd hsucc (hnone a' ha)
    · obtain rfl := List.mem_singleton.mp ha
      rw [Db.status?_eq hD']
      simp [Dossier.recorded, AttemptOutcome.toStatus, hsucc]
  · -- a delivery with a live job has no handler
    obtain ⟨th₀, hold, hk₀, ha₀⟩ := handler_back h hu hk ha
    obtain ⟨-, o, hlane⟩ := reachable_lane Accounted.keepsJobs hr
    exact absurd (ho.queued hjobs) ((hlane.of_agent ⟨th₀, hold, ha₀⟩).2.2.1 _)

/-- **A COMMIT keeps the tally.** -/
theorem Tally.deed (hI : Tally env s d) (hr : Reachable env (Accounted d) s)
    (h : step env s (.op t c) = some s') (hadv : Advance s s' t c th (.sql .commit) r k w m)
    (hD : s.pg.db.dossier? d = some D) (hD' : s'.pg.db.dossier? d = some D')
    (hdeed : Deed env s d t th D D') : Tally env s' d := by
  obtain ⟨-, o, hlane⟩ := reachable_lane Accounted.keepsJobs hr
  have hview : ∀ {j : Job} {x : DeliveryForWorker}, Owns s t d j → th.facts.Working x →
      D.row.status ≠ .delivered := fun ho hw =>
    ((reachable_accounted_viewed hr t th _ D hadv.live ho hD).not_delivered (course_row _) hw).1
  have hnone : D.row.status ≠ .delivered → ∀ a ∈ s.pg.db.recent d, a.outcome ≠ .success := by
    intro hnd a ha hsucc
    have hdel := hI.success a ha hsucc
    rw [Db.status?_eq hD] at hdel
    exact hnd (Option.some.inj hdel)
  cases hdeed with
  | mark ho hw =>
    exact hI.moved hr h hadv hD hD' nofun nofun (hnone (hview ho hw)) fun _ _ => hview ho hw
  | record ho hw hn htx gen =>
    exact hI.recorded hr h hadv hD hD' (hnone (hview ho hw)) ho
  | exhaust hk ha =>
    have hq := (hlane.of_agent ⟨th, hadv.live, ha⟩).2.2.1
    exact hI.moved hr h hadv hD hD' nofun nofun (hI.handler t th _ hadv.live hk ha).2
      fun id hid => absurd hid (hq id)
  | retry hk hst =>
    obtain ⟨-, -, hq, hagent⟩ := hlane.of_dlq ((Db.status?_eq hD).trans (congrArg some hst))
    refine ⟨fun j hj hlive hd => ?_, fun u th' j y D₁ hu ho => ?_, fun a ha => ?_,
      fun u th' job hu hk ha => ?_⟩
    · exact absurd ⟨j, hadv.sql_jobs ▸ hj, hlive, rfl, hd⟩ (hq j.id)
    · exact absurd ((ho.before hadv).queued (reachable_jobs hr)) (hq j.id)
    · rw [Db.recent_retried hD'] at ha
      cases ha
    · obtain ⟨th₀, hold, hk₀, ha₀⟩ := handler_back h hu hk ha
      exact absurd ⟨th₀, hold, ha₀⟩ (hagent u)

end Commit

/-! ## Runs -/

theorem Tally.step (hI : Tally env s d) (hr : Reachable env (Accounted d) s) (hl : Accounted d s l)
    (h : step env s l = some s') : Tally env s' d := by
  have hs := reachable_ok hr
  cases hD' : s'.pg.db.dossier? d with
  | none =>
    have hD : s.pg.db.dossier? d = none := by
      by_contra hne
      obtain ⟨D, hD⟩ := Option.ne_none_iff_exists'.mp hne
      obtain ⟨D', hsome⟩ := story_isSome hs h hD
      cases hD'.symm.trans hsome
    have hrecent := Db.recent_none hs.db hD
    refine hI.rest hr hl h ?_ (by rw [hrecent]; nofun) (by rw [hD']; nofun)
    rw [hrecent, Db.recent_none (hs.step h).db hD']
  | some D' =>
    rcases story_deeds Accounted.keepsJobs hr hl.1.2 h hD' with
      hun | ⟨t, c, th, r, k, w, m, D, rfl, hadv, hD, hdeed⟩
    · cases hun with
      | same hD =>
        have hsame := hD'.trans hD.symm
        refine hI.rest hr hl h ?_ (fun _ _ => Db.status?_of_dossier? hsame) fun D₁ hD₁ => ?_
        · rw [Db.recent_eq hD', Db.recent_eq hD]
        · exact Or.inr ⟨D₁, hsame.symm.trans hD₁, rfl, rfl⟩
      | @touched D τ hD heq =>
        subst heq
        refine hI.rest hr hl h ?_ (fun _ _ => ?_) fun D₁ hD₁ => ?_
        · rw [Db.recent_eq hD', Db.recent_eq hD]
          rfl
        · rw [Db.status?_eq hD', Db.status?_eq hD]
          rfl
        · cases hD'.symm.trans hD₁
          exact Or.inr ⟨D, hD, rfl, rfl⟩
      | created hD ev ep id τ τ' heq =>
        subst heq
        have hrecent := Db.recent_none hs.db hD
        refine hI.rest hr hl h ?_ (by rw [hrecent]; nofun) fun D₁ hD₁ => ?_
        · rw [hrecent, Db.recent_eq hD']
          rfl
        · cases hD'.symm.trans hD₁
          exact Or.inl rfl
    · exact hI.deed hr h hadv hD hD' hdeed

theorem reachable_tally (h : Reachable env (Accounted d) s) : Tally env s d := by
  have hinv : Reachable env (Accounted d) s ∧ Tally env s d := by
    obtain ⟨ls, h⟩ := h
    refine h.invariant (I := fun s => Reachable env (Accounted d) s ∧ Tally env s d) ?_
      ⟨.refl _, nofun, ?_, nofun, ?_⟩
    · rintro s l s' ⟨hr, hI⟩ hl hstep
      exact ⟨hr.snoc hl hstep, hI.step hr hl hstep⟩
    · intro t th j r D ht
      simp [State.live?] at ht
    · intro t th job ht
      simp [State.live?] at ht
  exact hinv.2

/-- **What goes to DLQ is exhausted**: since its creation or its last manual retry as many attempts
failed as `BACKOFF_BASE_MS` has entries, and none was a success. -/
theorem dlq_exhausted (h : Reachable env (Accounted d) s) (hl : Accounted d s l)
    (hstep : step env s l = some s') {tr : TransitionRow} (htr : tr ∈ s'.pg.db.log d)
    (hnew : tr ∉ s.pg.db.log d) (hdlq : tr.toStatus = .dlq) :
    env.backoffBaseMs.length ≤ (s'.pg.db.recent d).countP (·.outcome ≠ .success) ∧
      ∀ a ∈ s'.pg.db.recent d, a.outcome ≠ .success := by
  have hs := reachable_ok h
  cases hD' : s'.pg.db.dossier? d with
  | none =>
    rw [Db.log_empty (hs.step hstep).db (Db.dossier?_none.mp hD')] at htr
    cases htr
  | some D' =>
    rw [← (Db.dossier?_eq_some.mp hD').2.1] at htr
    rcases story_deeds Accounted.keepsJobs h hl.1.2 hstep hD' with
      hun | ⟨t, c, th, r, k, w, m, D, rfl, hadv, hD, hdeed⟩
    · cases hun with
      | same hD => exact absurd ((Db.dossier?_eq_some.mp hD).2.1 ▸ htr) hnew
      | @touched D τ hD heq =>
        subst heq
        exact absurd ((Db.dossier?_eq_some.mp hD).2.1 ▸ htr) hnew
      | created hD ev ep id τ τ' heq =>
        subst heq
        cases List.mem_singleton.mp htr
        cases hdlq
    · rw [← (Db.dossier?_eq_some.mp hD).2.1] at hnew
      -- the new row is the one of the COMMIT
      cases hdeed with
      | mark =>
        rcases List.mem_append.mp htr with htr | htr
        · exact absurd htr hnew
        · cases List.mem_singleton.mp htr
          cases hdlq
      | @record _ _ a =>
        rcases List.mem_append.mp htr with htr | htr
        · exact absurd htr hnew
        · cases List.mem_singleton.mp htr
          have hto : a.outcome.toStatus = .dlq := hdlq
          by_cases hout : a.outcome = .success <;> simp [AttemptOutcome.toStatus, hout] at hto
      | exhaust hk ha =>
        rw [Db.recent_moved hD hD' (by simp) (by simp)]
        exact (reachable_tally h).handler t th _ hadv.live hk ha
      | retry =>
        rcases List.mem_append.mp htr with htr | htr
        · exact absurd htr hnew
        · cases List.mem_singleton.mp htr
          cases hdlq

/-- The step moves the delivery 2 to DLQ. -/
def State.exhausts (s : State) (l : Label) : Bool :=
  (step sampleEnv s l).any fun s' => (s'.pg.db.log 2).any fun tr =>
    tr ∉ s.pg.db.log 2 ∧ tr.toStatus = .dlq

theorem State.exists_of_exhausts (h : s.exhausts l = true) : ∃ s' tr, step sampleEnv s l = some s' ∧
    tr ∈ s'.pg.db.log 2 ∧ tr ∉ s.pg.db.log 2 ∧ tr.toStatus = .dlq := by
  obtain ⟨s', hstep, hany⟩ := (Option.any_eq_true _ _).mp h
  obtain ⟨tr, htr, hcond⟩ := List.any_eq_true.mp hany
  exact ⟨s', tr, hstep, htr, of_decide_eq_true hcond⟩

/-- Execution `t` picks the job up and gets the answer 500. -/
def sampleAttempt (t : Tid) : List Label :=
  .pickup (.delivery 2) :: calls t 33 { reply := .response 500 "" } ++ [.settle t]

theorem dlq_exhausted_five : ∃ s s' tr, Reachable sampleEnv (Accounted 2) s ∧
    step sampleEnv s (.op 10 {}) = some s' ∧ tr ∈ s'.pg.db.log 2 ∧ tr ∉ s.pg.db.log 2 ∧
      tr.toStatus = .dlq ∧ 5 ≤ (s'.pg.db.recent 2).countP (·.outcome ≠ .success) ∧
        ∀ a ∈ s'.pg.db.recent 2, a.outcome ≠ .success := by
  obtain ⟨s, hreach, hs⟩ := sample_run (C := Accounted 2)
    (sampleIngest ++ sampleAttempt 1 ++ sampleAttempt 3 ++ sampleAttempt 5 ++ sampleAttempt 7 ++
      sampleAttempt 9 ++ calls 10 5)
    (fun s => Accounted 2 s (.op 10 {}) ∧ s.exhausts (.op 10 {})) (by decide +kernel)
  obtain ⟨hl, hex⟩ := of_decide_eq_true hs
  obtain ⟨s', tr, hstep, htr, hnew, hdlq⟩ := State.exists_of_exhausts hex
  exact ⟨s, s', tr, hreach, hstep, htr, hnew, hdlq, dlq_exhausted hreach hl hstep htr hnew hdlq⟩

/-- Redis does not answer the first call of any of the five executions. -/
theorem dlq_not_exhausted : ¬ ∀ s s' l d tr, Reachable sampleEnv Steady s →
    step sampleEnv s l = some s' → tr ∈ s'.pg.db.log d → tr ∉ s.pg.db.log d →
      tr.toStatus = .dlq →
        sampleEnv.backoffBaseMs.length ≤ (s'.pg.db.recent d).countP (·.outcome ≠ .success) ∧
          ∀ a ∈ s'.pg.db.recent d, a.outcome ≠ .success := by
  intro h
  obtain ⟨s, hreach, hs⟩ := sample_run (C := Steady)
    (sampleIngest ++ sampleFailure 1 ++ sampleFailure 3 ++ sampleFailure 5 ++ sampleFailure 7 ++
      sampleFailure 9 ++ calls 10 5)
    (fun s => s.exhausts (.op 10 {}) ∧
      (step sampleEnv s (.op 10 {})).all fun s' => s'.pg.db.attemptsOf 2 = []) (by decide +kernel)
  obtain ⟨hex, hnone⟩ := of_decide_eq_true hs
  obtain ⟨s', tr, hstep, htr, hnew, hdlq⟩ := State.exists_of_exhausts hex
  rw [hstep] at hnone
  have hnone : s'.pg.db.attemptsOf 2 = [] := of_decide_eq_true hnone
  have hle := (h s s' (.op 10 {}) 2 tr hreach hstep htr hnew hdlq).1
  rw [Db.recent, hnone, recentOf, List.drop_nil] at hle
  exact absurd hle (by decide)

end WebhookEngine
