import WebhookEngine.Proof.Course
import WebhookEngine.Proof.References
import WebhookEngine.Proof.Turns

set_option autoImplicit false

/-!
# What the owner of a job knows

* `OwnersCommit`: a processor of the delivery commits only while it owns its job.
* `Deed`, **`story_deeds`**: who changes a delivery then: the owner of its live job, the handler of
  its exhausted job, or a manual retry from DLQ.
* `View`, **`Viewed.step`**: what the owner of a job knows of its delivery. While a job has an owner
  nobody else changes the delivery.
* `View.final`: a processor that returns leaves a delivery that is DELIVERED or has no attempts.
-/

namespace WebhookEngine

open EffectProg TransitionSystem

variable {env : Env} {C : State → Label → Prop} {s s' : State} {l : Label} {t u : Tid}
  {th th' : Thread} {d : DeliveryId} {j : Job} {D D' : Dossier}

/-- The execution is a processor of the delivery. -/
def Thread.delivers (d : DeliveryId) (th : Thread) : Bool :=
  match th.kind with
  | .deliver job => job.deliveryId = d
  | _ => false

/-- A processor of the delivery commits only while it owns its job. -/
def OwnersCommit (d : DeliveryId) (s : State) : Label → Prop
  | .op t _ => ∀ th ∈ s.live? t, th.delivers d = true → th.committing = true →
      ∀ id ∈ th.running, (s.jobs.job? id).any (·.owner = some t) = true
  | _ => True

instance (d : DeliveryId) (s : State) : (l : Label) → Decidable (OwnersCommit d s l)
  | .op t _ => inferInstanceAs (Decidable (∀ th ∈ s.live? t, _))
  | .tick _ | .settle _ | .crash _ | .extend _ | .extendReply _ | .request _ | .pickup _ | .stall _
  | .stallFail _ | .removeCompleted _ | .operatorAdd _ _ | .evict _ | .idemArrive _ | .redisLoss
  | .createEndpoint _ _ _ | .patchEndpoint _ _ _ => inferInstanceAs (Decidable True)

/-- No job of the delivery is lost or put into the queue by hand, and its processors commit only as
owners. -/
def Proper (d : DeliveryId) (s : State) (l : Label) : Prop := KeepsJobsOf d s l ∧ OwnersCommit d s l

instance (d : DeliveryId) (s : State) (l : Label) : Decidable (Proper d s l) :=
  inferInstanceAs (Decidable (_ ∧ _))

/-- Execution `t` owns the job `j` of the delivery `d`. -/
structure Owns (s : State) (t : Tid) (d : DeliveryId) (j : Job) : Prop where
  job : j ∈ s.jobs
  owner : j.owner = some t
  delivery : j.deliveryId = d

theorem Owns.live (h : Owns s t d j) (hjobs : s.jobs.Ok env) : j.live = true :=
  Job.live_of_owner hjobs (hjobs.job? h.job) h.owner

theorem Owns.queued (h : Owns s t d j) (hjobs : s.jobs.Ok env) : s.queued d j.id :=
  ⟨j, h.job, h.live hjobs, rfl, h.delivery⟩

theorem live_unique (hC : ∀ s l, C s l → KeepsJobsOf d s l) (hr : Reachable env C s) {j j' : Job}
    (hj : j ∈ s.jobs) (hj' : j' ∈ s.jobs) (hl : j.live = true) (hl' : j'.live = true)
    (hd : j.deliveryId = d) (hd' : j'.deliveryId = d) : j = j' := by
  obtain ⟨-, o, hlane⟩ := reachable_lane hC hr
  have h := hlane.of_queued ⟨j, hj, hl, rfl, hd⟩
  have h' := hlane.of_queued ⟨j', hj', hl', rfl, hd'⟩
  exact (reachable_jobs hr).eq_of_id hj hj' (Option.some.inj (h.symm.trans h'))

/-! ## Transactions -/

theorem Script.outcome_move {k : Kind} {m : Facts} {tx : List Entry} (h : Script k m tx) {g : Status}
    {gen : ℕ} (hmem : (.updateStatus d g, gen) ∈ tx) : outcomeOf tx = none := by
  cases h with
  | nil => cases hmem
  | move h reason g₁ g₂ => rfl
  | record h reason g₁ g₂ g₃ => simp at hmem
  | ingest hk c i ty p ep ev d' g' => simp at hmem
  | claim hk h =>
    obtain ⟨d', -, -, heq⟩ := h _ hmem
    cases heq

theorem Script.outcome_record {k : Kind} {m : Facts} {tx : List Entry} (h : Script k m tx)
    {a : AttemptData} {gen : ℕ} (hmem : (.insertAttempt a, gen) ∈ tx) :
    outcomeOf tx = some a.outcome := by
  cases h with
  | nil => cases hmem
  | move h reason g₁ g₂ => simp at hmem
  | @record a' f g next h reason g₁ g₂ g₃ =>
    obtain ⟨rfl, -⟩ : a = a' ∧ gen = g₁ := by simpa using hmem
    rfl
  | ingest hk c i ty p ep ev d' g' => simp at hmem
  | claim hk h =>
    obtain ⟨d', -, -, heq⟩ := h _ hmem
    cases heq

/-! ## Deeds -/

/-- **Who changes a delivery**, and how. -/
inductive Deed (env : Env) (s : State) (d : DeliveryId) (t : Tid) (th : Thread) (D : Dossier) :
    Dossier → Prop where
  | mark {j : Job} {r : DeliveryForWorker} (ho : Owns s t d j) (hw : th.facts.Working r)
      (htx : outcomeOf th.tx = none) (id : ℕ) (reason : String) (τ τ' : Time) :
      Deed env s d t th D (D.moved id r.status .delivering reason .worker τ τ')
  | record {j : Job} {r : DeliveryForWorker} {a : AttemptData} (ho : Owns s t d j)
      (hw : th.facts.Working r) (hn : a.attemptNumber = r.attemptCount + 1)
      (htx : outcomeOf th.tx = some a.outcome) (gen id : ℕ) (f : Status) (next : Option Time)
      (reason : String) (τ τ' : Time) :
      Deed env s d t th D (D.recorded ⟨a, gen⟩ id f a.outcome.toStatus next reason τ τ')
  | exhaust {job : JobRef} {r : DeliveryForWorker} (hk : th.kind = .failed job)
      (ha : Agent env th d) (id : ℕ) (reason : String) (τ τ' : Time) :
      Deed env s d t th D (D.moved id r.status .dlq reason .worker τ τ')
  | retry (hk : th.kind.retries d) (hst : D.row.status = .dlq) (id : ℕ) (reason : String)
      (τ τ' : Time) : Deed env s d t th D (D.moved id .dlq .pending reason .manualRetry τ τ')

theorem Committing.owns (h : Committing s t th) (hr : Reachable env C s) {c : Choice} {job : JobRef}
    (hl : OwnersCommit job.deliveryId s (.op t c)) (hk : th.kind = .deliver job) :
    ∃ j, Owns s t job.deliveryId j := by
  have hrun : job.id ∈ th.running := by rw [Thread.running, hk]; rfl
  have hmine : th.delivers job.deliveryId = true := by simp [Thread.delivers, hk]
  obtain ⟨j, hj, ho⟩ := (Option.any_eq_true _ _).mp
    (hl th h.live hmine (Thread.committing_iff.mpr h.prog) job.id hrun)
  obtain ⟨hmem, hid⟩ := Jobs.mem_of_job? hj
  have ho : j.owner = some t := by simpa using ho
  obtain ⟨th', ht', job', hk', -, hd⟩ := reachable_owned hr j hmem t ho
  obtain rfl : th' = th := Option.some.inj (ht'.symm.trans (State.live?_eq_some.mp h.live).1)
  obtain rfl : job' = job := by
    have := hk'.symm.trans hk
    simpa using this
  exact ⟨j, hmem, ho, hd.symm⟩

theorem Change.deed (hC : ∀ s l, C s l → KeepsJobsOf d s l) (hr : Reachable env C s)
    (h : Committing s t th) {c : Choice} (hl : OwnersCommit d s (.op t c))
    (hD : s.pg.db.dossier? d = some D)
    (hc : Change th.kind th.facts d (some D) (some D')) : Deed env s d t th D D' := by
  have hs := reachable_ok hr
  have hcall := kind_ne_call (fun s l hCl => (hC s l hCl).1) hr h.live
  obtain ⟨k, hp⟩ := h.prog
  obtain ⟨tx, htx, hscript, -⟩ := (hs.threads t th h.live).permits hp
  have hmine : th.tx = tx := by rw [Thread.tx, htx]; rfl
  have hmem : th.facts.tx.getD [] = tx := hmine
  cases hc with
  | @moved _ f g a hmv id hid gen hm reason τ τ' =>
    rw [hmem] at hm
    have hout : outcomeOf th.tx = none := hmine ▸ hscript.outcome_move hm
    generalize hkind : th.kind = kd at hmv
    cases hmv with
    | @mark job _ r hw hmoved =>
      obtain ⟨j, ho⟩ := h.owns hr hl hkind
      exact .mark ho hw hout id reason τ τ'
    | @exhaust job _ r hrow hne hmoved hsp =>
      have hinert := (reachable_lane hC hr).1
      exact .exhaust hkind (hinert.agent h hkind hmoved hsp) id reason τ τ'
    | retry hk hseen hmoved hsp =>
      have hst := ((hs.threads t th h.live).seen d .dlq (hkind ▸ hk) hseen (h.open_ hs)).2
      rw [Db.status?_eq hD] at hst
      exact .retry (hkind ▸ hk) (Option.some.inj hst) id reason τ τ'
    | call => exact absurd hkind (hcall _)
  | @recorded _ a f g next hrec ha hnew id hid gen hm reason τ τ' =>
    rw [hmem] at hm
    have hout : outcomeOf th.tx = some a.outcome := hmine ▸ hscript.outcome_record hm
    obtain rfl := hrec.to hcall
    obtain ⟨job, r, hk, hd, hw, hn⟩ := hrec.number hcall
    obtain rfl := hd.trans ha
    obtain ⟨j, ho⟩ := h.owns hr hl hk
    exact .record ho hw hn hout gen id f next reason τ τ'

/-- The delivery was not changed, or has just been created. -/
inductive Untouched (s : State) (d : DeliveryId) (D' : Dossier) : Prop where
  | same (h : s.pg.db.dossier? d = some D')
  | touched {D : Dossier} (τ : Time) (h : s.pg.db.dossier? d = some D) (hD' : D' = D.touched τ)
  | created (h : s.pg.db.dossier? d = none) (ev ep id : ℕ) (τ τ' : Time)
      (hD' : D' = .created d ev ep id τ τ')

/-- **What a step makes of a delivery.** -/
theorem story_deeds (hC : ∀ s l, C s l → KeepsJobsOf d s l) (hr : Reachable env C s)
    (hl : OwnersCommit d s l) (h : step env s l = some s') (hD' : s'.pg.db.dossier? d = some D') :
    Untouched s d D' ∨ ∃ t c th r k w m D, l = .op t c ∧
      Advance s s' t c th (.sql .commit) r k w m ∧ s.pg.db.dossier? d = some D ∧
        Deed env s d t th D D' := by
  rcases story (reachable_ok hr) h d with h' | ⟨D, τ, hD, h'⟩ | ⟨t, c, th, r, k, w, m, rfl, hadv, hc⟩
  · exact Or.inl (.same (h'.symm.trans hD'))
  · rw [hD'] at h'
    cases h'
    exact Or.inl (.touched τ hD rfl)
  · rw [hD'] at hc
    cases hD : s.pg.db.dossier? d with
    | none =>
      rw [hD] at hc
      cases hc
      exact Or.inl (.created hD _ _ _ _ _ rfl)
    | some D =>
      rw [hD] at hc
      exact Or.inr ⟨t, c, th, r, k, w, m, D, rfl, hadv, rfl, hc.deed hC hr hadv.committing hl hD⟩

/-- **While a job is live only its owner changes the delivery.** -/
theorem Deed.by_owner (hC : ∀ s l, C s l → KeepsJobsOf d s l) (hr : Reachable env C s)
    (hlive : s.live? t = some th) (hD : s.pg.db.dossier? d = some D) (h : Deed env s d t th D D')
    (hj : j ∈ s.jobs) (hjl : j.live = true) (hd : j.deliveryId = d) : j.owner = some t := by
  obtain ⟨-, o, hlane⟩ := reachable_lane hC hr
  have hq : s.queued d j.id := ⟨j, hj, hjl, rfl, hd⟩
  have howner : ∀ j₀, Owns s t d j₀ → j.owner = some t := by
    intro j₀ ho
    rw [live_unique hC hr hj ho.job hjl (ho.live (reachable_jobs hr)) hd ho.delivery]
    exact ho.owner
  cases h with
  | mark ho => exact howner _ ho
  | record ho => exact howner _ ho
  | exhaust hk ha => exact absurd hq ((hlane.of_agent ⟨th, hlive, ha⟩).2.2.1 j.id)
  | retry hk hst =>
    have hst : s.pg.db.status? d = some .dlq := (Db.status?_eq hD).trans (congrArg some hst)
    exact absurd hq ((hlane.of_dlq hst).2.2.1 j.id)

/-! ## Views -/

theorem course_row (tr : List Event) :
    (facts tr).row.map (·.status) = (course tr).row.join := by
  induction tr with
  | nil => rfl
  | cons ev tr ih =>
    obtain ⟨e, r⟩ := ev
    cases e with
    | sql q =>
      cases q with
      | selectForDelivery d =>
        cases r with
        | error x => exact ih
        | ok row => rfl
      | write st =>
        match r with
        | .error x => cases st <;> exact ih
        | .ok none => cases st <;> exact ih
        | .ok (some g) => cases st <;> exact ih
      | _ => cases r <;> exact ih
    | redis c =>
      cases c with
      | setLock d token ttl => cases r <;> exact ih
      | _ => exact ih
    | queueAdd id d => cases r <;> exact ih
    | _ => exact ih

/-- The course has saved an attempt in its last COMMIT at most. -/
theorem Course.next_saved (m : Course) (e : Eff) (r : e.Resp) :
    (m.next e r).saved = m.saved ∨
      (∃ x, (⟨e, r⟩ : Event) = ⟨.sql .commit, Except.ok x⟩ ∧ (m.next e r).saved = m.wrote) := by
  cases e with
  | sql q =>
    cases q with
    | commit =>
      cases r with
      | error x => exact Or.inl rfl
      | ok x => exact Or.inr ⟨x, rfl, rfl⟩
    | write st =>
      match r with
      | .error x => cases st <;> exact Or.inl rfl
      | .ok none => cases st <;> exact Or.inl rfl
      | .ok (some g) => cases st <;> exact Or.inl rfl
    | _ => cases r <;> exact Or.inl rfl
  | _ => exact Or.inl rfl

/-- **What the owner of a job knows** of its delivery: it has not read it, there was none to read, the
delivery is as it was read or marked, or its attempt was recorded. -/
inductive View (m : Facts) (c : Course) (D : Dossier) : Prop where
  | unread (h : c.row = none)
  | missing (h : c.row = some none) (count : D.row.attemptCount = 0)
  | read {r : DeliveryForWorker} (hrow : m.row = some r) (saved : c.saved = none)
      (count : D.row.attemptCount = r.attemptCount)
      (status : D.row.status = r.status ∨
        r.status.terminal = false ∧ D.row.status = .delivering)
  | done {r : DeliveryForWorker} {a : AttemptRow} (hrow : m.row = some r)
      (open_ : r.status.terminal = false) (spent : m.spent = true)
      (count : D.row.attemptCount = r.attemptCount + 1) (ha : a ∈ D.attempts)
      (hn : a.attemptNumber = r.attemptCount + 1) (status : D.row.status = a.outcome.toStatus)
      (saved : ∀ o, c.saved = some o → o = a.outcome)

theorem View.congr {m m' : Facts} {c c' : Course} (h : View m c D) (hrow : m'.row = m.row)
    (hspent : m.spent = true → m'.spent = true) (hc : c'.row = c.row)
    (hsaved : ∀ o, c'.saved = some o → c.saved = some o) : View m' c' D := by
  cases h with
  | unread h => exact .unread (hc.trans h)
  | missing h count => exact .missing (hc.trans h) count
  | read hr saved count status =>
    refine .read (hrow.trans hr) (Option.eq_none_iff_forall_ne_some.mpr fun o ho => ?_) count status
    cases saved.symm.trans (hsaved o ho)
  | done hr open_ spent count ha hn status saved =>
    exact .done (hrow.trans hr) open_ (hspent spent) count ha hn status fun o ho =>
      saved o (hsaved o ho)

theorem View.touched {m : Facts} {c : Course} (h : View m c D) (τ : Time) :
    View m c (D.touched τ) := by
  cases h with
  | unread h => exact .unread h
  | missing h count => exact .missing h count
  | read hr saved count status => exact .read hr saved count status
  | done hr open_ spent count ha hn status saved =>
    exact .done hr open_ spent count ha hn status saved

theorem View.not_delivered {m : Facts} {c : Course} (h : View m c D)
    (hc : m.row.map (·.status) = c.row.join)
    {r : DeliveryForWorker} (hw : m.Working r) :
    D.row.status ≠ .delivered ∧ D.row.attemptCount = r.attemptCount ∧ c.saved = none := by
  rw [hw.row] at hc
  cases h with
  | unread h => simp [h] at hc
  | missing h => simp [h] at hc
  | @read r' hrow saved count status =>
    obtain rfl : r = r' := Option.some.inj (hw.row.symm.trans hrow)
    refine ⟨?_, count, saved⟩
    have hopen := hw.open_
    rcases status with hst | ⟨-, hst⟩
    · rw [hst]
      intro hdel
      rw [hdel] at hopen
      cases hopen
    · rw [hst]
      nofun
  | done hrow open_ spent => exact absurd (hw.unspent.symm.trans spent) Bool.false_ne_true

theorem View.of_new {m : Facts} {c : Course} (hrow : m.row = none)
    (hc : m.row.map (·.status) = c.row.join) (count : D.row.attemptCount = 0) : View m c D := by
  rw [hrow] at hc
  match hcr : c.row, hc with
  | none, _ => exact .unread hcr
  | some none, _ => exact .missing hcr count

/-! ## Saved attempts -/

theorem Script.of_outcome {k : Kind} {m : Facts} {tx : List Entry} (h : Script k m tx)
    {o : AttemptOutcome} (ho : outcomeOf tx = some o) :
    ∃ a f g next, Records k m a f g next := by
  cases h with
  | nil => cases ho
  | move h reason g₁ g₂ => cases ho
  | record h reason g₁ g₂ g₃ => exact ⟨_, _, _, _, h⟩
  | ingest hk c i ty p ep ev d' g' => cases ho
  | claim hk h =>
    obtain ⟨e, he, heo⟩ := List.exists_of_findSome?_eq_some ho
    obtain ⟨d', -, -, heq⟩ := h e he
    rw [heq] at heo
    cases heo

theorem txHas_of_outcome {m : Facts} {o : AttemptOutcome} (h : outcomeOf (m.tx.getD []) = some o) :
    m.txHas Stmt.isRecord = true := by
  obtain ⟨e, he, heo⟩ := List.exists_of_findSome?_eq_some h
  refine Facts.txHas_of_mem he ?_
  obtain ⟨st, g⟩ := e
  cases st <;> first | rfl | cases heo

theorem Records.row {job : JobRef} {m : Facts} {a : AttemptData} {f g : Status}
    {next : Option Time} (h : Records (.deliver job) m a f g next) :
    m.row.isSome ∧ a.deliveryId = job.deliveryId := by
  cases h with
  | circuit h hm hd => exact ⟨by rw [h.row]; rfl, hd⟩
  | outcome h hm hd => exact ⟨by rw [h.row]; rfl, hd⟩

theorem lawful_saved {job : JobRef} {tr : List Event} (h : Lawful t (.deliver job) tr)
    (hs : (course tr).saved.isSome) : (facts tr).row.isSome := by
  induction h with
  | nil => cases hs
  | @cons tr h e hp r ih =>
    have hrow : (facts tr).row.isSome → ((facts tr).next e r).row.isSome := by
      intro hsome
      by_cases he : ∃ q, e = .sql q
      · obtain ⟨q, rfl⟩ := he
        rcases @Facts.nextSql_row (facts tr) q r with hsame | ⟨d, row, rfl, -, -⟩
        · rw [show ((facts tr).next (.sql q) r).row = (facts tr).row from hsame]
          exact hsome
        · obtain ⟨-, -, -, hnone, -⟩ := hp
          rw [hnone] at hsome
          cases hsome
      · rw [(Facts.next_of_not_sql (fun q hq => he ⟨q, hq⟩) r).2.1]
        exact hsome
    refine hrow ?_
    rcases (course tr).next_saved e r with hsame | ⟨x, hev, hnew⟩
    · exact ih (hsame ▸ hs)
    · cases hev
      obtain ⟨tx, htx, hscript, -⟩ := hp
      have hw := lawful_wrote h (by rw [htx]; rfl)
      rw [htx] at hw
      have hs : ((course tr).next (.sql .commit) (Except.ok x)).saved.isSome := hs
      rw [hnew, hw] at hs
      obtain ⟨o, ho⟩ := Option.isSome_iff_exists.mp hs
      obtain ⟨a, f, g, next, hrec⟩ := hscript.of_outcome ho
      exact hrec.row.1

theorem Advance.outcome_none {c : Choice} {x : Unit} {k : Except Err Unit → Code Reply} {w : World}
    {m : Memory} (h : Advance s s' t c th (.sql .commit) (.ok x) k w m) (hs : s.Ok) {job : JobRef}
    (hk : th.kind = .deliver job) (hD : s.pg.db.dossier? job.deliveryId = some D)
    (hD' : s'.pg.db.dossier? job.deliveryId = some D')
    (hcount : D'.row.attemptCount = D.row.attemptCount) : outcomeOf th.tx = none := by
  have hc := h.committed hs
  rw [hk] at hc
  generalize th.tx = tx at hc
  generalize s'.pg.db = db' at hc hD'
  cases hc with
  | nil => rfl
  | move => rfl
  | @record a f g next hrec reason g₁ g₂ id τ₁ τ τ' =>
    rw [Db.dossier?_record, hrec.row.2, if_pos rfl, hD] at hD'
    cases hD'
    exact absurd hcount (Nat.succ_ne_self _)
  | ingest hk' => rcases hk' with ⟨_, hk'⟩ | ⟨_, hk'⟩ <;> cases hk'
  | claim hk' => rcases hk' with hk' | ⟨_, hk'⟩ <;> cases hk'

/-! ## One step -/

/-- The owners of jobs know the delivery. -/
def Viewed (d : DeliveryId) (s : State) : Prop :=
  ∀ t th j D, s.live? t = some th → Owns s t d j → s.pg.db.dossier? d = some D →
    View th.facts th.course D

theorem Owns.runs (h : Owns s t d j) (hr : Reachable env C s) (hlive : s.live? t = some th) :
    ∃ job : JobRef, th.kind = .deliver job ∧ job.id = j.id ∧ job.deliveryId = d := by
  obtain ⟨th', ht', job, hk, hid, hd⟩ := reachable_owned hr j h.job t h.owner
  obtain rfl : th' = th := Option.some.inj (ht'.symm.trans (State.live?_eq_some.mp hlive).1)
  exact ⟨job, hk, hid, hd.trans h.delivery⟩

theorem row_none (hs : s.Ok) (hlive : s.live? t = some th) {job : JobRef}
    (hk : th.kind = .deliver job) (hD : s.pg.db.dossier? job.deliveryId = none) :
    th.facts.row = none := by
  by_contra hne
  have hsome := (hs.threads t th hlive).knows job.deliveryId
    (.row (Or.inl hk) rfl (Option.isSome_iff_ne_none.mpr hne))
  rw [Db.dossier?_none.mp hD] at hsome
  cases hsome

theorem Viewed.untouched (hI : Viewed d s) (hr : Reachable env C s) (hlive : s.live? t = some th)
    (ho : Owns s t d j) (h : Untouched s d D') : View th.facts th.course D' := by
  cases h with
  | same h => exact hI t th j D' hlive ho h
  | touched τ h hD' =>
    subst hD'
    exact (hI t th j _ hlive ho h).touched τ
  | created h ev ep id τ τ' hD' =>
    subst hD'
    obtain ⟨job, hk, -, rfl⟩ := ho.runs hr hlive
    exact .of_new (row_none (reachable_ok hr) hlive hk h) (course_row _) rfl

theorem Viewed.committed (hI : Viewed d s) (hC : ∀ s l, C s l → KeepsJobsOf d s l)
    (hr : Reachable env C s) {c : Choice} (hl : OwnersCommit d s (.op t c))
    (hstep : step env s (.op t c) = some s') {r : Except Err Unit} {k : Except Err Unit → Code Reply}
    {w : World} {m : Memory} (hadv : Advance s s' t c th (.sql .commit) r k w m)
    (ho : Owns s t d j) (hD' : s'.pg.db.dossier? d = some D') :
    View (th.facts.next (.sql .commit) r) (th.course.next (.sql .commit) r) D' := by
  have hs := reachable_ok hr
  obtain ⟨job, hk, -, rfl⟩ := ho.runs hr hadv.live
  have hrow : (th.facts.nextSql .commit r).row = th.facts.row := (Facts.nextSql_commit _ r).2.1
  have hspent : th.facts.spent = true → (th.facts.nextSql .commit r).spent = true :=
    fun h => Facts.next_spent (e := .sql .commit) r h
  have hcr : (th.course.next (.sql .commit) r).row = th.course.row := by cases r <;> rfl
  have hlaw := reachable_lawfulTrace hr t th hadv.live
  obtain ⟨tx, htx, -⟩ := (hs.threads t th hadv.live).permits hadv.prog
  have hwrote : th.course.wrote = outcomeOf th.tx := lawful_wrote hlaw (by rw [← Thread.facts, htx]; rfl)
  -- what is saved is what the transaction records
  have hsaved : ∀ o, (th.course.next (.sql .commit) r).saved = some o →
      th.course.saved = some o ∨ outcomeOf th.tx = some o := by
    intro o ho
    cases r with
    | error x => exact Or.inl ho
    | ok x => exact Or.inr (hwrote.symm.trans ho)
  rcases story_deeds hC hr hl hstep hD' with
    hun | ⟨t', c', th', r', k', w', m', D, hl', hadv', hD, hdeed⟩
  · have hkeep : outcomeOf th.tx = none → ∀ o,
        (th.course.next (.sql .commit) r).saved = some o → th.course.saved = some o := by
      intro hnone o ho
      rcases hsaved o ho with ho | ho
      · exact ho
      · cases hnone.symm.trans ho
    have hcongr : (∀ o, (th.course.next (.sql .commit) r).saved = some o →
        th.course.saved = some o) → View (th.facts.next (.sql .commit) r)
          (th.course.next (.sql .commit) r) D' :=
      fun h => (hI.untouched hr hadv.live ho hun).congr hrow hspent hcr h
    cases r with
    | error x => exact hcongr fun o ho => ho
    | ok x =>
      cases hun with
      | same hD => exact hcongr (hkeep (hadv.outcome_none hs hk hD hD' rfl))
      | touched τ hD heq =>
        subst heq
        exact hcongr (hkeep (hadv.outcome_none hs hk hD hD' rfl))
      | created hD ev ep id τ τ' heq =>
        subst heq
        refine .of_new (hrow.trans (row_none hs hadv.live hk hD)) ?_ rfl
        exact course_row (⟨.sql .commit, Except.ok x⟩ :: th.trace)
  · cases hl'
    obtain rfl : th' = th := Option.some.inj (hadv'.live.symm.trans hadv.live)
    have hview := hI t th' j D hadv.live ho hD
    cases hdeed with
    | @mark _ x _ hw hout id reason τ τ' =>
      obtain ⟨-, hcount, hnone⟩ := hview.not_delivered (course_row _) hw
      refine .read (hrow.trans hw.row) (Option.eq_none_iff_forall_ne_some.mpr fun o ho => ?_) hcount
        (Or.inr ⟨hw.open_, rfl⟩)
      rcases hsaved o ho with ho | ho
      · cases hnone.symm.trans ho
      · cases hout.symm.trans ho
    | @record _ x a _ hw hn hout gen id f next reason τ τ' =>
      obtain ⟨-, hcount, hnone⟩ := hview.not_delivered (course_row _) hw
      refine .done (a := ⟨a, gen⟩) (hrow.trans hw.row) hw.open_ ?_ (congrArg Nat.succ hcount)
        (List.mem_append_right _ (List.mem_singleton_self _)) hn rfl fun o ho => ?_
      · exact Facts.nextSql_commit_spent r (txHas_of_outcome hout)
      · rcases hsaved o ho with ho | ho
        · cases hnone.symm.trans ho
        · exact Option.some.inj (ho.symm.trans hout)
    | exhaust hk' => cases hk.symm.trans hk'
    | retry hk' => rcases hk' with ⟨n, hk'⟩ | hk' <;> cases hk.symm.trans hk'

theorem Advance.reads {c : Choice} {row : Option DeliveryForWorker}
    {k : Except Err (Option DeliveryForWorker) → Code Reply} {w : World} {m : Memory}
    (h : Advance s s' t c th (.sql (.selectForDelivery d)) (.ok row) k w m) (hs : s.Ok) :
    row = s.pg.db.forDelivery d ∧ s'.pg = s.pg ∧ th.facts.row = none ∧
      ((∃ job : JobRef, th.kind = .deliver job ∧ d = job.deliveryId) ∨
        ∃ job, th.kind = .failed job) := by
  have hok := hs.threads t th h.live
  obtain ⟨htx, -, -, hnone, hkind⟩ := hok.permits h.prog
  obtain ⟨hpg, hans⟩ := perform_selectForDelivery h.done
  rw [hok.view_eq (Or.inr htx)] at hans
  refine ⟨(Fault.answer_ok hans.symm).2, by rw [h.world, hpg], hnone, ?_⟩
  rcases hkind with ⟨job, hk, hd, -⟩ | ⟨job, hk, -⟩
  · exact Or.inl ⟨job, hk, hd⟩
  · exact Or.inr ⟨job, hk⟩

theorem Course.next_row {m : Course} {e : Eff} (r : e.Resp)
    (he : ∀ d, e ≠ .sql (.selectForDelivery d)) : (m.next e r).row = m.row := by
  cases e with
  | sql q =>
    cases q with
    | selectForDelivery d => exact absurd rfl (he d)
    | write st =>
      match r with
      | .error x => cases st <;> rfl
      | .ok none => cases st <;> rfl
      | .ok (some g) => cases st <;> rfl
    | _ => cases r <;> rfl
  | _ => rfl

theorem Viewed.called (hI : Viewed d s) (hr : Reachable env C s) {c : Choice} {e : Eff} {r : e.Resp}
    {k : e.Resp → Code Reply} {w : World} {m : Memory} (hadv : Advance s s' t c th e r k w m)
    (he : e ≠ .sql .commit) (ho : Owns s t d j) (hun : Untouched s d D')
    (hD' : s'.pg.db.dossier? d = some D') :
    View (th.facts.next e r) (th.course.next e r) D' := by
  have hs := reachable_ok hr
  have hold := hI.untouched hr hadv.live ho hun
  have hsaved : (th.course.next e r).saved = th.course.saved := by
    rcases th.course.next_saved e r with h | ⟨x, hev, -⟩
    · exact h
    · cases hev
      exact absurd rfl he
  by_cases hread : ∀ x, e ≠ .sql (.selectForDelivery x)
  · refine hold.congr (Facts.next_row r hread) (Facts.next_spent r) (Course.next_row r hread)
      fun o ho => hsaved.symm.trans ho
  · obtain ⟨x, rfl⟩ : ∃ x, e = .sql (.selectForDelivery x) := by simpa using hread
    match r with
    | .error y => exact hold.congr rfl id rfl fun o ho => ho
    | .ok row =>
      obtain ⟨hrow, hpg, hnone, hkind⟩ := hadv.reads hs
      obtain ⟨job, hk, -, rfl⟩ := ho.runs hr hadv.live
      obtain rfl : x = job.deliveryId := by
        rcases hkind with ⟨job', hk', rfl⟩ | ⟨job', hk'⟩ <;> cases hk.symm.trans hk'
        rfl
      rw [hpg] at hD'
      obtain ⟨hdel, -, -⟩ := Db.dossier?_eq_some.mp hD'
      cases hrow' : row with
      | none =>
        rw [hrow'] at hrow
        rw [forDelivery_none hr hrow.symm] at hdel
        cases hdel
      | some x =>
        rw [hrow'] at hrow
        obtain ⟨row', hdel', hst, hcount⟩ := Db.forDelivery_isSome hrow.symm
        rw [hdel] at hdel'
        cases hdel'
        refine .read rfl ?_ hcount.symm (Or.inl hst.symm)
        refine Option.eq_none_iff_forall_ne_some.mpr fun o ho => ?_
        have hlaw := reachable_lawfulTrace hr t th hadv.live
        rw [hk] at hlaw
        have ho : th.course.saved = some o := ho
        have hsome := lawful_saved hlaw (by rw [← Thread.course, ho]; rfl)
        rw [← Thread.facts, hnone] at hsome
        cases hsome

/-- **Every step keeps what owners know.** -/
theorem Viewed.step (hI : Viewed d s) (hC : ∀ s l, C s l → KeepsJobsOf d s l) (hr : Reachable env C s)
    (hl : OwnersCommit d s l) (h : step env s l = some s') : Viewed d s' := by
  intro u th' j' D' hu ho hD'
  rcases (step_turns (reachable_jobs hr) h).back ho.job with ⟨j, hj, hturn⟩ | ⟨-, -, hnew⟩
  · rcases hturn.owner ho.owner with rfl | ⟨rfl, rfl, -⟩
    · have ho₀ : Owns s u d j' := ⟨hj, ho.owner, ho.delivery⟩
      have hlive := ho₀.live (reachable_jobs hr)
      have hun : (∀ c, l ≠ .op u c) → Untouched s d D' := by
        intro hop
        rcases story_deeds hC hr hl h hD' with hun | ⟨t, c, th, _, _, _, _, D, rfl, hadv, hD, hdeed⟩
        · exact hun
        · have hown := hdeed.by_owner hC hr hadv.live hD hj hlive ho.delivery
          rw [ho.owner] at hown
          cases hown
          exact absurd rfl (hop c)
      cases step_arises h hu with
      | @called c th e r k w m hl' hadv hth =>
        subst hl' hth
        by_cases he : e = .sql .commit
        · subst he
          exact hI.committed hC hr hl h hadv ho₀ hD'
        · refine hI.called hr hadv he ho₀ ?_ hD'
          rcases story_deeds hC hr hl h hD' with hun | ⟨_, _, _, _, _, _, _, _, hl', hadv', -, -⟩
          · exact hun
          · cases hl'
            obtain rfl := Option.some.inj (hadv'.live.symm.trans hadv.live)
            cases hadv'.prog.symm.trans hadv.prog
            exact absurd rfl he
      | @kept th hop hold hkept =>
        have hf : th'.facts = th.facts := congrArg WebhookEngine.facts hkept.trace
        have hc : th'.course = th.course := congrArg WebhookEngine.course hkept.trace
        rw [hf, hc]
        exact hI.untouched hr hold ho₀ (hun hop)
      | fresh hlen hstart hth =>
        subst hth
        exact .unread rfl
    · -- the job has just been handed to a new execution
      cases step_arises h hu with
      | called hl' => cases hl'
      | kept _ hold hkept => exact absurd (State.live?_lt hold) (Nat.lt_irrefl _)
      | fresh hlen hstart hth =>
        subst hth
        exact .unread rfl
  · have := ho.owner
    rw [hnew] at this
    cases this

theorem reachable_viewed (hC : ∀ s l, C s l → KeepsJobsOf d s l)
    (hO : ∀ s l, Reachable env C s → C s l → OwnersCommit d s l) (h : Reachable env C s) :
    Viewed d s := by
  have hinv : Reachable env C s ∧ Viewed d s := by
    obtain ⟨ls, h⟩ := h
    refine h.invariant (I := fun s => Reachable env C s ∧ Viewed d s) ?_ ⟨.refl _, fun t th j D h => ?_⟩
    · rintro s l s' ⟨hr, hI⟩ hl hstep
      exact ⟨hr.snoc hl hstep, hI.step hC hr (hO s l hr hl) hstep⟩
    · simp [State.live?] at h
  exact hinv.2

/-- **A processor that returns** leaves a delivery that is DELIVERED, or that nobody has attempted. -/
theorem View.final {m : Facts} {c : Course} (h : View m c D) (hc : m.row.map (·.status) = c.row.join)
    (hsaved : c.saved.isSome → m.row.isSome) (hf : c.Final) (hdlq : D.row.status ≠ .dlq) :
    D.row.status = .delivered ∨ D.row.attemptCount = 0 := by
  rcases hf with hnone | ⟨st, hst, hterm⟩ | hsucc
  · rw [hnone] at hc
    have hrow : m.row = none := Option.map_eq_none_iff.mp hc
    cases h with
    | unread h => cases hnone.symm.trans h
    | missing h count => exact Or.inr count
    | read hr => cases hrow.symm.trans hr
    | done hr => cases hrow.symm.trans hr
  · rw [hst] at hc
    obtain ⟨r, hrow, hr⟩ := Option.map_eq_some_iff.mp hc
    subst hr
    cases h with
    | unread h => cases hst.symm.trans h
    | missing h count => exact Or.inr count
    | read hr saved count status =>
      cases hrow.symm.trans hr
      rcases status with hs | ⟨hopen, -⟩
      · rw [hs] at hdlq ⊢
        refine Or.inl ?_
        revert hterm hdlq
        cases r.status <;> simp [Status.terminal]
      · rw [hopen] at hterm
        cases hterm
    | done hr open_ =>
      cases hrow.symm.trans hr
      rw [open_] at hterm
      cases hterm
  · have hsome := hsaved (by rw [hsucc]; rfl)
    cases h with
    | unread h =>
      rw [h] at hc
      rw [Option.map_eq_none_iff.mp hc] at hsome
      cases hsome
    | missing h count => exact Or.inr count
    | read hr saved => cases hsucc.symm.trans saved
    | done hr open_ spent count ha hn status saved =>
      rw [status, ← saved _ hsucc]
      exact Or.inl rfl

end WebhookEngine
