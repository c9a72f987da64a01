import WebhookEngine.Proof.Requests
import WebhookEngine.Proof.Queue

set_option autoImplicit false

/-!
# Who may change a delivery

`from_status` is passed in from an earlier read. It is still true when it is written because at any
time only one execution can change the status of a delivery. Without loss of Redis and of locks a
delivery is in one of two phases:

* `active`: all its live jobs and all its processors are of one job id, its status is not DLQ, and
  neither an exhaustion handler nor a manual retry is under way;
* `idle`: its original job has failed and is kept, no job is live, no processor runs, and at most
  one `Agent` is at work, a handler that has not written yet or a retry that has not added its job.

`Lane` is what is left of the phases when processors that lost their job may still run: the job id that
may be live. **`Lane.step`** says how a step changes it.

`Orderly` is what BullMQ is trusted with: a job fails for good only when no other worker runs it.
**`Phase.step`** says that every step keeps the phases.
-/

namespace WebhookEngine

open EffectProg TransitionSystem

variable {env : Env} {s s' : State} {l : Label} {t u : Tid} {th th' : Thread} {d : DeliveryId}

/-- No job is lost or put into the queue by hand, and a job fails for good only when no other worker
is still running it. -/
def Orderly (env : Env) (s : State) : Label → Prop
  | .redisLoss => False
  | .operatorAdd _ _ => False
  | .settle t => ∀ id ∈ s.exhausting env t, ∀ u < s.threads.length, u ≠ t →
      (s.live? u).bind Thread.running ≠ some id
  | _ => True

instance (env : Env) (s : State) : (l : Label) → Decidable (Orderly env s l)
  | .redisLoss => inferInstanceAs (Decidable False)
  | .operatorAdd _ _ => inferInstanceAs (Decidable False)
  | .settle t => inferInstanceAs (Decidable (∀ id ∈ s.exhausting env t, ∀ u < s.threads.length,
      u ≠ t → (s.live? u).bind Thread.running ≠ some id))
  | .tick _ | .op _ _ | .crash _ | .extend _ | .extendReply _ | .request _ | .pickup _ | .stall _
  | .stallFail _ | .removeCompleted _ | .evict _ | .idemArrive _
  | .createEndpoint _ _ _ | .patchEndpoint _ _ _ => inferInstanceAs (Decidable True)

/-- The engine alone, without loss of locks and jobs. -/
def Undisturbed (env : Env) (s : State) (l : Label) : Prop := Locked s l ∧ Orderly env s l

instance (env : Env) (s : State) (l : Label) : Decidable (Undisturbed env s l) :=
  inferInstanceAs (Decidable (_ ∧ _))

theorem Undisturbed.noCalls (s : State) (l : Label) (h : Undisturbed env s l) : NoCalls s l := h.1.1

/-! ## Phases -/

/-- The execution is about to decide over a delivery without a job: the handler of its exhausted job
before its write, or a manual retry between its COMMIT and its `add`. -/
structure Agent (env : Env) (th : Thread) (d : DeliveryId) : Prop where
  unspent : th.facts.spent = false
  role : (∃ job : JobRef, th.kind = .failed job ∧ job.deliveryId = d ∧
      env.maxAttempts ≤ job.attemptsMade ∧ th.facts.moved = false) ∨
    th.kind.requestsRetry d ∧ th.facts.moved = true ∧ th.facts.added = []

/-- An agent of the delivery is alive under the number `t`. -/
def State.hasAgent (env : Env) (s : State) (d : DeliveryId) (t : Tid) : Prop :=
  ∃ th, s.live? t = some th ∧ Agent env th d

/-- The original job of the delivery has failed and is kept. -/
def State.retained (s : State) (d : DeliveryId) : Prop :=
  ∃ j ∈ s.jobs, j.id = .delivery d ∧ j.state = .failed

/-- A job of this id is live for the delivery. -/
def State.queued (s : State) (d : DeliveryId) (id : JobId) : Prop :=
  ∃ j ∈ s.jobs, j.live = true ∧ j.id = id ∧ j.deliveryId = d

/-- A processor runs the job of this id for the delivery. -/
def State.processed (s : State) (d : DeliveryId) (id : JobId) : Prop :=
  ∃ t th job, s.live? t = some th ∧ th.kind = .deliver job ∧ job.id = id ∧ job.deliveryId = d

/-- **The phases of a delivery.** -/
inductive Phase (env : Env) (s : State) (d : DeliveryId) : Prop where
  | active (jid : JobId) (orig : jid = .delivery d ∨ s.retained d)
      (queued : ∀ id, s.queued d id → id = jid) (processed : ∀ id, s.processed d id → id = jid)
      (agents : ∀ t, ¬ s.hasAgent env d t) (status : s.pg.db.status? d ≠ some .dlq)
  | idle (orig : s.retained d) (queued : ∀ id, ¬ s.queued d id)
      (processed : ∀ id, ¬ s.processed d id)
      (agents : ∀ t u, s.hasAgent env d t → s.hasAgent env d u → t = u)
      (status : ∀ t, s.hasAgent env d t → s.pg.db.status? d ≠ some .dlq)

/-- The phases as far as the queue goes: the job id that may be live, if any. Processors of other
jobs may still run. -/
inductive Lane (env : Env) (s : State) (d : DeliveryId) : Option JobId → Prop where
  | active (jid : JobId) (orig : jid = .delivery d ∨ s.retained d)
      (queued : ∀ id, s.queued d id → id = jid) (agents : ∀ t, ¬ s.hasAgent env d t)
      (status : s.pg.db.status? d ≠ some .dlq) : Lane env s d (some jid)
  | idle (orig : s.retained d) (queued : ∀ id, ¬ s.queued d id)
      (agents : ∀ t u, s.hasAgent env d t → s.hasAgent env d u → t = u)
      (status : ∀ t, s.hasAgent env d t → s.pg.db.status? d ≠ some .dlq) : Lane env s d none

/-- A phase is a lane with all processors in it. -/
theorem phase_iff : Phase env s d ↔
    ∃ o, Lane env s d o ∧ ∀ id, s.processed d id → o = some id := by
  constructor
  · intro h
    cases h with
    | active jid orig queued processed agents status =>
      exact ⟨some jid, .active jid orig queued agents status,
        fun id h => congrArg some (processed id h).symm⟩
    | idle orig queued processed agents status =>
      exact ⟨none, .idle orig queued agents status, fun id h => absurd h (processed id)⟩
  · rintro ⟨o, h, hp⟩
    cases h with
    | active jid orig queued agents status =>
      exact .active jid orig queued (fun id h => (Option.some.inj (hp id h)).symm) agents status
    | idle orig queued agents status =>
      exact .idle orig queued (fun id h => nomatch hp id h) agents status

theorem Lane.mono {o : Option JobId} (h : Lane env s d o) (horig : s.retained d → s'.retained d)
    (hqueued : ∀ id, s'.queued d id → s.queued d id)
    (hagents : ∀ t, s'.hasAgent env d t → s.hasAgent env d t)
    (hstatus : s'.pg.db.status? d = some .dlq → s.pg.db.status? d = some .dlq) :
    Lane env s' d o := by
  cases h with
  | active jid orig queued agents status =>
    exact .active jid (orig.imp_right horig) (fun id h => queued id (hqueued id h))
      (fun t h => agents t (hagents t h)) fun h => status (hstatus h)
  | idle orig queued agents status =>
    exact .idle (horig orig) (fun id h => queued id (hqueued id h))
      (fun t u ht hu => agents t u (hagents t ht) (hagents u hu))
      fun t ht h => status t (hagents t ht) (hstatus h)

theorem Lane.of_queued {o : Option JobId} (h : Lane env s d o) {id : JobId} (hq : s.queued d id) :
    o = some id := by
  cases h with
  | active jid orig queued agents status => exact congrArg some (queued id hq).symm
  | idle orig queued agents status => exact absurd hq (queued id)

theorem Lane.of_agent {o : Option JobId} (h : Lane env s d o) (ha : s.hasAgent env d t) :
    o = none ∧ s.retained d ∧ (∀ id, ¬ s.queued d id) ∧ (∀ u, s.hasAgent env d u → u = t) ∧
      s.pg.db.status? d ≠ some .dlq := by
  cases h with
  | active jid orig queued agents status => exact absurd ha (agents t)
  | idle orig queued agents status =>
    exact ⟨rfl, orig, queued, fun u hu => agents u t hu ha, status t ha⟩

theorem Lane.of_dlq {o : Option JobId} (h : Lane env s d o) (hst : s.pg.db.status? d = some .dlq) :
    o = none ∧ s.retained d ∧ (∀ id, ¬ s.queued d id) ∧ ∀ t, ¬ s.hasAgent env d t := by
  cases h with
  | active jid orig queued agents status => exact absurd hst status
  | idle orig queued agents status => exact ⟨rfl, orig, queued, fun t ht => status t ht hst⟩

theorem Phase.of_agent (h : Phase env s d) (ha : s.hasAgent env d t) :
    (∀ u, s.hasAgent env d u → u = t) ∧ s.pg.db.status? d ≠ some .dlq := by
  obtain ⟨o, hlane, -⟩ := phase_iff.mp h
  exact (hlane.of_agent ha).2.2.2

theorem Phase.of_processed (h : Phase env s d) {id : JobId} (hp : s.processed d id) :
    (∀ t, ¬ s.hasAgent env d t) ∧ s.pg.db.status? d ≠ some .dlq := by
  cases h with
  | active jid orig queued processed agents status => exact ⟨agents, status⟩
  | idle orig queued processed agents status => exact absurd hp (processed id)

theorem Phase.processed_unique (h : Phase env s d) {id id' : JobId} (hp : s.processed d id)
    (hp' : s.processed d id') : id = id' := by
  cases h with
  | active jid orig queued processed agents status =>
    exact (processed id hp).trans (processed id' hp').symm
  | idle orig queued processed agents status => exact absurd hp (processed id)

theorem retained_step (hjobs : s.jobs.Ok env) (hl : l ≠ .redisLoss) (h : step env s l = some s')
    (hr : s.retained d) : s'.retained d := by
  obtain ⟨j, hj, hid, hst⟩ := hr
  exact ⟨j, (step_jobs hjobs h).failed_stays hjobs hj hst hl, hid, hst⟩

/-! ## Facts about facts -/

theorem Facts.next_moved {m : Facts} {e : Eff} (r : e.Resp) (he : e ≠ .sql .commit) :
    (m.next e r).moved = m.moved := by
  by_cases hq : ∃ q, e = .sql q
  · obtain ⟨q, rfl⟩ := hq
    cases q with
    | commit => exact absurd rfl he
    | write st =>
      match r with
      | .error x => rfl
      | .ok none => rfl
      | .ok (some g) => rfl
    | _ => cases r <;> rfl
  · exact (Facts.next_of_not_sql (fun q h => hq ⟨q, h⟩) r).2.2.2.2

theorem Facts.next_unspent {m : Facts} {e : Eff} (r : e.Resp) (h : (m.next e r).spent = false) :
    m.spent = false := by
  by_contra hne
  have hs : m.spent = true := by simpa using hne
  rw [Facts.next_spent r hs] at h
  cases h

theorem Facts.nextSql_commit_moved {m : Facts} (r : Except Err Unit) :
    m.moved = true → (m.nextSql .commit r).moved = true := by
  intro h
  cases r with
  | error x => exact h
  | ok x =>
    change (m.moved || _) = true
    rw [h]
    rfl

theorem Facts.next_unmoved {m : Facts} {e : Eff} (r : e.Resp) (h : (m.next e r).moved = false) :
    m.moved = false := by
  by_cases he : e = .sql .commit
  · subst he
    by_contra hne
    have hm : (m.nextSql .commit r).moved = true :=
      Facts.nextSql_commit_moved r (by simpa using hne)
    have h' : (m.nextSql .commit r).moved = false := h
    rw [hm] at h'
    cases h'
  · rw [Facts.next_moved r he] at h
    exact h

theorem Facts.next_added {m : Facts} {e : Eff} (r : e.Resp) (h : (m.next e r).added = []) :
    m.added = [] := by
  cases e with
  | sql q => exact (Facts.nextSql_keeps r).2.1.symm.trans h
  | redis c =>
    cases c with
    | setLock d token ttl => cases r <;> exact h
    | _ => exact h
  | queueAdd id d =>
    cases r with
    | error x => exact h
    | ok x => cases h
  | _ => exact h

/-- A call makes no agent, but for the COMMIT of a manual retry. -/
theorem Advance.agent {c : Choice} {e : Eff} {r : e.Resp} {k : e.Resp → Code Reply} {w : World}
    {m : Memory} (h : Advance s s' t c th e r k w m) (hu : s'.hasAgent env d u) :
    s.hasAgent env d u ∨ u = t ∧ e = .sql .commit ∧ th.kind.requestsRetry d ∧
      th.facts.moved = false ∧ (th.facts.next e r).moved = true ∧
        (th.facts.next e r).spent = false := by
  obtain ⟨th', hlive, hunspent, hrole⟩ := hu
  by_cases hut : u = t
  · subst hut
    rw [h.live?_self] at hlive
    cases hlive
    rw [Thread.facts_after] at hunspent hrole
    have hsp := Facts.next_unspent r hunspent
    rcases hrole with ⟨job, hk, hd, hmax, hm⟩ | ⟨hk, hm, ha⟩
    · exact Or.inl ⟨th, h.live, hsp, Or.inl ⟨job, hk, hd, hmax, Facts.next_unmoved r hm⟩⟩
    · by_cases hm₀ : th.facts.moved = true
      · exact Or.inl ⟨th, h.live, hsp, Or.inr ⟨hk, hm₀, Facts.next_added r ha⟩⟩
      · refine Or.inr ⟨rfl, ?_, hk, by simpa using hm₀, hm, hunspent⟩
        by_contra he
        rw [Facts.next_moved r he] at hm
        exact hm₀ hm
  · rw [h.live?_other hut] at hlive
    exact Or.inl ⟨th', hlive, hunspent, hrole⟩

theorem Advance.queued {c : Choice} {e : Eff} {r : e.Resp} {k : e.Resp → Code Reply} {w : World}
    {m : Memory} (h : Advance s s' t c th e r k w m) (hjobs : s.jobs.Ok env) {id : JobId}
    (hq : s'.queued d id) :
    s.queued d id ∨ s.jobs.job? id = none ∧ ∃ k, th.prog = .op (.queueAdd id d) k := by
  obtain ⟨j', hj', hlive, rfl, rfl⟩ := hq
  rcases (h.jobs hjobs).live_back hjobs hj' hlive with ⟨j, hj, hl, hid, hd⟩ | ⟨hnone, -, hadd⟩
  · exact Or.inl ⟨j, hj, hl, hid, hd⟩
  · rcases hadd with ⟨t', c', th', k', hop, hlive', hp⟩ | hop
    · cases hop
      rw [h.live] at hlive'
      cases hlive'
      exact Or.inr ⟨hnone, k', hp⟩
    · cases hop

/-! ## A COMMIT -/

theorem Db.status?_move {db : Db} {f g : Status} {reason : String} {a : Actor} {g₁ id : ℕ}
    {τ τ' : Time} (h : (db.delivery? d).isSome) :
    (db.applyAll [⟨.updateStatus d g, g₁, τ⟩,
      ⟨.insertTransition d (some f) g reason a, id, τ'⟩]).status? d = some g := by
  obtain ⟨row, hrow⟩ := Option.isSome_iff_exists.mp h
  simp [Db.status?, hrow]

theorem Advance.retried {c : Choice} {r : Except Err Unit} {k : Except Err Unit → Code Reply}
    {w : World} {m : Memory} (h : Advance s s' t c th (.sql .commit) r k w m) (hs : s.Ok)
    (hk : th.kind.requestsRetry d) (hm : th.facts.moved = false)
    (hm' : (th.facts.next (.sql .commit) r).moved = true)
    (hsp : (th.facts.next (.sql .commit) r).spent = false) :
    s.pg.db.status? d = some .dlq ∧ s'.pg.db.status? d = some .pending := by
  have hok := hs.threads t th h.live
  cases r with
  | error x => cases hsp
  | ok x =>
    have hmove : th.facts.txHas Stmt.isMove = true := by
      have hor : (th.facts.moved || th.facts.txHas Stmt.isMove) = true := hm'
      rw [hm, Bool.false_or] at hor
      exact hor
    have hc := h.committed hs
    rw [Facts.txHas, ← Thread.tx] at hmove
    generalize th.tx = tx at hc hmove
    have hseen := hok.seen
    obtain ⟨n, hk⟩ := hk
    rw [hk] at hc hseen
    generalize s'.pg.db = db' at hc ⊢
    cases hc with
    | nil => cases hmove
    | @move d' f g a hmv reason g₁ id τ τ' =>
      cases hmv with
      | retry hk' hs' hm hsp =>
        obtain rfl : d' = d := hk'.unique (Or.inl ⟨n, rfl⟩)
        obtain ⟨-, hst⟩ := hseen d' .dlq hk' hs' (h.committing.open_ hs)
        exact ⟨hst, Db.status?_move (Db.status?_isSome hst)⟩
    | record hrec => cases hrec
    | ingest hk' => rcases hk' with ⟨_, hk'⟩ | ⟨_, hk'⟩ <;> cases hk'
    | claim hk' => rcases hk' with hk' | ⟨_, hk'⟩ <;> cases hk'

theorem Facts.nextSql_commit_done {m : Facts} (r : Except Err Unit)
    (h : m.txHas Stmt.isMove = true) :
    (m.nextSql .commit r).moved = true ∨ (m.nextSql .commit r).spent = true := by
  cases r with
  | error x => exact Or.inr rfl
  | ok x =>
    refine Or.inl ?_
    change (m.moved || m.txHas Stmt.isMove) = true
    rw [h, Bool.or_true]

/-- A handler before its last attempt does nothing. -/
def Inert (env : Env) (s : State) : Prop :=
  ∀ t th job, s.live? t = some th → th.kind = .failed job → job.attemptsMade < env.maxAttempts →
    ∀ e k, th.prog ≠ .op e k

theorem Inert.agent (hI : Inert env s) (h : Committing s t th) {job : JobRef}
    (hk : th.kind = .failed job) (hm : th.facts.moved = false) (hsp : th.facts.spent = false) :
    Agent env th job.deliveryId := by
  refine ⟨hsp, Or.inl ⟨job, hk, rfl, ?_, hm⟩⟩
  by_contra hlt
  obtain ⟨k, hp⟩ := h.prog
  exact hI t th job h.live hk (Nat.lt_of_not_le hlt) _ k hp

theorem Lane.commit {c : Choice} {r : Except Err Unit} {k : Except Err Unit → Code Reply}
    {w : World} {m : Memory} (hadv : Advance s s' t c th (.sql .commit) r k w m) (hs : s.Ok)
    (hjobs : s.jobs.Ok env) (hinert : Inert env s) (hcall : ∀ c, th.kind ≠ .repoCall c)
    (h : step env s (.op t c) = some s') {o : Option JobId} (hI : Lane env s d o) :
    Lane env s' d o := by
  have horig : s.retained d → s'.retained d := retained_step (l := .op t c) hjobs nofun h
  have hqueued : ∀ id, s'.queued d id → s.queued d id := by
    intro id hq
    rcases hadv.queued hjobs hq with hq | ⟨-, k', hp⟩
    · exact hq
    · cases hadv.prog.symm.trans hp
  -- nothing to do when neither a retry nor DLQ was written
  have hmono : (∀ j, th.kind ≠ .postRetry j) → s'.pg.db.status? d ≠ some .dlq →
      Lane env s' d o := by
    intro hk hst
    refine hI.mono horig hqueued (fun u hu => ?_) fun h => absurd h hst
    rcases hadv.agent hu with hu | ⟨-, -, hk', -⟩
    · exact hu
    · exact hk'.elim fun n hk' => absurd hk' (hk _)
  have hsame : s'.pg.db.status? d = s.pg.db.status? d → Lane env s' d o := by
    intro hst
    refine hI.mono horig hqueued (fun u hu => ?_) fun h => hst.symm.trans h
    rcases hadv.agent hu with hu | ⟨-, -, hk, hm, hm', hsp⟩
    · exact hu
    · obtain ⟨h1, h2⟩ := hadv.retried hs hk hm hm' hsp
      rw [h1, h2] at hst
      cases hst
  rcases story hs h d with h' | ⟨D, τ, hD, h'⟩ | ⟨t', c', th', r', k', w', m', hl, hadv', hc⟩
  · exact hsame (Db.status?_of_dossier? h')
  · refine hsame ?_
    rw [Db.status?_eq h', Db.status?_eq hD]
    rfl
  cases hl
  obtain rfl : th' = th := Option.some.inj (hadv'.live.symm.trans hadv.live)
  cases hD' : s'.pg.db.dossier? d with
  | none =>
    rw [hD'] at hc
    generalize s.pg.db.dossier? d = o at hc
    cases hc
  | some D' =>
    rw [hD'] at hc
    have hst' := Db.status?_eq hD'
    generalize hD : s.pg.db.dossier? d = o at hc
    cases hc with
    | created hk ev ep id τ τ' =>
      refine hmono (fun j hj => ?_) (by rw [hst']; nofun)
      rw [hj] at hk
      rcases hk with ⟨_, hk⟩ | ⟨_, hk⟩ <;> cases hk
    | @moved D f g a hmv id hid gen hm reason τ τ' =>
      have hdone := Facts.nextSql_commit_done r (Facts.txHas_of_mem hm rfl)
      generalize hkind : th'.kind = kd at hmv
      cases hmv with
      | mark hw hmoved =>
        exact hmono (by rw [hkind]; nofun) (by rw [hst']; nofun)
      | @exhaust job _ x hrow hne hmoved hsp =>
        have hagent := hinert.agent hadv.committing hkind hmoved hsp
        obtain ⟨rfl, ho, hq, huniq, hst⟩ := hI.of_agent ⟨th', hadv.live, hagent⟩
        have hnone : ∀ u, ¬ s'.hasAgent env job.deliveryId u := by
          rintro u hu
          rcases hadv.agent hu with hold | ⟨-, -, ⟨n, hk⟩, -⟩
          · obtain rfl := huniq u hold
            obtain ⟨th₁, hlive, hunspent, hrole⟩ := hu
            rw [hadv.live?_self] at hlive
            cases hlive
            have hunspent : (th'.facts.nextSql .commit r).spent = false := hunspent
            rcases hrole with ⟨_, -, -, -, hm'⟩ | ⟨⟨n, hk⟩, -⟩
            · have hm' : (th'.facts.nextSql .commit r).moved = false := hm'
              rcases hdone with hdone | hdone
              · exact Bool.false_ne_true (hm'.symm.trans hdone)
              · exact Bool.false_ne_true (hunspent.symm.trans hdone)
            · cases hkind.symm.trans hk
          · cases hkind.symm.trans hk
        exact .idle (horig ho) (fun id h => hq id (hqueued id h))
          (fun u v hu => absurd hu (hnone u)) fun u hu => absurd hu (hnone u)
      | retry hk hseen hmoved hsp =>
        have hok := hs.threads t th' hadv.live
        have hst := (hok.seen d .dlq (hkind ▸ hk) hseen (hadv.committing.open_ hs)).2
        obtain ⟨rfl, ho, hq, hnone⟩ := hI.of_dlq hst
        have hself : ∀ u, s'.hasAgent env d u → u = t := by
          intro u hu
          rcases hadv.agent hu with hold | ⟨hut, -⟩
          · exact absurd hold (hnone u)
          · exact hut
        exact .idle (horig ho) (fun id h => hq id (hqueued id h))
          (fun u v hu hv => (hself u hu).trans (hself v hv).symm) (fun _ _ => by rw [hst']; nofun)
      | call => exact absurd hkind (hcall _)
    | @recorded D a f g next hrec ha hnew id hid gen hm reason τ τ' =>
      obtain ⟨job, x, hk, -, -, -⟩ := hrec.number hcall
      have hto := hrec.to hcall
      refine hmono (by rw [hk]; nofun) ?_
      rw [hst']
      change some g ≠ _
      rw [hto]
      cases a.outcome <;> decide

/-! ## Any step -/

theorem Lane.added {c : Choice} {id : JobId} {r : Except Err Unit}
    {k : Except Err Unit → Code Reply} {w : World} {m : Memory}
    (hadv : Advance s s' t c th (.queueAdd id d) r k w m) (hs : s.Ok) (hjobs : s.jobs.Ok env)
    (h : step env s (.op t c) = some s') (hnone : s.jobs.job? id = none) {o : Option JobId}
    (hI : Lane env s d o) : Lane env s' d (some id) ∧ (o = some id ∨ o = none) := by
  have horig : s.retained d → s'.retained d := retained_step (l := .op t c) hjobs nofun h
  have hstatus : s'.pg.db.status? d = s.pg.db.status? d := hadv.status? hs h nofun d
  have hqueued : ∀ id', s'.queued d id' → s.queued d id' ∨ id' = id := by
    intro id' hq
    rcases hadv.queued hjobs hq with hq | ⟨-, k', hp⟩
    · exact Or.inl hq
    · cases hadv.prog.symm.trans hp
      exact Or.inr rfl
  have hagents : ∀ u, s'.hasAgent env d u → s.hasAgent env d u := by
    intro u hu
    rcases hadv.agent hu with hu | ⟨-, he, -⟩
    · exact hu
    · cases he
  rcases (hs.threads t th hadv.live).permits hadv.prog with ⟨-, rfl⟩ | ⟨n, hk, hm, hsp, ha, ms, rfl⟩
  · -- the original job: it was not kept, so the delivery is active with this id
    have hnot : ¬ s.retained d := by
      rintro ⟨j, hj, hid, -⟩
      exact Jobs.job?_none hnone j hj hid
    cases hI with
    | active jid orig queued agents status =>
      obtain rfl := orig.resolve_right hnot
      refine ⟨.active (.delivery d) (Or.inl rfl) (fun id' hq => ?_)
        (fun u hu => agents u (hagents u hu)) (hstatus ▸ status), Or.inl rfl⟩
      rcases hqueued id' hq with hq | rfl
      · exact queued id' hq
      · rfl
    | idle orig queued agents status => exact absurd orig hnot
  · -- the job of a manual retry, whose agent this was
    obtain ⟨ho', ho, hq, huniq, hst⟩ := hI.of_agent ⟨th, hadv.live, hsp, Or.inr ⟨⟨n, hk⟩, hm, ha⟩⟩
    refine ⟨.active (.retry ⟨d, n⟩ ms) (Or.inr (horig ho)) (fun id' hq' => ?_) (fun u hu => ?_)
      (hstatus ▸ hst), Or.inr ho'⟩
    · rcases hqueued id' hq' with hq' | rfl
      · exact absurd hq' (hq id')
      · rfl
    · obtain rfl := huniq u (hagents u hu)
      obtain ⟨th', hlive, hunspent, hrole⟩ := hu
      rw [hadv.live?_self] at hlive
      cases hlive
      rcases hrole with ⟨job, hk', -⟩ | ⟨-, -, hnil⟩
      · cases hk.symm.trans hk'
      · cases r with
        | error x => cases hunspent
        | ok x => cases hnil

theorem Lane.call {c : Choice} {e : Eff} {r : e.Resp} {k : e.Resp → Code Reply} {w : World}
    {m : Memory} (hadv : Advance s s' t c th e r k w m) (hs : s.Ok) (hjobs : s.jobs.Ok env)
    (hinert : Inert env s) (hcall : ∀ c, th.kind ≠ .repoCall c)
    (h : step env s (.op t c) = some s') {o : Option JobId} (hI : Lane env s d o) :
    ∃ o', Lane env s' d o' ∧ (o' = o ∨ o = none) := by
  by_cases he : e = .sql .commit
  · subst he
    exact ⟨o, Lane.commit hadv hs hjobs hinert hcall h hI, Or.inl rfl⟩
  by_cases hadd : ∃ id, e = .queueAdd id d ∧ s.jobs.job? id = none
  · obtain ⟨id, rfl, hnone⟩ := hadd
    obtain ⟨hI', ho⟩ := Lane.added hadv hs hjobs h hnone hI
    exact ⟨some id, hI', ho.imp_left Eq.symm⟩
  refine ⟨o, hI.mono (retained_step (l := .op t c) hjobs nofun h) (fun id hq => ?_) (fun u hu => ?_)
    fun hst => (hadv.status? hs h he d).symm.trans hst, Or.inl rfl⟩
  · rcases hadv.queued hjobs hq with hq | ⟨hnone, k', hp⟩
    · exact hq
    · cases hadv.prog.symm.trans hp
      exact absurd ⟨id, rfl, hnone⟩ hadd
  · rcases hadv.agent hu with hu | ⟨-, he', -⟩
    · exact hu
    · exact absurd he' he

theorem Lane.rest (hidle : Idle env s l s') (hjobs : s.jobs.Ok env)
    (hloss : s.retained d → l ≠ .redisLoss) (hput : ∀ id, l ≠ .operatorAdd id d)
    (hop : ∀ t c, l ≠ .op t c) (h : step env s l = some s')
    (hfresh : ∀ job, Kind.Starts s l (.failed job) → job.deliveryId = d →
      job.attemptsMade < env.maxAttempts) {o : Option JobId} (hI : Lane env s d o) :
    Lane env s' d o := by
  refine hI.mono (fun hret => retained_step hjobs (hloss hret) h hret) (fun id hq => ?_)
    (fun u hu => ?_) fun hst => (hidle.tables.status? d).symm.trans hst
  · obtain ⟨j', hj', hlive, rfl, rfl⟩ := hq
    rcases (step_jobs hjobs h).live_back hjobs hj' hlive with ⟨j, hj, hl', hid, hd⟩ | ⟨-, -, hadd⟩
    · exact ⟨j, hj, hl', hid, hd⟩
    · rcases hadd with ⟨t, c, _, _, hl', -⟩ | hl'
      · exact absurd hl' (hop t c)
      · exact absurd hl' (hput _)
  · obtain ⟨th', hlive, hunspent, hrole⟩ := hu
    cases hidle.threads u th' hlive with
    | @kept th hold hkept =>
      have hf : th'.facts = th.facts := congrArg WebhookEngine.facts hkept.trace
      rw [hf] at hunspent hrole
      rw [hkept.kind] at hrole
      exact ⟨th, hold, hunspent, hrole⟩
    | @fresh kd hlen hstart hth =>
      subst hth
      rcases hrole with ⟨job, hk, hd, hmax, -⟩ | ⟨-, hm, -⟩
      · have hkd : kd = .failed job := hk
        subst hkd
        exact absurd hmax (Nat.not_le_of_lt (hfresh job hstart hd))
      · cases hm

theorem Lane.exhausted {j : Job} (hlive : s.live? t = some th)
    (hj : s.jobs.job? j.id = some j) (ho : j.owner = some t)
    (hmax : env.maxAttempts ≤ j.attemptsMade + 1) (hjobs : s.jobs.Ok env) {o : Option JobId}
    (hI : Lane env s j.deliveryId o) :
    o = some j.id ∧ Lane env ((s.put t th.over).failJob env j) j.deliveryId none := by
  obtain ⟨hmem, -⟩ := Jobs.mem_of_job? hj
  have hjlive := Job.live_of_owner hjobs hj ho
  obtain rfl := hI.of_queued ⟨j, hmem, hjlive, rfl, rfl⟩
  refine ⟨rfl, ?_⟩
  cases hI with
  | active jid orig queued agents status =>
    refine .idle ?_ ?_ ?_ fun _ _ => status
    · rcases orig with horig | ⟨j₀, hj₀, hid₀, hst₀⟩
      · exact ⟨_, Jobs.mem_modify.mpr ⟨j, hmem, if_pos rfl⟩, horig, if_pos hmax⟩
      · refine ⟨j₀, Jobs.mem_modify.mpr ⟨j₀, hj₀, if_neg fun hsame => ?_⟩, hid₀, hst₀⟩
        rw [← hjobs.eq_of_id hj₀ hmem hsame] at hjlive
        simp [Job.live, hst₀] at hjlive
    · rintro id ⟨j', hj', hlive', rfl, hd⟩
      obtain ⟨j₀, hj₀, rfl⟩ := Jobs.mem_modify.mp hj'
      by_cases hsame : j₀.id = j.id
      · rw [if_pos hsame] at hlive'
        simp [Job.live, hmax] at hlive'
      · rw [if_neg hsame] at hlive' hd
        exact hsame (queued j₀.id ⟨j₀, hj₀, hlive', rfl, hd⟩)
    · have hnew : ∀ u, ((s.put t th.over).failJob env j).hasAgent env j.deliveryId u →
          u = s.threads.length := by
        rintro u ⟨th', hu, ha⟩
        rw [State.live?_failJob] at hu
        split at hu
        · rename_i hlen
          exact hlen.trans List.length_set
        · rw [State.live?_put hlive] at hu
          split at hu
          · cases hu
          · exact absurd ⟨th', hu, ha⟩ (agents u)
      exact fun u v hu hv => (hnew u hu).trans (hnew v hv).symm

/-- **Every step keeps the lanes**: the job id that may be live is as it was, or a delivery without one
gets one, or the job of that id has just failed for good. -/
theorem Lane.step (hs : s.Ok) (hjobs : s.jobs.Ok env) (hinert : Inert env s)
    (hcall : ∀ t th, s.live? t = some th → ∀ c, th.kind ≠ .repoCall c)
    (hloss : s.retained d → l ≠ .redisLoss) (hput : ∀ id, l ≠ .operatorAdd id d)
    (h : step env s l = some s') {o : Option JobId}
    (hI : Lane env s d o) :
    ∃ o', Lane env s' d o' ∧ (o' = o ∨ o = none ∨
      o' = none ∧ ∃ t, l = .settle t ∧ s.exhausting env t = o) := by
  by_cases hop : ∃ t c, l = .op t c
  · obtain ⟨t, c, rfl⟩ := hop
    obtain ⟨th, e, r, k, w, m, hadv⟩ := stepOp_cases h
    obtain ⟨o', hI', ho⟩ := Lane.call hadv hs hjobs hinert (hcall t th hadv.live) h hI
    exact ⟨o', hI', ho.imp_right Or.inl⟩
  have hop' : ∀ t c, l ≠ .op t c := fun t c hl => hop ⟨t, c, hl⟩
  have hidle := step_idle h hop'
  by_cases hfresh : ∀ job, Kind.Starts s l (.failed job) → job.deliveryId = d →
      job.attemptsMade < env.maxAttempts
  · exact ⟨o, Lane.rest hidle hjobs hloss hput hop' h hfresh hI, Or.inl rfl⟩
  -- otherwise the step starts the handler of an exhausted job of this delivery
  obtain ⟨job, hstart, rfl, hmax⟩ : ∃ job, Kind.Starts s l (.failed job) ∧ job.deliveryId = d ∧
      ¬ job.attemptsMade < env.maxAttempts := by
    simpa only [not_forall, exists_prop] using hfresh
  cases hstart with
  | @stalled id j hl' hj hst =>
    have hlive : j.live = true := by simp [Job.live, hst]
    exact absurd (hjobs.left j (Jobs.mem_of_job? hj).1 hlive) hmax
  | @failed t th job j err hl' hlive hp hne hk hj ho =>
    subst hl'
    obtain ⟨th', hlive', -, hsettle⟩ := settle_cases h
    obtain rfl : th' = th := Option.some.inj (hlive'.symm.trans hlive)
    cases hsettle with
    | plain hplain =>
      rcases hplain job hk with hraise | hown
      · cases hp.symm.trans hraise
        exact absurd rfl hne
      · exact absurd ho (hown j hj)
    | completes hret => cases hp.symm.trans hret
    | @fails job' j' err' hp' hne' hk' hj' ho' =>
      cases hk.symm.trans hk'
      cases hj.symm.trans hj'
      have hid := (Jobs.mem_of_job? hj).2
      have hmax := Nat.le_of_not_lt hmax
      obtain ⟨rfl, hI'⟩ := Lane.exhausted hlive (hid ▸ hj) ho hmax hjobs hI
      refine ⟨none, hI', Or.inr (Or.inr ⟨rfl, t, rfl, ?_⟩)⟩
      exact (State.exhausting_eq hlive hp hne hk hj ho hmax).trans (congrArg some hid.symm)
  | request hl' hs' => cases hs'

theorem settle_over (h : s.settle env t = some s') : s'.live? t = none := by
  obtain ⟨th, hlive, -, h⟩ := settle_cases h
  have hput : ∀ w, (State.mk w (s.threads.set t th.over)).live? t = none := by
    intro w
    rw [State.live?_set hlive rfl, if_pos rfl]
    rfl
  cases h with
  | plain => exact hput _
  | completes => exact hput _
  | fails =>
    have hlt : t < (s.put t th.over).threads.length :=
      (State.live?_lt hlive).trans_eq List.length_set.symm
    rw [State.live?_failJob, if_neg (Nat.ne_of_lt hlt)]
    exact hput _

theorem processed_back (h : step env s l = some s') {job : JobRef} (hu : s'.live? u = some th')
    (hk : th'.kind = .deliver job) :
    (∃ th, s.live? u = some th ∧ th.kind = .deliver job ∧ l ≠ .settle u) ∨
      s.queued job.deliveryId job.id ∧ ∃ id, l = .pickup id := by
  cases step_arises h hu with
  | called hl hadv hth =>
    subst hl hth
    exact Or.inl ⟨_, hadv.live, hk, nofun⟩
  | @kept th _ hold hkept =>
    refine Or.inl ⟨th, hold, hkept.kind.symm.trans hk, ?_⟩
    rintro rfl
    rw [settle_over h] at hu
    cases hu
  | @fresh kd hlen hstart hth =>
    subst hth
    obtain rfl : kd = .deliver job := hk
    refine Or.inr ?_
    cases hstart with
    | @pickup id j hl hj hst =>
      refine ⟨⟨j, (Jobs.mem_of_job? hj).1, ?_, rfl, rfl⟩, id, hl⟩
      rcases hst with hst | hst <;> simp [Job.live, hst]
    | request hl hs => cases hs

/-- **Every step keeps the phases.** -/
theorem Phase.step (hs : s.Ok) (hjobs : s.jobs.Ok env) (hinert : Inert env s)
    (hcall : ∀ t th, s.live? t = some th → ∀ c, th.kind ≠ .repoCall c) (hl : Orderly env s l)
    (h : step env s l = some s') (hI : Phase env s d) : Phase env s' d := by
  have hloss : l ≠ .redisLoss := by
    rintro rfl
    exact hl
  have hput : ∀ id, l ≠ .operatorAdd id d := by
    rintro id rfl
    exact hl
  obtain ⟨o, hlane, hproc⟩ := phase_iff.mp hI
  obtain ⟨o', hlane', ho⟩ := hlane.step hs hjobs hinert hcall (fun _ => hloss) hput h
  refine phase_iff.mpr ⟨o', hlane', ?_⟩
  rintro id ⟨u, th', job, hu, hk, rfl, rfl⟩
  -- a processor of the state after stands for the job id of the lane before
  have hback : o = some job.id := by
    rcases processed_back h hu hk with ⟨th, hu₀, hk₀, -⟩ | ⟨hq, -⟩
    · exact hproc job.id ⟨u, th, job, hu₀, hk₀, rfl, rfl⟩
    · exact hlane.of_queued hq
  rcases ho with rfl | rfl | ⟨rfl, t, rfl, hexh⟩
  · exact hback
  · cases hback
  · -- the job has failed for good, so nobody else runs it
    exfalso
    rcases processed_back h hu hk with ⟨th, hu₀, hk₀, hne⟩ | ⟨-, id, hpick⟩
    · have hut : u ≠ t := fun hut => hne (congrArg Label.settle hut.symm)
      refine hl job.id (hexh.trans hback) u (State.live?_lt hu₀) hut ?_
      rw [hu₀, Option.bind_some, Thread.running, hk₀]
    · cases hpick

end WebhookEngine
