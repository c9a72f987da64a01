import WebhookEngine.Model.System

set_option autoImplicit false

/-!
# What a step can do

A step is a call of one execution, or it makes no call at all.

* `Advance`, `stepOp_cases`: a call of execution `t`, and what becomes of the executions.
* `Happens`, **`step_happens`**: the kinds of steps, each with what it checks and what it leaves behind.
* **`Idle`**: what every other step leaves alone: the tables but for endpoints, the keys of the
  executions that stay alive, and what they have done so far. New executions start at the beginning
  of their program.
* **`step_cases`**: there is nothing else.
* `Arises`, **`step_arises`**: where the executions that are alive come from.
-/

namespace WebhookEngine

open EffectProg

variable {env : Env} {s s' : State} {t u : Tid} {th th' : Thread} {l : Label}

theorem State.live?_eq_some : s.live? t = some th ↔ s.threads[t]? = some th ∧ th.alive = true := by
  simp [State.live?, Option.filter_eq_some_iff]

theorem State.live?_lt (h : s.live? t = some th) : t < s.threads.length :=
  (List.getElem?_eq_some_iff.mp (State.live?_eq_some.mp h).1).1

theorem State.live?_set {threads : List Thread} {w : World} (hs : s.live? t = some th)
    (h : threads = s.threads.set t th') :
    (State.mk w threads).live? u =
      if u = t then (if th'.alive then some th' else none) else s.live? u := by
  subst h
  have hlt := State.live?_lt hs
  by_cases hu : u = t
  · subst hu
    rw [if_pos rfl, State.live?, List.getElem?_set_self hlt]
    cases h : th'.alive <;> simp [h]
  · rw [if_neg hu, State.live?, List.getElem?_set_ne (Ne.symm hu)]
    rfl

theorem State.live?_put (hs : s.live? t = some th) :
    (s.put t th').live? u =
      if u = t then (if th'.alive then some th' else none) else s.live? u :=
  State.live?_set hs rfl

theorem State.live?_spawn {k : Kind} :
    (s.spawn env k).live? u =
      if u = s.threads.length then some { kind := k, prog := program env u k } else s.live? u := by
  by_cases hu : u = s.threads.length
  · subst hu
    simp [State.live?, State.spawn]
  · rw [if_neg hu, State.live?, State.spawn]
    simp only [List.getElem?_append, List.getElem?_singleton]
    by_cases hlt : u < s.threads.length
    · rw [if_pos hlt]
      rfl
    · have hle : s.threads.length ≤ u := Nat.le_of_not_lt hlt
      have hne : u - s.threads.length ≠ 0 :=
        Nat.sub_ne_zero_of_lt (Nat.lt_of_le_of_ne hle (Ne.symm hu))
      rw [if_neg hlt, if_neg hne, State.live?, List.getElem?_eq_none hle]

/-! ## Calls -/

/-- The execution after the call `e` was answered by `r`. -/
def Thread.after (th : Thread) (e : Eff) (r : e.Resp) (k : e.Resp → Code Reply) (m : Memory) :
    Thread :=
  { th with prog := k r, mem := m, trace := ⟨e, r⟩ :: th.trace }

/-- Execution `t` makes the call `e`, which is answered by `r`. -/
structure Advance (s s' : State) (t : Tid) (c : Choice) (th : Thread) (e : Eff) (r : e.Resp)
    (k : e.Resp → Code Reply) (w : World) (m : Memory) : Prop where
  live : s.live? t = some th
  prog : th.prog = .op e k
  done : perform t s.toWorld th.mem c e = some (w, m, r)
  state : s' = ⟨w, s.threads.set t (th.after e r k m)⟩

theorem stepOp_cases {c : Choice} (h : s.stepOp t c = some s') :
    ∃ th e r k w m, Advance s s' t c th e r k w m := by
  obtain ⟨th, hlive, h⟩ := Option.bind_eq_some_iff.mp h
  cases hp : th.prog with
  | ret a => simp [hp] at h
  | raise x => simp [hp] at h
  | op e k =>
    rw [hp] at h
    obtain ⟨⟨w, m, r⟩, hdone, rfl⟩ := Option.map_eq_some_iff.mp h
    exact ⟨th, e, r, k, w, m, hlive, hp, hdone, rfl⟩

namespace Advance

variable {c : Choice} {e : Eff} {r : e.Resp} {k : e.Resp → Code Reply} {w : World} {m : Memory}

theorem live?_eq (h : Advance s s' t c th e r k w m) :
    s'.live? u = if u = t then some (th.after e r k m) else s.live? u := by
  have halive : (th.after e r k m).alive = true := (State.live?_eq_some.mp h.live).2
  rw [h.state, State.live?_set h.live rfl, halive, if_pos rfl]

theorem live?_self (h : Advance s s' t c th e r k w m) : s'.live? t = some (th.after e r k m) := by
  rw [h.live?_eq, if_pos rfl]

theorem live?_other (h : Advance s s' t c th e r k w m) (hu : u ≠ t) : s'.live? u = s.live? u := by
  rw [h.live?_eq, if_neg hu]

theorem world (h : Advance s s' t c th e r k w m) : s'.toWorld = w := by
  rw [h.state]

theorem length (h : Advance s s' t c th e r k w m) : s'.threads.length = s.threads.length := by
  rw [h.state]
  exact List.length_set

end Advance

/-! ## Executions in between -/

/-- The execution has done nothing in between. -/
structure Kept (th th' : Thread) : Prop where
  kind : th'.kind = th.kind
  prog : th'.prog = th.prog
  trace : th'.trace = th.trace
  sess : th'.mem.sess = th.mem.sess

theorem Kept.refl (th : Thread) : Kept th th := ⟨rfl, rfl, rfl, rfl⟩

/-- The kinds of executions a step can start. -/
inductive Kind.Starts (s : State) (l : Label) : Kind → Prop where
  | pickup {id : JobId} {j : Job} (hl : l = .pickup id) (hj : s.jobs.job? id = some j)
      (hst : j.state = .waiting ∨ j.state = .delayed) : Starts s l (.deliver j.ref)
  | stalled {id : JobId} {j : Job} (hl : l = .stallFail id) (hj : s.jobs.job? id = some j)
      (hst : j.state = .active) : Starts s l (.failed j.ref)
  | failed {t : Tid} {th : Thread} {job : JobRef} {j : Job} {err : Err} (hl : l = .settle t)
      (hlive : s.live? t = some th) (hp : th.prog = .raise err) (hne : err ≠ .delayed)
      (hk : th.kind = .deliver job) (hj : s.jobs.job? job.id = some j) (ho : j.owner = some t) :
      Starts s l (.failed ⟨j.id, j.deliveryId, j.attemptsMade + 1⟩)
  | request {k : Kind} (hl : l = .request k) (h : k.startable s.pg.db) : Starts s l k

/-- An execution of the state after: it was there before, or has just been started. -/
inductive Descends (env : Env) (s : State) (l : Label) (u : Tid) (th' : Thread) : Prop where
  | kept {th : Thread} (h : s.live? u = some th) (hk : Kept th th')
  | fresh {k : Kind} (h : s.threads.length ≤ u) (hk : k.Starts s l)
      (hth : th' = { kind := k, prog := program env u k })

/-- The tables but for endpoints are as they were, and so are the keys of the living. -/
structure SameTables (pg pg' : Postgres) : Prop where
  deliveries : pg'.db.deliveries = pg.db.deliveries
  events : pg'.db.events = pg.db.events
  attempts : pg'.db.attempts = pg.db.attempts
  transitions : pg'.db.transitions = pg.db.transitions
  uuidSeq : pg.db.uuidSeq ≤ pg'.db.uuidSeq
  transitionSeq : pg.db.transitionSeq ≤ pg'.db.transitionSeq

theorem SameTables.refl (pg : Postgres) : SameTables pg pg :=
  ⟨rfl, rfl, rfl, rfl, Nat.le_refl _, Nat.le_refl _⟩

/-- **A step without a call.** -/
structure Idle (env : Env) (s : State) (l : Label) (s' : State) : Prop where
  tables : SameTables s.pg s'.pg
  threads : ∀ u th', s'.live? u = some th' → Descends env s l u th'
  locksKept : ∀ u th' key, s'.live? u = some th' → s.pg.locks key = some u →
    s'.pg.locks key = some u
  locksOld : ∀ u key, s'.pg.locks key = some u → s.pg.locks key = some u

theorem Descends.of_live (h : s.live? u = some th) : Descends env s l u th := .kept h (.refl th)

theorem idle_of_pg (hpg : s'.pg = s.pg)
    (h : ∀ u th', s'.live? u = some th' → Descends env s l u th') : Idle env s l s' where
  tables := by rw [hpg]; exact .refl _
  threads := h
  locksKept _ _ _ _ hl := by rw [hpg]; exact hl
  locksOld _ _ hl := by rw [hpg] at hl; exact hl

theorem idle_of_world (hpg : s'.pg = s.pg) (hth : s'.threads = s.threads) : Idle env s l s' := by
  refine idle_of_pg hpg fun u th' h => .of_live ?_
  rw [State.live?, hth] at h
  exact h

theorem descends_put {w : World} {th'' : Thread} (hs : s.live? t = some th)
    (h : (State.mk w (s.threads.set t th')).live? u = some th'') (hk : Kept th th') :
    Descends env s l u th'' := by
  rw [State.live?_set hs rfl] at h
  split at h
  · rename_i hu
    subst hu
    split at h
    · cases h
      exact .kept hs hk
    · cases h
  · exact .of_live h

theorem descends_spawn {s₁ : State} {k : Kind} (hlen : s₁.threads.length = s.threads.length)
    (hk : k.Starts s l) (hs : ∀ u th', s₁.live? u = some th' → Descends env s l u th')
    (h : (s₁.spawn env k).live? u = some th') : Descends env s l u th' := by
  rw [State.live?_spawn] at h
  split at h
  · rename_i hu
    cases h
    exact .fresh (Nat.le_of_eq (hu.trans hlen).symm) hk rfl
  · exact hs u th' h

theorem State.live?_failJob {j : Job} :
    (s.failJob env j).live? u =
      if u = s.threads.length then
        some { kind := .failed ⟨j.id, j.deliveryId, j.attemptsMade + 1⟩
               prog := program env u (.failed ⟨j.id, j.deliveryId, j.attemptsMade + 1⟩) }
      else s.live? u := State.live?_spawn

/-! ## Every step -/

/-- The execution once its outcome was taken. -/
def Thread.over (th : Thread) : Thread := { th with alive := false }

/-- **The ways an execution ends**: nothing more happens, its job completes, or its job fails. -/
inductive Settles (env : Env) (s : State) (t : Tid) (th : Thread) : State → Prop where
  | plain (h : ∀ job, th.kind = .deliver job → th.prog = .raise .delayed ∨
      ∀ j, s.jobs.job? job.id = some j → j.owner ≠ some t) : Settles env s t th (s.put t th.over)
  | completes {job : JobRef} {j : Job} {a : Reply} (hp : th.prog = .ret a)
      (hk : th.kind = .deliver job) (hj : s.jobs.job? job.id = some j) (ho : j.owner = some t) :
      Settles env s t th { s.put t th.over with
        jobs := s.jobs.modify job.id fun j => { j with state := .completed, owner := none } }
  | fails {job : JobRef} {j : Job} {err : Err} (hp : th.prog = .raise err) (hne : err ≠ .delayed)
      (hk : th.kind = .deliver job) (hj : s.jobs.job? job.id = some j) (ho : j.owner = some t) :
      Settles env s t th ((s.put t th.over).failJob env j)

theorem settle_cases (h : s.settle env t = some s') :
    ∃ th, s.live? t = some th ∧ (∀ e k, th.prog ≠ .op e k) ∧ Settles env s t th s' := by
  obtain ⟨th, hlive, h⟩ := Option.bind_eq_some_iff.mp h
  refine ⟨th, hlive, ?_⟩
  dsimp only at h
  split at h
  · cases h
  · rename_i hp
    refine ⟨by simp [hp], ?_⟩
    split at h
    · rename_i job hk
      split at h
      · rename_i ho
        cases h
        obtain ⟨j, hj, ho⟩ := (Option.any_eq_true _ _).mp ho
        exact .completes hp hk hj (by simpa using ho)
      · rename_i ho
        cases h
        refine .plain fun job' hk' => Or.inr fun j hj hown => ho ?_
        cases hk.symm.trans hk'
        simp [hj, hown]
    · rename_i hk
      cases h
      exact .plain fun job hk' => absurd hk' (hk job)
  · rename_i hp
    refine ⟨by simp [hp], ?_⟩
    split at h
    · rename_i job hk
      split at h
      · rename_i herr
        cases h
        subst herr
        exact .plain fun _ _ => Or.inl hp
      · rename_i hne
        split at h
        · rename_i j hj
          cases h
          obtain ⟨hj, ho⟩ := Option.filter_eq_some_iff.mp hj
          exact .fails hp hne hk hj (by simpa using ho)
        · rename_i ho
          cases h
          refine .plain fun job' hk' => Or.inr fun j hj hown => ?_
          cases hk.symm.trans hk'
          rw [hj] at ho
          simp [hown] at ho
    · rename_i hk
      cases h
      exact .plain fun job hk' => absurd hk' (hk job)

/-- **What a step does**, and what it has checked. -/
inductive Happens (env : Env) (s : State) : Label → State → Prop where
  | op {t : Tid} {c : Choice} {th : Thread} {e : Eff} {r : e.Resp} {k : e.Resp → Code Reply} {w : World}
      {m : Memory} {s' : State} (h : Advance s s' t c th e r k w m) : Happens env s (.op t c) s'
  | settle {t : Tid} {th : Thread} {s' : State} (hlive : s.live? t = some th)
      (hend : ∀ e k, th.prog ≠ .op e k) (h : Settles env s t th s') : Happens env s (.settle t) s'
  | crash {t : Tid} {th : Thread} (hlive : s.live? t = some th) :
      Happens env s (.crash t)
        { s.put t { th with alive := false, mem := {} } with pg := s.pg.giveBack t }
  | extend {t : Tid} {th : Thread} {job : JobRef} (hlive : s.live? t = some th)
      (hk : th.kind = .deliver job) (hbeat : th.mem.heartbeat = true) :
      Happens env s (.extend t)
        { s.put t { th with mem := { th.mem with extending := th.mem.extending ++
            [(s.redis.extendLock s.now job.text t env.lockTtlMs).2] } }
          with redis := (s.redis.extendLock s.now job.text t env.lockTtlMs).1 }
  | extendReply {t : Tid} {th : Thread} {held : Bool} {rest : List Bool}
      (hlive : s.live? t = some th) (hext : th.mem.extending = held :: rest) :
      Happens env s (.extendReply t) (s.put t { th with mem :=
        { th.mem with extending := rest, lockLost := th.mem.lockLost || !held } })
  | request {k : Kind} (hk : k.startable s.pg.db) : Happens env s (.request k) (s.spawn env k)
  | pickup {id : JobId} {j : Job} (hj : s.jobs.job? id = some j)
      (hst : j.state = .waiting ∨ j.state = .delayed) :
      Happens env s (.pickup id) (State.spawn env { s with jobs := s.jobs.modify id fun j =>
        { j with state := .active, owner := some s.threads.length } } (.deliver j.ref))
  | stall {id : JobId} {j : Job} (hj : s.jobs.job? id = some j) (hst : j.state = .active)
      (hcount : j.stalledCounter < maxStalledCount) :
      Happens env s (.stall id) { s with jobs := s.jobs.modify id fun j =>
        { j with state := .waiting, owner := none, stalledCounter := j.stalledCounter + 1 } }
  | stallFail {id : JobId} {j : Job} (hj : s.jobs.job? id = some j) (hst : j.state = .active)
      (hcount : maxStalledCount ≤ j.stalledCounter) :
      Happens env s (.stallFail id) (State.spawn env { s with jobs := s.jobs.modify id fun j =>
        { j with state := .failed, owner := none } } (.failed j.ref))
  | removeCompleted {id : JobId} {j : Job} (hj : s.jobs.job? id = some j)
      (hst : j.state = .completed) :
      Happens env s (.removeCompleted id) { s with jobs := s.jobs.remove id }
  | operatorAdd {id : JobId} {d : DeliveryId} :
      Happens env s (.operatorAdd id d) { s with jobs := s.jobs.add id d }
  | tick {ms : ℕ} : Happens env s (.tick ms) { s with now := s.now + ms }
  | evict {key : RedisKey} : Happens env s (.evict key) { s with redis := s.redis.evict key }
  | idemArrive {i : ℕ} {p : String × EventId} (hp : s.idemInFlight[i]? = some p) :
      Happens env s (.idemArrive i)
        { s with
          redis := s.redis.setIdem s.now p.1 p.2 env.idemTtlSeconds
          idemInFlight := s.idemInFlight.eraseIdx i }
  | redisLoss : Happens env s .redisLoss { s with redis := {}, jobs := [], dlqJobs := [] }
  | createEndpoint {clientId url secret : String} {db : Db}
      (hdb : db = { s.pg.db with
        endpoints := s.pg.db.endpoints ++ [⟨s.pg.db.uuidSeq, clientId, url, secret, true⟩]
        uuidSeq := s.pg.db.uuidSeq + 1 }) :
      Happens env s (.createEndpoint clientId url secret) { s with pg := { s.pg with db := db } }
  | patchEndpoint {ep : EndpointId} {isActive : Option Bool} {url : Option String} {db : Db}
      (hdb : db = { s.pg.db with endpoints := s.pg.db.endpoints.map fun r =>
        if r.id = ep then { r with isActive := isActive.getD r.isActive, url := url.getD r.url }
        else r }) :
      Happens env s (.patchEndpoint ep isActive url) { s with pg := { s.pg with db := db } }

/-- **Every step is one of these.** -/
theorem step_happens (h : step env s l = some s') : Happens env s l s' := by
  cases l with
  | op t c =>
    obtain ⟨th, e, r, k, w, m, h⟩ := stepOp_cases h
    exact .op h
  | settle t =>
    obtain ⟨th, hlive, hend, h⟩ := settle_cases h
    exact .settle hlive hend h
  | crash t =>
    obtain ⟨th, hlive, rfl⟩ := Option.map_eq_some_iff.mp h
    exact .crash hlive
  | extend t =>
    obtain ⟨th, hlive, h⟩ := Option.bind_eq_some_iff.mp h
    split at h
    · rename_i job hk
      split at h
      · rename_i hbeat
        cases h
        exact .extend hlive hk hbeat
      · cases h
    · cases h
  | extendReply t =>
    obtain ⟨th, hlive, h⟩ := Option.bind_eq_some_iff.mp h
    split at h
    · cases h
    · rename_i held rest hext
      cases h
      exact .extendReply hlive hext
  | request k =>
    simp only [step] at h
    split at h
    · rename_i hk
      cases h
      exact .request hk
    · cases h
  | pickup id =>
    obtain ⟨j, hj, rfl⟩ := Option.map_eq_some_iff.mp h
    obtain ⟨hj, hst⟩ := Option.filter_eq_some_iff.mp hj
    exact .pickup hj (by simpa using hst)
  | stall id =>
    obtain ⟨j, hj, rfl⟩ := Option.map_eq_some_iff.mp h
    obtain ⟨hj, hst⟩ := Option.filter_eq_some_iff.mp hj
    obtain ⟨hst, hcount⟩ := of_decide_eq_true hst
    exact .stall hj hst hcount
  | stallFail id =>
    obtain ⟨j, hj, rfl⟩ := Option.map_eq_some_iff.mp h
    obtain ⟨hj, hst⟩ := Option.filter_eq_some_iff.mp hj
    obtain ⟨hst, hcount⟩ := of_decide_eq_true hst
    exact .stallFail hj hst hcount
  | removeCompleted id =>
    obtain ⟨j, hj, rfl⟩ := Option.map_eq_some_iff.mp h
    obtain ⟨hj, hst⟩ := Option.filter_eq_some_iff.mp hj
    exact .removeCompleted hj (by simpa using hst)
  | idemArrive i =>
    obtain ⟨p, hp, rfl⟩ := Option.map_eq_some_iff.mp h
    exact .idemArrive hp
  | tick ms => cases h; exact .tick
  | operatorAdd id d => cases h; exact .operatorAdd
  | evict key => cases h; exact .evict
  | redisLoss => cases h; exact .redisLoss
  | createEndpoint clientId url secret => cases h; exact .createEndpoint rfl
  | patchEndpoint ep isActive url => cases h; exact .patchEndpoint rfl

/-! ## Steps without a call -/

theorem idle_settle (hlive : s.live? t = some th) (h : Settles env s t th s') :
    Idle env s (.settle t) s' := by
  have hput : ∀ u th', (s.put t th.over).live? u = some th' → Descends env s (.settle t) u th' :=
    fun u th' h => descends_put hlive h ⟨rfl, rfl, rfl, rfl⟩
  cases h with
  | plain => exact idle_of_pg rfl hput
  | completes => exact idle_of_pg rfl hput
  | fails hp hne hk hj ho =>
    exact idle_of_pg rfl fun u th' h =>
      descends_spawn List.length_set (.failed rfl hlive hp hne hk hj ho) hput h

theorem idle_crash (hlive : s.live? t = some th) : Idle env s l
    { s.put t { th with alive := false, mem := {} } with pg := s.pg.giveBack t } := by
  have hdead : ∀ u th', (s.put t { th with alive := false, mem := {} }).live? u = some th' →
      u ≠ t ∧ s.live? u = some th' := by
    intro u th' h
    rw [State.live?_put hlive] at h
    split at h
    · cases h
    · rename_i hu
      exact ⟨hu, h⟩
  refine ⟨⟨rfl, rfl, rfl, rfl, Nat.le_refl _, Nat.le_refl _⟩, fun u th' h => ?_, ?_, ?_⟩
  · exact .of_live (hdead u th' h).2
  · intro u th' key h hl
    have hu : u ≠ t := (hdead u th' h).1
    change (if s.pg.locks key = some t then none else s.pg.locks key) = some u
    rw [hl, if_neg (by simpa using hu)]
  · intro u key h
    change (if s.pg.locks key = some t then none else s.pg.locks key) = some u at h
    split at h
    · cases h
    · exact h

theorem idle_spawn {s₁ : State} {k : Kind} (hpg : s₁.pg = s.pg) (hth : s₁.threads = s.threads)
    (hk : k.Starts s l) : Idle env s l (s₁.spawn env k) := by
  refine idle_of_pg hpg fun u th' h => descends_spawn (by rw [hth]) hk (fun u th' h => ?_) h
  rw [State.live?, hth] at h
  exact .of_live h

theorem idle_endpoints {db : Db} (h1 : db.deliveries = s.pg.db.deliveries)
    (h2 : db.events = s.pg.db.events) (h3 : db.attempts = s.pg.db.attempts)
    (h4 : db.transitions = s.pg.db.transitions) (h5 : s.pg.db.uuidSeq ≤ db.uuidSeq)
    (h6 : s.pg.db.transitionSeq ≤ db.transitionSeq) :
    Idle env s l { s with pg := { s.pg with db := db } } where
  tables := ⟨h1, h2, h3, h4, h5, h6⟩
  threads _ _ h := .of_live h
  locksKept _ _ _ _ h := h
  locksOld _ _ h := h

/-- **A step is a call or idle.** -/
theorem step_cases (h : step env s l = some s') :
    (∃ t c, l = .op t c ∧ s.stepOp t c = some s') ∨ Idle env s l s' := by
  cases step_happens h with
  | op => exact Or.inl ⟨_, _, rfl, h⟩
  | settle hlive _ hset => exact Or.inr (idle_settle hlive hset)
  | crash hlive => exact Or.inr (idle_crash hlive)
  | extend hlive | extendReply hlive =>
    exact Or.inr (idle_of_pg rfl fun u th' h => descends_put hlive h ⟨rfl, rfl, rfl, rfl⟩)
  | request hk => exact Or.inr (idle_spawn rfl rfl (.request rfl hk))
  | pickup hj hst => exact Or.inr (idle_spawn rfl rfl (.pickup rfl hj hst))
  | stallFail hj hst _ => exact Or.inr (idle_spawn rfl rfl (.stalled rfl hj hst))
  | createEndpoint hdb =>
    subst hdb
    exact Or.inr (idle_endpoints rfl rfl rfl rfl (Nat.le_succ _) (Nat.le_refl _))
  | patchEndpoint hdb =>
    subst hdb
    exact Or.inr (idle_endpoints rfl rfl rfl rfl (Nat.le_refl _) (Nat.le_refl _))
  | _ => exact Or.inr (idle_of_world rfl rfl)

theorem step_idle (h : step env s l = some s') (hop : ∀ t c, l ≠ .op t c) : Idle env s l s' := by
  rcases step_cases h with ⟨t, c, hl, -⟩ | hidle
  · exact absurd hl (hop t c)
  · exact hidle

/-! ## Executions are never forgotten -/

/-- Every execution is still there, with the calls it had made. -/
def Continues (ths ths' : List Thread) : Prop :=
  ∀ (t : Tid) (th : Thread), ths[t]? = some th →
    ∃ th' : Thread, ths'[t]? = some th' ∧ th'.kind = th.kind ∧ th.trace <:+ th'.trace

theorem Continues.refl (ths : List Thread) : Continues ths ths :=
  fun _ th h => ⟨th, h, rfl, List.suffix_refl _⟩

theorem Continues.set {ths : List Thread} (ht : ths[t]? = some th) (hk : th'.kind = th.kind)
    (htr : th.trace <:+ th'.trace) : Continues ths (ths.set t th') := by
  intro u thu hu
  by_cases hut : u = t
  · subst hut
    rw [ht] at hu
    cases hu
    have hlt := (List.getElem?_eq_some_iff.mp ht).1
    exact ⟨th', List.getElem?_set_self hlt, hk, htr⟩
  · exact ⟨thu, (List.getElem?_set_ne (Ne.symm hut)).trans hu, rfl, List.suffix_refl _⟩

theorem Continues.append {ths ths' : List Thread} (h : Continues ths ths') (new : List Thread) :
    Continues ths (ths' ++ new) := by
  intro t th ht
  obtain ⟨th', ht', h'⟩ := h t th ht
  have hlt := (List.getElem?_eq_some_iff.mp ht').1
  exact ⟨th', (List.getElem?_append_left hlt).trans ht', h'⟩

theorem continues_put (hs : s.live? t = some th) (hk : th'.kind = th.kind)
    (htr : th'.trace = th.trace) : Continues s.threads (s.put t th').threads :=
  .set (State.live?_eq_some.mp hs).1 hk (htr ▸ List.suffix_refl _)

theorem Advance.continues {c : Choice} {e : Eff} {r : e.Resp} {k : e.Resp → Code Reply} {w : World}
    {m : Memory} (h : Advance s s' t c th e r k w m) : Continues s.threads s'.threads := by
  rw [h.state]
  exact .set (State.live?_eq_some.mp h.live).1 rfl (List.suffix_cons _ _)

theorem step_continues (h : step env s l = some s') : Continues s.threads s'.threads := by
  cases step_happens h with
  | op h => exact h.continues
  | @settle t th _ hlive _ h =>
    have hput : Continues s.threads (s.put t th.over).threads := continues_put hlive rfl rfl
    cases h with
    | plain => exact hput
    | completes => exact hput
    | fails => exact hput.append _
  | crash hlive | extend hlive | extendReply hlive => exact continues_put hlive rfl rfl
  | request | pickup | stallFail => exact (Continues.refl _).append _
  | _ => exact .refl _

theorem step_length (h : step env s l = some s') : s.threads.length ≤ s'.threads.length := by
  by_contra hlt
  have hlt := Nat.lt_of_not_le hlt
  obtain ⟨th', ht, -⟩ := step_continues h _ _ (List.getElem?_eq_getElem hlt)
  rw [List.getElem?_eq_none (Nat.le_refl _)] at ht
  cases ht

/-- Where an execution that is alive comes from: it has just made a call, was there before and makes none,
or has just been started. -/
inductive Arises (env : Env) (s : State) (l : Label) (s' : State) (u : Tid) (th' : Thread) : Prop where
  | called {c : Choice} {th : Thread} {e : Eff} {r : e.Resp} {k : e.Resp → Code Reply} {w : World}
      {m : Memory} (hl : l = .op u c) (h : Advance s s' u c th e r k w m) (hth : th' = th.after e r k m)
  | kept {th : Thread} (hop : ∀ c, l ≠ .op u c) (h : s.live? u = some th) (hk : Kept th th')
  | fresh {k : Kind} (hlen : s.threads.length ≤ u) (hk : k.Starts s l)
      (hth : th' = { kind := k, prog := program env u k })

/-- **Where the executions that are alive come from.** -/
theorem step_arises (h : step env s l = some s') (hu : s'.live? u = some th') :
    Arises env s l s' u th' := by
  by_cases hop : ∃ c, l = .op u c
  · obtain ⟨c, rfl⟩ := hop
    obtain ⟨th, e, r, k, w, m, hadv⟩ := stepOp_cases h
    exact .called rfl hadv (Option.some.inj (hu.symm.trans hadv.live?_self))
  have hnot : ∀ c, l ≠ .op u c := fun c hc => hop ⟨c, hc⟩
  rcases step_cases h with ⟨t, c, rfl, hstep⟩ | hidle
  · obtain ⟨th, e, r, k, w, m, hadv⟩ := stepOp_cases hstep
    have hut : u ≠ t := by
      rintro rfl
      exact hnot c rfl
    rw [hadv.live?_other hut] at hu
    exact .kept hnot hu (.refl th')
  · cases hidle.threads u th' hu with
    | kept hlive hk => exact .kept hnot hlive hk
    | fresh hlen hk hth => exact .fresh hlen hk hth

/-- **The rule for executions.** What is true of new executions, is kept by the calls they make and
says nothing about what they do not do themselves is true of all that are alive. -/
theorem step_threads {P : Tid → Thread → Prop} (h : step env s l = some s')
    (hI : ∀ u th, s.live? u = some th → P u th)
    (hkept : ∀ {u th th'}, Kept th th' → P u th → P u th')
    (hfresh : ∀ u k, s.threads.length ≤ u → k.Starts s l →
      P u { kind := k, prog := program env u k })
    (hcall : ∀ {t c th e r k w m}, l = .op t c → Advance s s' t c th e r k w m → P t th →
      P t (th.after e r k m)) : ∀ u th', s'.live? u = some th' → P u th' := by
  intro u th' hu
  cases step_arises h hu with
  | called hl h hth =>
    subst hth
    exact hcall hl h (hI u _ h.live)
  | kept _ hlive hk => exact hkept hk (hI u _ hlive)
  | fresh hlen hk hth =>
    subst hth
    exact hfresh u _ hlen hk

/-- Where an execution, alive or not, comes from: it has just made a call, has done nothing, or has
just been started. -/
inductive Comes (env : Env) (s : State) (l : Label) (s' : State) (t : Tid) (th' : Thread) : Prop where
  | call {c : Choice} {th : Thread} {e : Eff} {r : e.Resp} {k : e.Resp → Code Reply} {w : World}
      {m : Memory} (hl : l = .op t c) (h : Advance s s' t c th e r k w m)
      (hth : th' = th.after e r k m)
  | kept {th : Thread} (h : s.threads[t]? = some th) (hprog : th'.prog = th.prog)
      (htrace : th'.trace = th.trace)
  | fresh {k : Kind} (hprog : th'.prog = program env t k) (htrace : th'.trace = [])

/-- Where an execution, alive or not, comes from when nobody makes a call. -/
inductive Stems (env : Env) (s : State) (l : Label) (t : Tid) (th' : Thread) : Prop where
  | kept {th : Thread} (h : s.threads[t]? = some th) (hkind : th'.kind = th.kind)
      (hprog : th'.prog = th.prog) (htrace : th'.trace = th.trace)
      (halive : th.alive = true → th'.alive = true ∨ l = .settle t ∨ l = .crash t)
  | fresh {k : Kind} (hlen : s.threads.length ≤ t)
      (hth : th' = { kind := k, prog := program env t k })

theorem stems_put (hs : s.live? t = some th) {th₁ : Thread}
    (h : (s.threads.set t th₁)[u]? = some th') (hk : th₁.kind = th.kind) (hp : th₁.prog = th.prog)
    (htr : th₁.trace = th.trace) (ha : th₁.alive = true ∨ l = .settle t ∨ l = .crash t) :
    Stems env s l u th' := by
  have hget := (State.live?_eq_some.mp hs).1
  by_cases hut : u = t
  · subst hut
    rw [List.getElem?_set_self (List.getElem?_eq_some_iff.mp hget).1] at h
    cases h
    exact .kept hget hk hp htr fun _ => ha
  · rw [List.getElem?_set_ne (Ne.symm hut)] at h
    exact .kept h rfl rfl rfl Or.inl

theorem stems_spawn {s₁ : State} {k : Kind} (hlen : s₁.threads.length = s.threads.length)
    (hs : ∀ u th', s₁.threads[u]? = some th' → Stems env s l u th')
    (h : (s₁.spawn env k).threads[u]? = some th') : Stems env s l u th' := by
  have h : (s₁.threads ++ [{ kind := k, prog := program env s₁.threads.length k }])[u]? =
      some th' := h
  rw [List.getElem?_append] at h
  split at h
  · exact hs u th' h
  · rename_i hlt
    rw [List.getElem?_singleton] at h
    split at h
    · rename_i hzero
      cases h
      have hu : u = s₁.threads.length :=
        Nat.le_antisymm (Nat.le_of_sub_eq_zero hzero) (Nat.le_of_not_lt hlt)
      exact .fresh (Nat.le_of_eq (hu.trans hlen).symm) (by rw [hu])
    · cases h

/-- **Where the executions come from** in a step without a call. -/
theorem step_stems (h : step env s l = some s') (hop : ∀ t c, l ≠ .op t c)
    (ht : s'.threads[u]? = some th') : Stems env s l u th' := by
  have hsame : ∀ u th', s.threads[u]? = some th' → Stems env s l u th' :=
    fun _ _ h => .kept h rfl rfl rfl Or.inl
  cases step_happens h with
  | op => exact absurd rfl (hop _ _)
  | @settle t th _ hlive _ h =>
    have hput : ∀ u th', (s.put t th.over).threads[u]? = some th' → Stems env s (.settle t) u th' :=
      fun u th' h => stems_put hlive h rfl rfl rfl (Or.inr (Or.inl rfl))
    cases h with
    | plain => exact hput u th' ht
    | completes => exact hput u th' ht
    | fails => exact stems_spawn List.length_set hput ht
  | crash hlive => exact stems_put hlive ht rfl rfl rfl (Or.inr (Or.inr rfl))
  | extend hlive | extendReply hlive =>
    exact stems_put hlive ht rfl rfl rfl (Or.inl (State.live?_eq_some.mp hlive).2)
  | request | pickup | stallFail => exact stems_spawn rfl hsame ht
  | _ => exact hsame u th' ht

/-- **Where the executions come from.** -/
theorem step_comes (h : step env s l = some s') (ht : s'.threads[u]? = some th') :
    Comes env s l s' u th' := by
  by_cases hop : ∃ t c, l = .op t c
  · obtain ⟨t, c, rfl⟩ := hop
    obtain ⟨th, e, r, k, w, m, h⟩ := stepOp_cases h
    by_cases hut : u = t
    · subst hut
      have hself := (State.live?_eq_some.mp h.live?_self).1
      rw [hself] at ht
      cases ht
      exact .call rfl h rfl
    · rw [h.state, List.getElem?_set_ne (Ne.symm hut)] at ht
      exact .kept ht rfl rfl
  · cases step_stems h (fun t c hl => hop ⟨t, c, hl⟩) ht with
    | kept h hkind hprog htrace => exact .kept h hprog htrace
    | fresh hlen hth =>
      subst hth
      exact .fresh rfl rfl

theorem step_forward (h : step env s l = some s') (ht : s.threads[u]? = some th) :
    ∃ th', s'.threads[u]? = some th' ∧ (th'.trace = th.trace ∨
      ∃ c e r k w m, l = .op u c ∧ Advance s s' u c th e r k w m ∧ th' = th.after e r k m) := by
  have hlt := (List.getElem?_eq_some_iff.mp ht).1
  obtain ⟨th', ht'⟩ : ∃ th', s'.threads[u]? = some th' :=
    ⟨_, List.getElem?_eq_getElem (Nat.lt_of_lt_of_le hlt (step_length h))⟩
  refine ⟨th', ht', ?_⟩
  by_cases hop : ∃ t c, l = .op t c
  · obtain ⟨t, c, rfl⟩ := hop
    obtain ⟨th₀, e, r, k, w, m, hadv⟩ := stepOp_cases h
    by_cases hut : u = t
    · subst hut
      obtain rfl := Option.some.inj (ht.symm.trans (State.live?_eq_some.mp hadv.live).1)
      rw [(State.live?_eq_some.mp hadv.live?_self).1] at ht'
      exact Or.inr ⟨c, e, r, k, w, m, rfl, hadv, (Option.some.inj ht').symm⟩
    · rw [hadv.state, List.getElem?_set_ne (Ne.symm hut), ht] at ht'
      exact Or.inl (congrArg Thread.trace (Option.some.inj ht').symm)
  · cases step_stems h (fun t c hl => hop ⟨t, c, hl⟩) ht' with
    | kept hold hkind hprog htrace =>
      obtain rfl := Option.some.inj (ht.symm.trans hold)
      exact Or.inl htrace
    | fresh hlen => exact absurd hlt (Nat.not_lt.mpr hlen)

/-- An execution stays alive until its outcome is taken or its process dies. -/
theorem step_survives (h : step env s l = some s') (hu : s.live? u = some th) (hsettle : l ≠ .settle u)
    (hcrash : l ≠ .crash u) : ∃ th', s'.live? u = some th' ∧ th'.kind = th.kind := by
  have hput : ∀ {t : Tid} {th₀ th₁ : Thread} {w : World}, s.live? t = some th₀ →
      (u = t → th₁.alive = true ∧ th₁.kind = th₀.kind) →
        ∃ th', (State.mk w (s.threads.set t th₁)).live? u = some th' ∧ th'.kind = th.kind := by
    intro t th₀ th₁ w hlive hself
    rw [State.live?_set hlive rfl]
    by_cases hut : u = t
    · obtain ⟨halive, hk⟩ := hself hut
      subst hut
      rw [hlive] at hu
      cases hu
      exact ⟨th₁, by simp [halive], hk⟩
    · exact ⟨th, by rw [if_neg hut]; exact hu, rfl⟩
  have hspawn : ∀ {s₁ : State} {k : Kind}, s₁.threads.length = s.threads.length →
      (∃ th', s₁.live? u = some th' ∧ th'.kind = th.kind) →
        ∃ th', (s₁.spawn env k).live? u = some th' ∧ th'.kind = th.kind := by
    intro s₁ k hlen hs₁
    rw [State.live?_spawn, if_neg (Nat.ne_of_lt (hlen ▸ State.live?_lt hu))]
    exact hs₁
  cases step_happens h with
  | op h =>
    rw [h.state]
    exact hput h.live fun _ => ⟨(State.live?_eq_some.mp h.live).2, rfl⟩
  | settle hlive _ h =>
    have hne : ∀ {t₀}, u = t₀ → Label.settle t₀ = .settle u := fun hut => congrArg _ hut.symm
    cases h with
    | plain => exact hput hlive fun hut => absurd (hne hut) hsettle
    | completes => exact hput hlive fun hut => absurd (hne hut) hsettle
    | fails => exact hspawn List.length_set (hput hlive fun hut => absurd (hne hut) hsettle)
  | crash hlive => exact hput hlive fun hut => absurd (congrArg Label.crash hut.symm) hcrash
  | extend hlive | extendReply hlive =>
    exact hput hlive fun _ => ⟨(State.live?_eq_some.mp hlive).2, rfl⟩
  | request | pickup | stallFail => exact hspawn rfl ⟨th, hu, rfl⟩
  | _ => exact ⟨th, hu, rfl⟩

end WebhookEngine
