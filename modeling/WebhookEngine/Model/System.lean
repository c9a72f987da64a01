import WebhookEngine.Lib.Run
import WebhookEngine.Model.Api

set_option autoImplicit false

/-!
# The whole system

Any number of executions (processor runs, exhaustion handlers, API requests, reconciler sweeps) run
their programs over one Postgres, one Redis and one BullMQ, interleaved call by call.

* `perform`: the effect of one call; `Choice` is what the environment decides about it.
* `Label`: what can happen next: a call of an execution, BullMQ handing out, stalling and settling
  jobs, heartbeats, requests, crashes, losses, time.
* **`step`**: the transition function; `Reachable env C` is reachability under a constraint `C` on
  the steps taken.

Nothing bounds how long an execution waits between two calls, and a lock can expire or be evicted
at any moment. An endpoint may answer anything, whatever its URL. BullMQ may take an active job from its
worker, while that one still runs, and hand it to another one, `maxStalledCount` times; then the job
fails. `operatorAdd` is a job put into the queue by hand, and `repoCall` a repository function called on
its own with arguments of the caller's choice.
-/

namespace WebhookEngine

open EffectProg TransitionSystem

variable (env : Env)

/-- Everything the executions share. -/
structure World where
  now : Time := 0
  pg : Postgres := {}
  redis : Redis := {}
  jobs : Jobs := []
  dlqJobs : List IdText := []
  idemInFlight : List (String × EventId) := []
  alerts : List DeliveryId := []

/-- The memory of one execution besides its program: its database connection, its heartbeat timer,
`lockLost`, and the answers of `extend` calls that are on their way. -/
structure Memory where
  sess : Option Session := none
  heartbeat : Bool := false
  lockLost : Bool := false
  extending : List Bool := []

/-- What the environment decides about a call. -/
structure Choice where
  fault : Fault := .none
  rows : List DeliveryId := []
  reply : HttpReply := .response 200 ""
  random : ℕ := 0
  overloaded : Bool := false

/-- A call to Redis or BullMQ: `f` is its effect. -/
def Fault.run {ω α : Type} (fault : Fault) (w : ω) (f : ω × α) : ω × Except Err α :=
  if fault = .before then (w, .error .infra) else (f.1, fault.answer f.2)

/-- `job.moveToDelayed` fails unless the execution still owns the active job. -/
def World.moveToDelayed (w : World) (t : Tid) (id : JobId) (fault : Fault) :
    World × Except Err Unit :=
  if fault ≠ .before ∧ (w.jobs.job? id).any (fun j => j.state = .active ∧ j.owner = some t) then
    ({ w with jobs := w.jobs.modify id fun j => { j with state := .delayed, owner := none } },
      fault.answer ())
  else (w, .error .infra)

/-- **The effect of one call** of execution `t`; `none` when it has to wait. -/
def perform (t : Tid) (w : World) (m : Memory) (c : Choice) :
    (e : Eff) → Option (World × Memory × e.Resp)
  | .sql q => (q.exec w.pg t w.now m.sess c.fault c.rows).map fun (pg, sess, r) =>
      ({ w with pg := pg }, { m with sess := sess }, r)
  | .redis cmd =>
    let (redis, r) := c.fault.run w.redis (cmd.exec w.now w.redis)
    some ({ w with redis := redis }, m, r)
  | .sendIdem key ev => some ({ w with idemInFlight := w.idemInFlight ++ [(key, ev)] }, m, ())
  | .queueAdd id d =>
    let (jobs, r) := c.fault.run w.jobs (w.jobs.add id d, ())
    some ({ w with jobs := jobs }, m, r)
  | .dlqAdd d =>
    let (dlqJobs, r) := c.fault.run w.dlqJobs
      (if d ∈ w.dlqJobs then w.dlqJobs else w.dlqJobs ++ [d], ())
    some ({ w with dlqJobs := dlqJobs }, m, r)
  | .moveToDelayed id _ =>
    let (w, r) := w.moveToDelayed t id c.fault
    some (w, m, r)
  | .httpStart _ => some (w, m, ())
  | .httpAwait => some (w, m, c.reply)
  | .setInterval => some (w, { m with heartbeat := true }, ())
  | .clearInterval => some (w, { m with heartbeat := false }, ())
  | .readLockLost => some (w, m, m.lockLost)
  | .dateNow => some (w, m, w.now)
  | .mathRandom => some (w, m, c.random % 2 ^ 53)
  | .isOverloaded => some (w, m, c.fault.answer c.overloaded)
  | .alert delivery _ => some ({ w with alerts := w.alerts ++ [delivery.id] }, m, ())

/-- A repository function called on its own. -/
inductive RepoCall where
  | transition (d : DeliveryId) (fromStatus toStatus : Status) (actor : Actor) (reason : String)
  | recordAttempt (input : RecordAttemptInput)
  | retryFromDlq (d : DeliveryId)
  | enqueueDelivery (d : DeliveryId)
  | claimUnenqueued (limit : ℕ)
  | ingestEvent (p : IngestParams)

/-- What an execution runs. -/
inductive Kind where
  | deliver (job : JobRef)
  | failed (job : JobRef)
  | postEvent (req : EventRequest)
  | postRetry (d : IdText)
  | sweep
  | repoCall (c : RepoCall)

/-- What an execution answers. -/
inductive Reply where
  | done
  | ingested (r : IngestResult)
  | retried (id : JobId)
  | dlq (r : RetryFromDlqResult)
  | claimed (n : ℕ)

/-- The program of execution `t`. -/
def program (t : Tid) : Kind → Code Reply
  | .deliver job => do processDelivery env job t; return .done
  | .failed job => do handleFailed env job; return .done
  | .postEvent req => do return .ingested (← postEvent env req)
  | .postRetry d => do return .retried (← postRetry d)
  | .sweep => do return .claimed (← claimUnenqueued env env.reconcilerBatchSize)
  | .repoCall (.transition d f g a r) => do transition d f g a r; return .done
  | .repoCall (.recordAttempt input) => do recordAttempt input; return .done
  | .repoCall (.retryFromDlq d) => do return .dlq (← retryFromDlq d)
  | .repoCall (.enqueueDelivery d) => do enqueueDelivery d; return .done
  | .repoCall (.claimUnenqueued limit) => do return .claimed (← claimUnenqueued env limit)
  | .repoCall (.ingestEvent p) => do return .ingested (← ingestEvent p)

/-- A call with its answer. -/
abbrev Event := Σ e : Eff, e.Resp

/-- An execution: what is left of its program, its memory, and the calls it has made, latest
first. It is no longer `alive` once its outcome was taken or its process died. -/
structure Thread where
  kind : Kind
  prog : Code Reply
  mem : Memory := {}
  trace : List Event := []
  alive : Bool := true

/-- A state of the system; executions are numbered by their position. -/
structure State extends World where
  threads : List Thread := []

/-- What can happen next. -/
inductive Label where
  | tick (ms : ℕ)
  | op (t : Tid) (c : Choice)
  | settle (t : Tid)
  | crash (t : Tid)
  | extend (t : Tid)
  | extendReply (t : Tid)
  | request (k : Kind)
  | pickup (id : JobId)
  | stall (id : JobId)
  | stallFail (id : JobId)
  | removeCompleted (id : JobId)
  | operatorAdd (id : JobId) (d : DeliveryId)
  | evict (key : RedisKey)
  | idemArrive (i : ℕ)
  | redisLoss
  | createEndpoint (clientId url signingSecret : String)
  | patchEndpoint (ep : EndpointId) (isActive : Option Bool) (url : Option String)

namespace State

/-- A new execution. -/
def spawn (s : State) (k : Kind) : State :=
  { s with threads := s.threads ++ [{ kind := k, prog := program env s.threads.length k }] }

/-- The execution's record is replaced. -/
def put (s : State) (t : Tid) (th : Thread) : State := { s with threads := s.threads.set t th }

/-- Execution `t` if it is alive. -/
def live? (s : State) (t : Tid) : Option Thread := s.threads[t]?.filter (·.alive)

/-- Execution `t` makes its next call. -/
def stepOp (s : State) (t : Tid) (c : Choice) : Option State :=
  (s.live? t).bind fun th =>
    match th.prog with
    | .op e k => (perform t s.toWorld th.mem c e).map fun (w, m, r) =>
        { toWorld := w
          threads := s.threads.set t
            { th with prog := k r, mem := m, trace := ⟨e, r⟩ :: th.trace } }
    | .ret _ => none
    | .raise _ => none

/-- BullMQ's bookkeeping for a job whose processor threw: one more attempt made, a retry or the end,
and a `failed` event. -/
def failJob (s : State) (j : Job) : State :=
  let made := j.attemptsMade + 1
  let state := if env.maxAttempts ≤ made then JobState.failed else .delayed
  { s with jobs := s.jobs.modify j.id fun j =>
      { j with state := state, attemptsMade := made, owner := none } }.spawn env
    (.failed ⟨j.id, j.deliveryId, made⟩)

/-- The outcome of execution `t` is taken. Of a processor whose job was handed to another worker in
the meantime it is ignored; after a `DelayedError` the job stays where it was moved to. -/
def settle (s : State) (t : Tid) : Option State :=
  (s.live? t).bind fun th =>
    let s' := s.put t { th with alive := false }
    match th.prog with
    | .op _ _ => none
    | .ret _ =>
      match th.kind with
      | .deliver job =>
        if (s.jobs.job? job.id).any (·.owner = some t) then
          some { s' with jobs := s.jobs.modify job.id fun j =>
            { j with state := .completed, owner := none } }
        else some s'
      | _ => some s'
    | .raise err =>
      match th.kind with
      | .deliver job =>
        if err = .delayed then some s'
        else match (s.jobs.job? job.id).filter (·.owner = some t) with
          | some j => some (s'.failJob env j)
          | none => some s'
      | _ => some s'

/-- The process of execution `t` dies: its connection closes and its transaction is rolled back. -/
def crash (s : State) (t : Tid) : Option State :=
  (s.live? t).map fun th =>
    { s.put t { th with alive := false, mem := {} } with pg := s.pg.giveBack t }

/-- The heartbeat timer of `t` fires and its `extend` call reaches Redis. -/
def extend (s : State) (t : Tid) : Option State :=
  (s.live? t).bind fun th =>
    match th.kind with
    | .deliver job =>
      if th.mem.heartbeat then
        let (redis, held) := s.redis.extendLock s.now job.text t env.lockTtlMs
        some { s.put t { th with mem := { th.mem with extending := th.mem.extending ++ [held] } }
          with redis := redis }
      else none
    | _ => none

/-- The oldest answer of an `extend` call of `t` arrives. -/
def extendReply (s : State) (t : Tid) : Option State :=
  (s.live? t).bind fun th =>
    match th.mem.extending with
    | [] => none
    | held :: rest =>
      some (s.put t { th with mem :=
        { th.mem with extending := rest, lockLost := th.mem.lockLost || !held } })

end State

/-- Requests can start at any time. The caller of a repository function has the delivery's id from
a committed row. -/
def Kind.startable (db : Db) : Kind → Bool
  | .deliver _ => false
  | .failed _ => false
  | .repoCall (.transition d _ _ _ _) => (db.delivery? d).isSome
  | .repoCall (.recordAttempt input) => (db.delivery? input.deliveryId).isSome
  | .repoCall (.enqueueDelivery d) => (db.delivery? d).isSome
  | _ => true

/-- **The transition function.** -/
def step (s : State) : Label → Option State
  | .tick ms => some { s with now := s.now + ms }
  | .op t c => s.stepOp t c
  | .settle t => s.settle env t
  | .crash t => s.crash t
  | .extend t => s.extend env t
  | .extendReply t => s.extendReply t
  | .request k => if k.startable s.pg.db then some (s.spawn env k) else none
  | .pickup id =>
    ((s.jobs.job? id).filter fun j => j.state = .waiting ∨ j.state = .delayed).map fun j =>
      { s with jobs := s.jobs.modify id fun j =>
          { j with state := .active, owner := some s.threads.length } }.spawn env (.deliver j.ref)
  | .stall id =>
    ((s.jobs.job? id).filter fun j =>
        j.state = .active ∧ j.stalledCounter < maxStalledCount).map fun _ =>
      { s with jobs := s.jobs.modify id fun j =>
          { j with state := .waiting, owner := none, stalledCounter := j.stalledCounter + 1 } }
  | .stallFail id =>
    ((s.jobs.job? id).filter fun j =>
        j.state = .active ∧ maxStalledCount ≤ j.stalledCounter).map fun j =>
      { s with jobs := s.jobs.modify id fun j =>
          { j with state := .failed, owner := none } }.spawn env (.failed j.ref)
  | .removeCompleted id =>
    ((s.jobs.job? id).filter (·.state = .completed)).map fun _ =>
      { s with jobs := s.jobs.remove id }
  | .operatorAdd id d => some { s with jobs := s.jobs.add id d }
  | .evict key => some { s with redis := s.redis.evict key }
  | .idemArrive i => s.idemInFlight[i]?.map fun p =>
      { s with
        redis := s.redis.setIdem s.now p.1 p.2 env.idemTtlSeconds
        idemInFlight := s.idemInFlight.eraseIdx i }
  | .redisLoss => some { s with redis := {}, jobs := [], dlqJobs := [] }
  | .createEndpoint clientId url secret =>
    let db := s.pg.db
    some { s with pg := { s.pg with db := { db with
      endpoints := db.endpoints ++ [⟨db.uuidSeq, clientId, url, secret, true⟩]
      uuidSeq := db.uuidSeq + 1 } } }
  | .patchEndpoint ep isActive url =>
    let db := s.pg.db
    some { s with pg := { s.pg with db := { db with
      endpoints := db.endpoints.map fun r =>
        if r.id = ep then
          { r with isActive := isActive.getD r.isActive, url := url.getD r.url }
        else r } } }

/-- No repository function is called on its own: every writer is one of the engine's programs. -/
def NoCalls (_ : State) : Label → Prop
  | .request (.repoCall _) => False
  | _ => True

instance (s : State) : (l : Label) → Decidable (NoCalls s l)
  | .request k => match k with
    | .repoCall _ => inferInstanceAs (Decidable False)
    | .deliver _ | .failed _ | .postEvent _ | .postRetry _ | .sweep => inferInstanceAs (Decidable True)
  | .tick _ | .op _ _ | .settle _ | .crash _ | .extend _ | .extendReply _ | .pickup _ | .stall _
  | .stallFail _ | .removeCompleted _ | .operatorAdd _ _ | .evict _ | .idemArrive _ | .redisLoss
  | .createEndpoint _ _ _ | .patchEndpoint _ _ _ => inferInstanceAs (Decidable True)

/-- States reachable from the empty system by steps under the constraint `C`. -/
abbrev Reachable (C : State → Label → Prop) (s : State) : Prop := Reach (step env) C {} s

end WebhookEngine
