import WebhookEngine.Model.Schema

set_option autoImplicit false

/-!
# Postgres

The committed tables, and transactions at the granularity of single statements under READ
COMMITTED.

* An open transaction is a `Session`: its uncommitted writes, in order. Its statements see the
  committed tables with these writes applied (`Session.view`).
* `LockKey`: what a statement can wait for, the row lock of a delivery or an entry of one of the
  two unique indexes. A statement that needs a key held by another transaction is not enabled;
  keys are given back at the end of the transaction.
* Identity columns and uuids are drawn when the INSERT runs and are not given back by a rollback.
* `Sql.exec`: one statement. A statement that fails leaves the transaction as it was, for its
  caller to roll back; only for `COMMIT` and for a statement outside a transaction does it matter
  whether the answer was lost before or after the effect.
-/

namespace WebhookEngine

/-- The committed tables and the sequences behind their keys. -/
structure Db where
  endpoints : List EndpointRow := []
  events : List EventRow := []
  deliveries : List DeliveryRow := []
  attempts : List AttemptRow := []
  transitions : List TransitionRow := []
  uuidSeq : ℕ := 0
  attemptSeq : ℕ := 1
  transitionSeq : ℕ := 1

namespace Db

def delivery? (db : Db) (d : DeliveryId) : Option DeliveryRow :=
  db.deliveries.find? fun r => r.id = d

def event? (db : Db) (ev : EventId) : Option EventRow := db.events.find? fun r => r.id = ev

def endpoint? (db : Db) (ep : EndpointId) : Option EndpointRow :=
  db.endpoints.find? fun r => r.id = ep

/-- `SELECT ... FROM events WHERE client_id = $1 AND idempotency_key = $2`. -/
def eventByKey? (db : Db) (clientId idempotencyKey : String) : Option EventRow :=
  db.events.find? fun r => r.clientId = clientId ∧ r.idempotencyKey = idempotencyKey

/-- The current status of a delivery. -/
def status? (db : Db) (d : DeliveryId) : Option Status := (db.delivery? d).map (·.status)

/-- The attempts of a delivery, in the order they were committed. -/
def attemptsOf (db : Db) (d : DeliveryId) : List AttemptRow :=
  db.attempts.filter fun a => a.deliveryId = d

/-- The audit log of a delivery, in the order it was committed. -/
def log (db : Db) (d : DeliveryId) : List TransitionRow :=
  db.transitions.filter fun r => r.deliveryId = d

/-- `UPDATE deliveries SET ... WHERE id = $1`. -/
def modifyDelivery (db : Db) (d : DeliveryId) (f : DeliveryRow → DeliveryRow) : Db :=
  { db with deliveries := db.deliveries.map fun r => if r.id = d then f r else r }

end Db

/-- The statements that write. -/
inductive Stmt where
  | insertEvent (clientId idempotencyKey eventType payload : String)
  | insertDelivery (eventId : EventId) (endpointId : EndpointId)
  | insertTransition (d : DeliveryId) (fromStatus : Option Status) (toStatus : Status)
      (reason : String) (actor : Actor)
  | insertAttempt (a : AttemptData)
  | updateStatus (d : DeliveryId) (status : Status)
  | updateAttempt (d : DeliveryId) (status : Status) (nextAttemptAt : Option Time)
  | updateEnqueued (d : DeliveryId)
  deriving DecidableEq

/-- A statement as it was executed: with the key it drew and the transaction's `now()`. -/
structure Write where
  stmt : Stmt
  gen : ℕ
  time : Time

/-- The effect of a write on the tables. -/
def Db.apply (db : Db) (w : Write) : Db :=
  match w.stmt with
  | .insertEvent c k ty p => { db with events := db.events ++ [⟨w.gen, c, k, ty, p, w.time⟩] }
  | .insertDelivery ev ep =>
    { db with deliveries := db.deliveries ++
        [⟨w.gen, ev, ep, .pending, 0, none, false, w.time, w.time⟩] }
  | .insertTransition d f t reason a =>
    { db with transitions := db.transitions ++ [⟨w.gen, d, f, t, reason, a, w.time⟩] }
  | .insertAttempt a => { db with attempts := db.attempts ++ [⟨a, w.gen⟩] }
  | .updateStatus d st => db.modifyDelivery d fun r => { r with status := st, updatedAt := w.time }
  | .updateAttempt d st next => db.modifyDelivery d fun r =>
      { r with
        status := st
        attemptCount := r.attemptCount + 1
        nextAttemptAt := next
        updatedAt := w.time }
  | .updateEnqueued d => db.modifyDelivery d fun r => { r with enqueued := true, updatedAt := w.time }

/-- The effect of a list of writes, oldest first. -/
def Db.applyAll (db : Db) (ws : List Write) : Db := ws.foldl Db.apply db

/-- An open transaction. -/
structure Session where
  startedAt : Time
  writes : List Write := []

/-- What the statements of a transaction see. -/
def Session.view (σ : Session) (db : Db) : Db := db.applyAll σ.writes

/-- A row lock on a delivery, or an entry of `uq_attempts` or `uq_events_client_idem`. -/
inductive LockKey where
  | row (d : DeliveryId)
  | attempt (d : DeliveryId) (n : ℕ)
  | event (clientId idempotencyKey : String)
  deriving DecidableEq

/-- The database server: committed tables and the transaction that owns each key. -/
structure Postgres where
  db : Db := {}
  locks : LockKey → Option Tid := fun _ => none

/-- The key a statement has to own. -/
def Stmt.key : Stmt → Option LockKey
  | .insertEvent c k _ _ => some (.event c k)
  | .insertDelivery _ _ => none
  | .insertTransition _ _ _ _ _ => none
  | .insertAttempt a => some (.attempt a.deliveryId a.attemptNumber)
  | .updateStatus d _ => some (.row d)
  | .updateAttempt d _ _ => some (.row d)
  | .updateEnqueued d => some (.row d)

/-- A text column accepts every string without U+0000. -/
def textOk (s : Option String) : Bool := s.all fun t => !t.toList.contains (Char.ofNat 0)

/-- The text of a JSON value has no escape of U+0000 and none of a surrogate. -/
def escapesOk : List Char → Bool
  | '\\' :: 'u' :: a :: b :: c :: d :: text =>
    [a, b, c, d] ≠ ['0', '0', '0', '0'] ∧
      ¬ (a ∈ ['d', 'D'] ∧ b ∉ ['0', '1', '2', '3', '4', '5', '6', '7']) ∧ escapesOk text
  | '\\' :: _ :: text => escapesOk text
  | _ :: text => escapesOk text
  | [] => true

/-- A jsonb column refuses U+0000 and surrogates that stand alone, the only ones `JSON.stringify`
escapes. -/
def jsonbOk (json : String) : Bool := textOk (some json) ∧ escapesOk json.toList

/-- What the constraints make of a statement: it writes, matches nothing, or fails. -/
inductive Verdict where
  | writes
  | matchesNothing
  | fails
  deriving DecidableEq

/-- The types and constraints of the migration: foreign keys, `uq_events_client_idem` with ON CONFLICT
DO NOTHING, `uq_deliveries_event_endpoint`, `uq_attempts`; an UPDATE of a missing row matches nothing. -/
def Stmt.verdict (db : Db) : Stmt → Verdict
  | .insertEvent c k ty p =>
    if textOk (some c) ∧ textOk (some k) ∧ textOk (some ty) ∧ jsonbOk p then
      if (db.eventByKey? c k).isSome then .matchesNothing else .writes
    else .fails
  | .insertDelivery ev ep =>
    if (db.event? ev).isSome ∧ (db.endpoint? ep).isSome ∧
        ¬ db.deliveries.any (fun r => r.eventId = ev ∧ r.endpointId = ep) then .writes else .fails
  | .insertTransition d _ _ _ _ => if (db.delivery? d).isSome then .writes else .fails
  | .insertAttempt a =>
    if (db.delivery? a.deliveryId).isSome ∧
        ¬ db.attempts.any (fun r => r.deliveryId = a.deliveryId ∧
          r.attemptNumber = a.attemptNumber) ∧
        textOk a.responseBody ∧ textOk a.errorMessage then .writes else .fails
  | .updateStatus d _ => if (db.delivery? d).isSome then .writes else .matchesNothing
  | .updateAttempt d _ _ => if (db.delivery? d).isSome then .writes else .matchesNothing
  | .updateEnqueued d => if (db.delivery? d).isSome then .writes else .matchesNothing

/-- The key an INSERT draws; an UPDATE draws none. -/
def Stmt.draw (db : Db) : Stmt → ℕ × Db
  | .insertEvent _ _ _ _ => (db.uuidSeq, { db with uuidSeq := db.uuidSeq + 1 })
  | .insertDelivery _ _ => (db.uuidSeq, { db with uuidSeq := db.uuidSeq + 1 })
  | .insertTransition _ _ _ _ _ =>
    (db.transitionSeq, { db with transitionSeq := db.transitionSeq + 1 })
  | .insertAttempt _ => (db.attemptSeq, { db with attemptSeq := db.attemptSeq + 1 })
  | .updateStatus _ _ => (0, db)
  | .updateAttempt _ _ _ => (0, db)
  | .updateEnqueued _ => (0, db)

namespace Postgres

/-- No other transaction owns the key. -/
def free (pg : Postgres) (t : Tid) (key : LockKey) : Bool :=
  (pg.locks key).all fun u => u = t

/-- The keys are handed to `t`. -/
def take (pg : Postgres) (t : Tid) (keys : List LockKey) : Postgres :=
  { pg with locks := fun key => if key ∈ keys then some t else pg.locks key }

/-- `t` gives back all its keys. -/
def giveBack (pg : Postgres) (t : Tid) : Postgres :=
  { pg with locks := fun key => if pg.locks key = some t then none else pg.locks key }

end Postgres

/-- The selection predicate of `claimUnenqueued`, at `now()`. -/
def claimable (graceSeconds : ℕ) (now : Time) (r : DeliveryRow) : Bool :=
  (r.status = .pending ∨ (r.status = .failed ∧ r.nextAttemptAt.any fun next => next < now)) ∧
    r.updatedAt + graceSeconds * 1000 < now

/-- The statements the code sends. -/
inductive Sql where
  | connect
  | begin
  | commit
  | rollback
  | write (st : Stmt)
  | selectForDelivery (d : DeliveryId)
  | selectUnenqueued (graceSeconds limit : ℕ)
  | selectStatusForUpdate (d : DeliveryId)
  | selectEventId (clientId idempotencyKey : String)
  | selectDeliveryOfEvent (ev : EventId)
  | selectEndpoint (ep : EndpointId)
  | selectLastAttempt (d : DeliveryId)

/-- A write answers with the key of the row it wrote, or `none` if it matched nothing. -/
def Sql.Ret : Sql → Type
  | .connect => Unit
  | .begin => Unit
  | .commit => Unit
  | .rollback => Unit
  | .write _ => Option ℕ
  | .selectForDelivery _ => Option DeliveryForWorker
  | .selectUnenqueued _ _ => List DeliveryId
  | .selectStatusForUpdate _ => Option Status
  | .selectEventId _ _ => Option EventId
  | .selectDeliveryOfEvent _ => Option (DeliveryId × Status)
  | .selectEndpoint _ => Option EndpointRow
  | .selectLastAttempt _ => Option LastAttemptSummary

namespace Db

/-- The join of `getForDelivery`. -/
def forDelivery (db : Db) (d : DeliveryId) : Option DeliveryForWorker :=
  (db.delivery? d).bind fun r => (db.endpoint? r.endpointId).bind fun e =>
    (db.event? r.eventId).map fun ev =>
      { id := r.id, status := r.status, attemptCount := r.attemptCount
        endpointId := e.id, endpointUrl := e.url, signingSecret := e.signingSecret
        endpointActive := e.isActive
        eventId := ev.id, eventType := ev.eventType, payload := ev.payload
        receivedAt := ev.receivedAt }

/-- `SELECT id, status FROM deliveries WHERE event_id = $1 LIMIT 1`. -/
def deliveryOfEvent (db : Db) (ev : EventId) : Option (DeliveryId × Status) :=
  (db.deliveries.find? fun r => r.eventId = ev).map fun r => (r.id, r.status)

/-- The attempt with the greatest number. -/
def lastAttempt (db : Db) (d : DeliveryId) : Option LastAttemptSummary :=
  ((db.attemptsOf d).argmax (·.attemptNumber)).map fun a =>
    ⟨a.attemptNumber, a.outcome, a.httpStatus, a.errorMessage⟩

end Db

/-- The rows a `SELECT ... FOR UPDATE SKIP LOCKED LIMIT` may return: distinct rows that satisfy the
predicate and nobody else has locked, and all of them unless the limit is reached. -/
def Postgres.mayClaim (pg : Postgres) (t : Tid) (graceSeconds limit : ℕ) (now : Time)
    (rows : List DeliveryId) : Bool :=
  rows.Nodup ∧ rows.length ≤ limit ∧
    (∀ d ∈ rows, (pg.db.delivery? d).any (claimable graceSeconds now) ∧ pg.free t (.row d)) ∧
    (rows.length < limit → ∀ r ∈ pg.db.deliveries,
      claimable graceSeconds now r → pg.free t (.row r.id) → r.id ∈ rows)

/-- The answer of a statement that took effect. -/
def Fault.answer {α : Type} (fault : Fault) (a : α) : Except Err α :=
  if fault = .none then .ok a else .error .infra

/-- A statement that writes: not enabled while another transaction owns its key. Outside a
transaction it commits at once. -/
def Stmt.exec (pg : Postgres) (t : Tid) (now : Time) (sess : Option Session) (fault : Fault)
    (st : Stmt) : Option (Postgres × Option Session × Except Err (Option ℕ)) :=
  if fault = .before ∨ (fault = .after ∧ sess.isSome) then some (pg, sess, .error .infra)
  else if st.key.all (pg.free t) then
    match st.verdict ((sess.getD ⟨now, []⟩).view pg.db) with
    | .fails => some (pg, sess, .error .infra)
    | .matchesNothing => some (pg, sess, fault.answer none)
    | .writes =>
      let (gen, db) := st.draw pg.db
      match sess with
      | some σ =>
        some (({ pg with db := db }).take t st.key.toList,
          some { σ with writes := σ.writes ++ [⟨st, gen, σ.startedAt⟩] }, .ok (some gen))
      | none => some ({ pg with db := db.apply ⟨st, gen, now⟩ }, none, fault.answer (some gen))
  else none

/-- A read of what the transaction sees. -/
def readWith {α : Type} (pg : Postgres) (now : Time) (sess : Option Session) (fault : Fault)
    (f : Db → α) : Option (Postgres × Option Session × Except Err α) :=
  some (pg, sess, fault.answer (f ((sess.getD ⟨now, []⟩).view pg.db)))

/-- **One statement** of transaction `t`; `rows` is the server's choice among the rows a claiming
SELECT may return. -/
def Sql.exec (pg : Postgres) (t : Tid) (now : Time) (sess : Option Session) (fault : Fault)
    (rows : List DeliveryId) : (q : Sql) → Option (Postgres × Option Session × Except Err q.Ret)
  | .connect => some (pg, sess, fault.answer ())
  | .begin => some (pg, if fault = .none then some ⟨now, []⟩ else sess, fault.answer ())
  | .commit =>
    let writes := (sess.map (·.writes)).getD []
    let db := if fault = .before then pg.db else pg.db.applyAll writes
    some (({ pg with db := db }).giveBack t, none, fault.answer ())
  | .rollback => some (pg.giveBack t, none, fault.answer ())
  | .write st => st.exec pg t now sess fault
  | .selectForDelivery d => readWith pg now sess fault (·.forDelivery d)
  | .selectUnenqueued grace limit =>
    if fault = .none then
      if pg.mayClaim t grace limit ((sess.map (·.startedAt)).getD now) rows then
        some (pg.take t (rows.map .row), sess, .ok rows)
      else none
    else some (pg, sess, .error .infra)
  | .selectStatusForUpdate d =>
    if fault = .none then
      if pg.free t (.row d) then
        match ((sess.getD ⟨now, []⟩).view pg.db).status? d with
        | none => some (pg, sess, .ok none)
        | some st => some (pg.take t [.row d], sess, .ok (some st))
      else none
    else some (pg, sess, .error .infra)
  | .selectEventId c k => readWith pg now sess fault fun db => (db.eventByKey? c k).map (·.id)
  | .selectDeliveryOfEvent ev => readWith pg now sess fault (·.deliveryOfEvent ev)
  | .selectEndpoint ep => readWith pg now sess fault (·.endpoint? ep)
  | .selectLastAttempt d => readWith pg now sess fault (·.lastAttempt d)

end WebhookEngine
