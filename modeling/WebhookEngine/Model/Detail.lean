import Mathlib.Data.List.Sort
import WebhookEngine.Model.System

set_option autoImplicit false

/-!
# The detail of a delivery

`GET /v1/deliveries/:id`. `getDetail` reads outside a transaction: the row first, then the attempts and
the transitions concurrently.

* `Db.selectDetail`, `Db.selectAttempts`, `Db.selectTransitions`: its statements, each over what is
  committed when it runs.
* `GetDetail`: how far a call is; `viewStep`: a call beside the system.
-/

namespace WebhookEngine

/-- `AttemptDetail`. -/
structure AttemptDetail where
  attemptNumber : ℕ
  outcome : AttemptOutcome
  httpStatus : Option ℕ
  responseBody : Option String
  errorMessage : Option String
  latencyMs : Int
  startedAt : Time
  finishedAt : Time
  deriving DecidableEq

/-- `TransitionDetail`. -/
structure TransitionDetail where
  fromStatus : Option Status
  toStatus : Status
  actor : Actor
  reason : String
  createdAt : Time
  deriving DecidableEq

/-- The row of the first statement. -/
structure DetailRow where
  id : DeliveryId
  status : Status
  attemptCount : ℕ
  nextAttemptAt : Option Time
  createdAt : Time
  updatedAt : Time
  eventId : EventId
  eventType : String
  payload : String
  receivedAt : Time
  endpointId : EndpointId
  endpointUrl : String
  deriving DecidableEq

/-- `DeliveryDetail`, with the fields of its event and its endpoint beside the others. -/
structure DeliveryDetail extends DetailRow where
  attempts : List AttemptDetail
  transitions : List TransitionDetail
  deriving DecidableEq

def AttemptRow.detail (r : AttemptRow) : AttemptDetail where
  attemptNumber := r.attemptNumber
  outcome := r.outcome
  httpStatus := r.httpStatus
  responseBody := r.responseBody
  errorMessage := r.errorMessage
  latencyMs := r.latencyMs
  startedAt := r.startedAt
  finishedAt := r.finishedAt

def TransitionRow.detail (r : TransitionRow) : TransitionDetail where
  fromStatus := r.fromStatus
  toStatus := r.toStatus
  actor := r.actor
  reason := r.reason
  createdAt := r.createdAt

namespace Db

/-- `SELECT ... FROM deliveries d JOIN events ev ... JOIN endpoints e ... WHERE d.id = $1`. -/
def selectDetail (db : Db) (d : DeliveryId) : Option DetailRow :=
  (db.delivery? d).bind fun r => (db.event? r.eventId).bind fun ev =>
    (db.endpoint? r.endpointId).map fun e =>
      { id := r.id, status := r.status, attemptCount := r.attemptCount
        nextAttemptAt := r.nextAttemptAt, createdAt := r.createdAt, updatedAt := r.updatedAt
        eventId := ev.id, eventType := ev.eventType, payload := ev.payload
        receivedAt := ev.receivedAt, endpointId := e.id, endpointUrl := e.url }

/-- `SELECT ... FROM delivery_attempts WHERE delivery_id = $1 ORDER BY attempt_number ASC`. -/
def selectAttempts (db : Db) (d : DeliveryId) : List AttemptDetail :=
  ((db.attemptsOf d).insertionSort fun a b => a.attemptNumber ≤ b.attemptNumber).map AttemptRow.detail

/-- `SELECT ... FROM delivery_transitions WHERE delivery_id = $1 ORDER BY id ASC`. -/
def selectTransitions (db : Db) (d : DeliveryId) : List TransitionDetail :=
  ((db.log d).insertionSort fun a b => a.id ≤ b.id).map TransitionRow.detail

end Db

/-- The statements of `getDetail`. -/
inductive DetailQuery where
  | row
  | attempts
  | transitions

/-- How far a call of `getDetail` is. -/
inductive GetDetail where
  | start
  | reading (row : DetailRow) (attempts : Option (List AttemptDetail))
      (transitions : Option (List TransitionDetail))
  | done (result : Option DeliveryDetail)
  deriving DecidableEq

namespace GetDetail

/-- `Promise.all`. -/
def settle (row : DetailRow) :
    Option (List AttemptDetail) → Option (List TransitionDetail) → GetDetail
  | some attempts, some transitions => .done (some ⟨row, attempts, transitions⟩)
  | attempts, transitions => .reading row attempts transitions

/-- **`getDetail`**: what the answer to a statement makes of the call, if it has sent that statement. -/
def answer (db : Db) (id : DeliveryId) : GetDetail → DetailQuery → Option GetDetail
  | .start, .row =>
    match db.selectDetail id with
    | none => some (.done none)
    | some row => some (.reading row none none)
  | .reading row none transitions, .attempts =>
    some (settle row (some (db.selectAttempts id)) transitions)
  | .reading row attempts none, .transitions =>
    some (settle row attempts (some (db.selectTransitions id)))
  | _, _ => none

end GetDetail

/-- A call of `getDetail` for the delivery, beside the system. -/
def viewStep (env : Env) (id : DeliveryId) :
    State × GetDetail → Label ⊕ DetailQuery → Option (State × GetDetail)
  | (s, g), .inl l => (step env s l).map fun s' => (s', g)
  | (s, g), .inr q => (g.answer s.pg.db id q).map fun g' => (s, g')

end WebhookEngine
