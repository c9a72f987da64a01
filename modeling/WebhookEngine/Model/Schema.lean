import Mathlib.Algebra.Order.Ring.Nat
import Mathlib.Data.List.MinMax

set_option autoImplicit false

/-!
# The data of the delivery engine

The tables of the initial migration, the enumerations their CHECK constraints list, the names of
BullMQ jobs and the configuration of `shared/config.ts`.

A uuid is a number here. Where the code takes one over as text, in Redis keys, job ids, job data and
headers, it is an `IdText`: Postgres reads several texts as the same uuid. Timestamps are
milliseconds. `events.payload` is jsonb: the text stands for its value.
-/

namespace WebhookEngine

abbrev Time := ℕ
abbrev EndpointId := ℕ
abbrev EventId := ℕ
abbrev DeliveryId := ℕ

/-- `deliveries.status`. -/
inductive Status where
  | pending
  | delivering
  | delivered
  | failed
  | dlq
  deriving DecidableEq, Repr

/-- The worker acknowledges a job whose delivery is in one of these statuses. -/
def Status.terminal : Status → Bool
  | .delivered => true
  | .dlq => true
  | _ => false

/-- `delivery_attempts.outcome`. -/
inductive AttemptOutcome where
  | success
  | httpError
  | timeout
  | connError
  | circuitOpen
  | lockLost
  deriving DecidableEq, Repr

/-- `delivery_transitions.actor`. -/
inductive Actor where
  | worker
  | api
  | reconciler
  | manualRetry
  deriving DecidableEq, Repr

structure EndpointRow where
  id : EndpointId
  clientId : String
  url : String
  signingSecret : String
  isActive : Bool
  deriving DecidableEq

structure EventRow where
  id : EventId
  clientId : String
  idempotencyKey : String
  eventType : String
  payload : String
  receivedAt : Time
  deriving DecidableEq

structure DeliveryRow where
  id : DeliveryId
  eventId : EventId
  endpointId : EndpointId
  status : Status
  attemptCount : ℕ
  nextAttemptAt : Option Time
  enqueued : Bool
  createdAt : Time
  updatedAt : Time
  deriving DecidableEq

/-- The columns `recordAttempt` writes to `delivery_attempts`. -/
structure AttemptData where
  deliveryId : DeliveryId
  attemptNumber : ℕ
  outcome : AttemptOutcome
  httpStatus : Option ℕ
  responseBody : Option String
  errorMessage : Option String
  latencyMs : Int
  startedAt : Time
  finishedAt : Time
  deriving DecidableEq

structure AttemptRow extends AttemptData where
  id : ℕ
  deriving DecidableEq

structure TransitionRow where
  id : ℕ
  deliveryId : DeliveryId
  fromStatus : Option Status
  toStatus : Status
  reason : String
  actor : Actor
  createdAt : Time
  deriving DecidableEq

/-- `DeliveryForWorker`: the join the worker reads. -/
structure DeliveryForWorker where
  id : DeliveryId
  status : Status
  attemptCount : ℕ
  endpointId : EndpointId
  endpointUrl : String
  signingSecret : String
  endpointActive : Bool
  eventId : EventId
  eventType : String
  payload : String
  receivedAt : Time

/-- `LastAttemptSummary` of `shared/alerts.ts`. -/
structure LastAttemptSummary where
  attemptNumber : ℕ
  outcome : AttemptOutcome
  httpStatus : Option ℕ
  errorMessage : Option String

/-- A text that Postgres reads as the uuid `id`; spelling 0 is the one it writes. -/
structure IdText where
  id : DeliveryId
  spelling : ℕ := 0
  deriving DecidableEq, Repr

instance (n : ℕ) : OfNat IdText n := ⟨{ id := n }⟩

/-- The text itself: the numeral of the number after `spelling` zeros. -/
def IdText.spell (x : IdText) : String :=
  String.ofList (List.replicate x.spelling '0') ++ toString x.id

/-- Job ids of the `webhook-delivery` queue: the delivery's own id, or `{deliveryId}:retry:{ms}` with
the text of the request's path. -/
inductive JobId where
  | delivery (d : DeliveryId)
  | retry (d : IdText) (ms : Time)
  deriving DecidableEq, Repr

/-- The spelling in which a job id names its delivery, which is that of the job's data. -/
def JobId.spelling : JobId → ℕ
  | .delivery _ => 0
  | .retry d _ => d.spelling

/-- What a processor sees of its job. -/
structure JobRef where
  id : JobId
  deliveryId : DeliveryId
  attemptsMade : ℕ
  deriving DecidableEq

/-- `job.data.deliveryId` as it is written. -/
def JobRef.text (job : JobRef) : IdText := ⟨job.deliveryId, job.id.spelling⟩

/-- The settings the modelled code reads, with `BACKOFF_BASE_MS` split: splitting a string never
gives an empty list. -/
structure Config where
  httpTimeoutMs : ℕ
  lockTtlMs : ℕ
  reconcilerGraceSeconds : ℕ
  reconcilerBatchSize : ℕ
  backoffBaseMs : List ℕ
  backoff_ne_nil : backoffBaseMs ≠ []
  cbFailThreshold : ℕ
  cbWindowSeconds : ℕ
  cbOpenSeconds : ℕ
  cbProbeSeconds : ℕ
  rlMaxInflight : ℕ
  rlTtlSeconds : ℕ
  idemTtlSeconds : ℕ
  maxPayloadBytes : ℕ
  maxResponseBodyBytes : ℕ

/-- The `attempts` option of every job, which is also what `handleFailed` compares with. -/
def Config.maxAttempts (cfg : Config) : ℕ := cfg.backoffBaseMs.length

theorem Config.maxAttempts_pos (cfg : Config) : 0 < cfg.maxAttempts :=
  List.length_pos_iff.mpr cfg.backoff_ne_nil

/-- The defaults of the schema. -/
def Config.default : Config where
  httpTimeoutMs := 10000
  lockTtlMs := 60000
  reconcilerGraceSeconds := 60
  reconcilerBatchSize := 500
  backoffBaseMs := [10000, 30000, 120000, 600000, 3600000]
  backoff_ne_nil := by decide
  cbFailThreshold := 20
  cbWindowSeconds := 300
  cbOpenSeconds := 60
  cbProbeSeconds := 10
  rlMaxInflight := 50
  rlTtlSeconds := 120
  idemTtlSeconds := 86400
  maxPayloadBytes := 256 * 1024
  maxResponseBodyBytes := 4 * 1024

/-- Errors a program can throw: BullMQ's `DelayedError`, an `Error` with a message, a failed call to
Postgres, Redis or BullMQ, and the API's `AppError`. -/
inductive Err where
  | delayed
  | error (message : String)
  | infra
  | app (statusCode : ℕ) (code : String)
  deriving DecidableEq, Repr

/-- How a remote call goes: answered, failed before it took effect, or its answer was lost after it
took effect. -/
inductive Fault where
  | none
  | before
  | after
  deriving DecidableEq, Repr

/-- Executions (of the processor, a handler, a request, a sweep) are numbered. -/
abbrev Tid := ℕ

end WebhookEngine
