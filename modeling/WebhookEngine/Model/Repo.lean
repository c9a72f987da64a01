import WebhookEngine.Model.Effects

set_option autoImplicit false

/-!
# The repositories

`db/pool.ts`, `db/deliveries.repo.ts`, `db/attempts.repo.ts`, `db/ingest.ts` and `queue/enqueue.ts`,
function by function.
-/

namespace WebhookEngine

open EffectProg

/-- `withTx`. -/
def withTx {α : Type} (fn : Code α) : Code α := do
  sql .connect
  Prog.tryCatch
    (do
      sql .begin
      let result ← fn
      sql .commit
      return result)
    fun err => do
      sql .rollback
      Prog.raise err

/-- `getForDelivery`. -/
def getForDelivery (d : DeliveryId) : Code (Option DeliveryForWorker) := sql (.selectForDelivery d)

/-- `transition`. -/
def transition (d : DeliveryId) (fromStatus toStatus : Status) (actor : Actor) (reason : String) :
    Code Unit :=
  withTx do
    let _ ← sql (.write (.updateStatus d toStatus))
    let _ ← sql (.write (.insertTransition d (some fromStatus) toStatus reason actor))
    return ()

/-- `RecordAttemptInput`. -/
structure RecordAttemptInput extends AttemptData where
  fromStatus : Status
  toStatus : Status
  reason : String
  nextAttemptAt : Option Time

/-- `recordAttempt`. -/
def recordAttempt (input : RecordAttemptInput) : Code Unit :=
  withTx do
    let _ ← sql (.write (.insertAttempt input.toAttemptData))
    let _ ← sql (.write (.updateAttempt input.deliveryId input.toStatus input.nextAttemptAt))
    let _ ← sql (.write (.insertTransition input.deliveryId (some input.fromStatus) input.toStatus
      input.reason .worker))
    return ()

/-- The loop of `claimUnenqueued` over the selected rows. -/
def claimEach : List DeliveryId → Code Unit
  | [] => return ()
  | d :: ds => do
    queueAdd (.delivery d) d
    let _ ← sql (.write (.updateEnqueued d))
    claimEach ds

/-- `claimUnenqueued`. -/
def claimUnenqueued (env : Env) (limit : ℕ) : Code ℕ :=
  withTx do
    let rows : List DeliveryId ← sql (.selectUnenqueued env.reconcilerGraceSeconds limit)
    claimEach rows
    return rows.length

/-- `RetryFromDlqResult`. -/
inductive RetryFromDlqResult where
  | ok
  | notFound
  | notInDlq (currentStatus : Status)
  deriving DecidableEq

/-- `retryFromDlq`. -/
def retryFromDlq (d : DeliveryId) : Code RetryFromDlqResult :=
  withTx do
    let row : Option Status ← sql (.selectStatusForUpdate d)
    match row with
    | none => return .notFound
    | some status =>
      if status ≠ .dlq then return .notInDlq status
      else do
        let _ ← sql (.write (.updateStatus d .pending))
        let _ ← sql (.write
          (.insertTransition d (some .dlq) .pending "manual_retry" .manualRetry))
        return .ok

/-- `IngestParams`. -/
structure IngestParams where
  clientId : String
  idempotencyKey : String
  eventType : String
  payload : String
  endpointId : EndpointId

/-- `IngestResult`. -/
structure IngestResult where
  eventId : EventId
  deliveryId : DeliveryId
  deliveryStatus : Status
  isNew : Bool
  deriving DecidableEq

/-- The key of the Redis fast path. -/
def idemRedisKey (clientId idempotencyKey : String) : String :=
  "wh:idem:" ++ clientId ++ ":" ++ idempotencyKey

/-- The database path of `ingestEvent`: one transaction, then a SET nobody waits for. Reading a row
that is not there is a TypeError of the `!` that follows. -/
def ingestTx (p : IngestParams) : Code IngestResult := do
  sql .connect
  Prog.tryCatch
    (do
      sql .begin
      let inserted : Option ℕ ←
        sql (.write (.insertEvent p.clientId p.idempotencyKey p.eventType p.payload))
      let result ← match inserted with
        | some eventId => do
          let deliveryId : Option ℕ ← sql (.write (.insertDelivery eventId p.endpointId))
          match deliveryId with
          | some d => do
            let _ ← sql (.write (.insertTransition d none .pending "created" .api))
            pure (IngestResult.mk eventId d .pending true)
          | none => Prog.raise (.error "TypeError")
        | none => do
          let existing : Option EventId ← sql (.selectEventId p.clientId p.idempotencyKey)
          match existing with
          | some eventId => do
            let existingDelivery : Option (DeliveryId × Status) ←
              sql (.selectDeliveryOfEvent eventId)
            match existingDelivery with
            | some d => pure (IngestResult.mk eventId d.1 d.2 false)
            | none => Prog.raise (.error "TypeError")
          | none => Prog.raise (.error "TypeError")
      sql .commit
      let _ ← call (.sendIdem (idemRedisKey p.clientId p.idempotencyKey) result.eventId)
      return result)
    fun err => do
      sql .rollback
      Prog.raise err

/-- `ingestEvent`. -/
def ingestEvent (p : IngestParams) : Code IngestResult := do
  let cachedEventId : Option EventId ← redis (.getIdem (idemRedisKey p.clientId p.idempotencyKey))
  match cachedEventId with
  | some eventId => do
    let delivery : Option (DeliveryId × Status) ← sql (.selectDeliveryOfEvent eventId)
    match delivery with
    | some d => return IngestResult.mk eventId d.1 d.2 false
    | none => ingestTx p
  | none => ingestTx p

/-- `enqueueDelivery`. -/
def enqueueDelivery (d : DeliveryId) : Code Unit := do
  queueAdd (.delivery d) d
  let _ ← sql (.write (.updateEnqueued d))
  return ()

end WebhookEngine
