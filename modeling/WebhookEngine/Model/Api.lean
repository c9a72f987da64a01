import WebhookEngine.Model.Worker

set_option autoImplicit false

/-!
# The writing routes of the API

`POST /v1/events` and `POST /v1/dlq/:deliveryId/retry`. The first body check of `POST /v1/events`,
`isOverloaded()`, is a call that answers yes or no. What they throw is answered by `errorHandler`.
-/

namespace WebhookEngine

open EffectProg

variable (env : Env)

/-- The request of `POST /v1/events`: header, content length and parsed body; `payload` is the text
`JSON.stringify` gives for it. -/
structure EventRequest where
  idempotencyKey : Option String
  contentLength : ℕ
  endpointId : EndpointId
  eventType : String
  payload : String

/-- `String.prototype.length` counts UTF-16 units. -/
def jsLength (s : String) : ℕ := (s.toList.map fun c => if c.val < 0x10000 then 1 else 2).sum

/-- `POST /v1/events`, up to the status code, which is 202 or 200 by `isNew`. -/
def postEvent (req : EventRequest) : Code IngestResult := do
  let overloaded ← isOverloaded
  if overloaded then Prog.raise (.app 429 "BACKPRESSURE")
  else
    let idemKey := req.idempotencyKey.getD ""
    if idemKey = "" then Prog.raise (.app 400 "IDEMPOTENCY_KEY_MISSING")
    else if jsLength idemKey > 255 then Prog.raise (.app 400 "IDEMPOTENCY_KEY_TOO_LONG")
    else if req.contentLength > env.maxPayloadBytes then Prog.raise (.app 413 "PAYLOAD_TOO_LARGE")
    else if req.eventType = "" ∨ jsLength req.eventType > 255 then
      Prog.raise (.app 400 "VALIDATION_ERROR")
    else if req.payload.utf8ByteSize > env.maxPayloadBytes then
      Prog.raise (.app 413 "PAYLOAD_TOO_LARGE")
    else do
      let endpoint : Option EndpointRow ←
        (sql (.selectEndpoint req.endpointId)).tryCatch fun _ =>
          Prog.raise (.app 503 "STORAGE_UNAVAILABLE")
      match endpoint with
      | none => Prog.raise (.app 404 "ENDPOINT_NOT_FOUND")
      | some endpoint =>
        if ¬ endpoint.isActive then Prog.raise (.app 409 "ENDPOINT_INACTIVE")
        else do
          let result ← ingestEvent
            ⟨endpoint.clientId, idemKey, req.eventType, req.payload, req.endpointId⟩
          if result.isNew then do
            (enqueueDelivery result.deliveryId).tryCatch fun _ => pure ()
            return result
          else return result

/-- `POST /v1/dlq/:deliveryId/retry` with a uuid in its path: the id of the job it added. -/
def postRetry (d : IdText) : Code JobId := do
  let result ← retryFromDlq d.id
  match result with
  | .notFound => Prog.raise (.app 404 "DELIVERY_NOT_FOUND")
  | .notInDlq _ => Prog.raise (.app 409 "NOT_IN_DLQ")
  | .ok => do
    let ms ← dateNow
    queueAdd (.retry d ms) d.id
    return .retry d ms

/-- The answer to a request that failed: status, `error.code`, and the `Retry-After` header. -/
structure Answer where
  statusCode : ℕ
  code : String
  retryAfter : Option String := none
  deriving DecidableEq

/-- The error handler of `buildApp`, on what the routes throw. -/
def errorHandler : Err → Answer
  | .app statusCode code => ⟨statusCode, code, if statusCode = 429 then some "5" else none⟩
  | _ => { statusCode := 500, code := "INTERNAL_ERROR" }

end WebhookEngine
