import WebhookEngine.Model.Repo

set_option autoImplicit false

/-!
# The worker

The modules `processDelivery` is built from (`redis/lock.ts`, `redis/circuitBreaker.ts`,
`redis/tokenBucket.ts`, `queue/backoff.ts`, `shared/headers.ts`, `worker/signature.ts`,
`worker/httpClient.ts`, `worker/heartbeat.ts`), **`processDelivery`** itself and the exhaustion
handler **`handleFailed`**.

`processDelivery` keeps in `bucketAcquired` whether its `finally` block has a token to return. The
variable is false on every exit up to the bucket step and true on every exit after it, so the body
is cut there: `pickup` is the part before and `attemptDelivery` the part after.
-/

namespace WebhookEngine

open EffectProg

variable (env : Env)

/-! ## Lock, breaker, bucket -/

/-- `acquire`; the token is the number of the execution, which no other execution has. -/
def acquire (d : IdText) (token : Tid) : Code Bool := redis (.setLock d token env.lockTtlMs)

/-- `release` of `redis/lock.ts`. -/
def releaseLock (d : IdText) (token : Tid) : Code Bool := redis (.evalReleaseLock d token)

inductive BreakerState where
  | closed
  | opened
  | probe
  deriving DecidableEq, Repr

/-- `recordFailure`. -/
def recordFailure (ep : EndpointId) : Code Unit := do
  let fails : ℕ ← redis (.incrFails ep)
  let _ ← redis (.expireFails ep env.cbWindowSeconds)
  if fails ≥ env.cbFailThreshold then do
    let _ ← redis (.setOpen ep env.cbOpenSeconds)
    return ()
  else return ()

/-- `checkState`. -/
def checkState (ep : EndpointId) : Code BreakerState := do
  let isOpen : Bool ← redis (.existsOpen ep)
  if isOpen then return .opened
  else do
    let fails : Option ℕ ← redis (.getFails ep)
    if fails.any (fun n => env.cbFailThreshold ≤ n) then do
      let wonProbe : Bool ← redis (.setProbe ep env.cbProbeSeconds)
      return if wonProbe then .probe else .opened
    else return .closed

/-- `onProbeResult`. -/
def onProbeResult (ep : EndpointId) (ok : Bool) : Code Unit :=
  if ok then do
    let _ ← redis (.delFailsProbe ep)
    return ()
  else do
    let _ ← redis (.setOpen ep env.cbOpenSeconds)
    let _ ← redis (.delProbe ep)
    return ()

/-- `tryAcquire`. -/
def tryAcquire (ep : EndpointId) : Code Bool := do
  let remaining : Int ← redis (.evalTokenBucket ep env.rlMaxInflight env.rlTtlSeconds)
  return remaining ≠ -1

/-- `release` of `redis/tokenBucket.ts`. -/
def releaseBucketToken (ep : EndpointId) : Code Unit := do
  let current : Int ← redis (.hincrbyTokens ep)
  if current > env.rlMaxInflight then do
    let _ ← redis (.hsetTokens ep env.rlMaxInflight)
    let _ ← redis (.expireTokens ep env.rlTtlSeconds)
    return ()
  else do
    let _ ← redis (.expireTokens ep env.rlTtlSeconds)
    return ()

/-- The base delay of `webhookBackoff`: the entry of the attempt, or the last one. -/
def backoffBase (attemptsMade : ℕ) : ℕ :=
  (if attemptsMade = 0 then none else env.backoffBaseMs[attemptsMade - 1]?).getD
    (env.backoffBaseMs.getLast env.backoff_ne_nil)

/-- `webhookBackoff` for `Math.random() = k / 2 ^ 53`: `floor (base / 2 + random * (base / 2))`. -/
def webhookBackoff (attemptsMade k : ℕ) : ℕ := backoffBase env attemptsMade * (2 ^ 53 + k) / 2 ^ 54

/-! ## The request -/

/-- `sign`. -/
def sign (secret : String) (timestampSeconds : ℕ) (rawBody : String) : String :=
  env.hmacSha256Hex secret (toString timestampSeconds ++ "." ++ rawBody)

/-- `buildWebhookHeaders`. -/
def buildWebhookHeaders (d : IdText) (attempt timestampSeconds : ℕ) (signatureHex : String) :
    List (String × String) :=
  [("content-type", "application/json"), ("x-webhook-id", d.spell),
    ("x-webhook-attempt", toString attempt), ("x-webhook-timestamp", toString timestampSeconds),
    ("x-webhook-signature", "sha256=" ++ signatureHex)]

/-- `DeliverErrorKind`. -/
inductive DeliverErrorKind where
  | timeout
  | connError
  deriving DecidableEq, Repr

/-- What the `try` of the processor can catch: a `DeliverError`, or anything else. -/
inductive Thrown where
  | deliverError (kind : DeliverErrorKind) (message : String)
  | other (message : String)

/-- `DeliverResult`. -/
structure DeliverResult where
  status : ℕ
  body : String
  latencyMs : Int

/-- `String.prototype.includes`. -/
def jsIncludes (s pattern : String) : Bool :=
  s.toList.tails.any fun rest => pattern.toList.isPrefixOf rest

/-- `classify`. -/
def classify (e : JsError) : DeliverErrorKind :=
  if e.isError ∧ (e.name = "AbortError" ∨ jsIncludes e.message "UND_ERR_HEADERS_TIMEOUT" ∨
      jsIncludes e.message "UND_ERR_BODY_TIMEOUT" ∨
      jsIncludes e.message "UND_ERR_CONNECT_TIMEOUT") then .timeout
  else .connError

/-- `slice(0, n)` counts UTF-16 units; half of a surrogate pair is encoded as U+FFFD. -/
def sliceUtf16 : ℕ → List Char → List Char
  | _, [] => []
  | 0, _ => []
  | 1, c :: _ => if c.val < 0x10000 then [c] else [Char.ofNat 0xFFFD]
  | n + 2, c :: cs => if c.val < 0x10000 then c :: sliceUtf16 (n + 1) cs else c :: sliceUtf16 n cs

/-- `deliver`, with its error as a value since its only caller catches it. -/
def deliver (req : HttpRequest) : Code (Except Thrown DeliverResult) := do
  let startedAt ← dateNow
  let _ ← call (.httpStart req)
  let reply : HttpReply ← call .httpAwait
  match reply with
  | .response status text => do
    let finishedAt ← dateNow
    return .ok ⟨status, String.ofList (sliceUtf16 env.maxResponseBodyBytes text.toList),
      (finishedAt : Int) - startedAt⟩
  | .thrown e => return .error (.deliverError (classify e) e.message)

/-- `withLockHeartbeat`. While the interval is set, the timer sends `extend` calls for this
execution; a `false` answer runs `onLockLost`, which sets the flag `readLockLost` reads. -/
def withLockHeartbeat {α : Type} (fn : Code α) : Code α := do
  let _ ← call .setInterval
  fn.andFinally do
    let _ ← call .clearInterval
    return ()

/-! ## The processor -/

def inactiveEndpointDelayMs : ℕ := 60000
def rateLimitDelayMs : ℕ := 5000
def rateLimitJitterMs : ℕ := 2000
def lockContentionDelayMs : ℕ := 5000

/-- `isRealFailureOutcome`. -/
def isRealFailureOutcome : AttemptOutcome → Bool
  | .httpError => true
  | .timeout => true
  | .connError => true
  | _ => false

/-- A millisecond count divided by 1000, as JavaScript prints it. -/
def showSeconds (ms : ℕ) : String :=
  let digits := ((toString (1000 + ms % 1000)).drop 1).toString
  if ms % 1000 = 0 then toString (ms / 1000)
  else toString (ms / 1000) ++ "." ++
    String.ofList (digits.toList.reverse.dropWhile (· = '0')).reverse

/-- What the processor makes of the HTTP step. -/
structure Finding where
  outcome : AttemptOutcome
  httpStatus : Option ℕ
  responseBody : Option String
  errorMessage : Option String
  reason : String

def lockLostFinding : Finding := ⟨.lockLost, none, none, some "lock_lost", "lock_lost"⟩

/-- The two branches of the `try` around `withLockHeartbeat`. -/
def examine (lockLost : Bool) : Except Thrown DeliverResult → Finding
  | .ok result =>
    if lockLost then lockLostFinding
    else if 200 ≤ result.status ∧ result.status < 300 then
      ⟨.success, some result.status, some result.body, none, "http_" ++ toString result.status⟩
    else ⟨.httpError, some result.status, some result.body,
      some ("HTTP " ++ toString result.status), "http_" ++ toString result.status⟩
  | .error (.deliverError kind message) =>
    if lockLost then lockLostFinding
    else match kind with
      | .timeout => ⟨.timeout, none, none, some message,
          "timeout_" ++ showSeconds env.httpTimeoutMs ++ "s"⟩
      | .connError => ⟨.connError, none, none, some message, "conn_error"⟩
  | .error (.other message) =>
    if lockLost then lockLostFinding
    else ⟨.connError, none, none, some message, "conn_error"⟩

/-- What `pickup` hands over once a bucket token is held. -/
structure Pickup where
  delivery : DeliveryForWorker
  breakerState : BreakerState

/-- The body of `processDelivery` up to the bucket step. `none` is an early `return`. -/
def pickup (job : JobRef) : Code (Option Pickup) := do
  let delivery : Option DeliveryForWorker ← getForDelivery job.deliveryId
  match delivery with
  | none => return none
  | some delivery =>
    if delivery.status = .delivered ∨ delivery.status = .dlq then return none
    else if ¬ delivery.endpointActive then do
      let now ← dateNow
      moveToDelayed job.id (now + inactiveEndpointDelayMs)
      Prog.raise .delayed
    else do
      let breakerState ← checkState env delivery.endpointId
      if breakerState = .opened then do
        let now ← dateNow
        let later ← dateNow
        let k ← mathRandom
        recordAttempt
          { deliveryId := job.deliveryId
            attemptNumber := delivery.attemptCount + 1
            outcome := .circuitOpen
            httpStatus := none
            responseBody := none
            errorMessage := some "circuit_open"
            latencyMs := 0
            startedAt := now
            finishedAt := now
            fromStatus := delivery.status
            toStatus := .failed
            reason := "circuit_open"
            nextAttemptAt := some (later + webhookBackoff env (delivery.attemptCount + 1) k) }
        Prog.raise (.error "circuit_open")
      else do
        let bucketAcquired ← tryAcquire env delivery.endpointId
        if bucketAcquired then return some ⟨delivery, breakerState⟩
        else do
          let k ← mathRandom
          let now ← dateNow
          moveToDelayed job.id
            (now + rateLimitDelayMs + 2 * rateLimitJitterMs * k / 2 ^ 53 - rateLimitJitterMs)
          Prog.raise .delayed

/-- The breaker bookkeeping after the HTTP step. -/
def noteOutcome (p : Pickup) (outcome : AttemptOutcome) : Code Unit :=
  if p.breakerState = .probe then onProbeResult env p.delivery.endpointId (outcome = .success)
  else if isRealFailureOutcome outcome then recordFailure env p.delivery.endpointId
  else pure ()

/-- The body of `processDelivery` after the bucket step. -/
def attemptDelivery (job : JobRef) (p : Pickup) : Code Unit := do
  let attemptNumber := p.delivery.attemptCount + 1
  transition job.deliveryId p.delivery.status .delivering .worker
    ("attempt_" ++ toString attemptNumber)
  let outboundBody := env.stringify
    ⟨p.delivery.eventId, p.delivery.eventType, env.toISOString p.delivery.receivedAt,
      p.delivery.payload⟩
  let nowMs ← dateNow
  let timestampSeconds := nowMs / 1000
  let signatureHex := sign env p.delivery.signingSecret timestampSeconds outboundBody
  let headers := buildWebhookHeaders job.text attemptNumber timestampSeconds signatureHex
  let startedAt ← dateNow
  let result ← withLockHeartbeat (deliver env ⟨p.delivery.endpointUrl, outboundBody, headers⟩)
  let finishedAt ← dateNow
  let lockLost : Bool ← call .readLockLost
  let found := examine env lockLost result
  noteOutcome env p found.outcome
  let now ← dateNow
  let k ← mathRandom
  recordAttempt
    { deliveryId := job.deliveryId
      attemptNumber := attemptNumber
      outcome := found.outcome
      httpStatus := found.httpStatus
      responseBody := found.responseBody
      errorMessage := found.errorMessage
      latencyMs := (finishedAt : Int) - startedAt
      startedAt := startedAt
      finishedAt := finishedAt
      fromStatus := .delivering
      toStatus := if found.outcome = .success then .delivered else .failed
      reason := found.reason
      nextAttemptAt :=
        if found.outcome = .success then none
        else some (now + webhookBackoff env attemptNumber k) }
  if found.outcome = .success then return ()
  else Prog.raise (.error found.reason)

/-- The `finally` block: the bucket token if one is held, then the lock. -/
def cleanup (job : JobRef) (token : Tid) (held : Option EndpointId) : Code Unit := do
  held.elim (pure ()) (releaseBucketToken env)
  let _ ← releaseLock job.text token
  return ()

/-- **`processDelivery`.** -/
def processDelivery (job : JobRef) (token : Tid) : Code Unit := do
  let acquired ← acquire env job.text token
  if ¬ acquired then do
    let now ← dateNow
    moveToDelayed job.id (now + lockContentionDelayMs)
    Prog.raise .delayed
  else do
    let picked ← (pickup env job).tryCatch fun err => do
      cleanup env job token none
      Prog.raise err
    match picked with
    | none => cleanup env job token none
    | some p =>
      (attemptDelivery env job p).andFinally (cleanup env job token (some p.delivery.endpointId))

/-- **`handleFailed`.** Whatever it throws is logged and dropped. -/
def handleFailed (job : JobRef) : Code Unit :=
  if job.attemptsMade < env.maxAttempts then return ()
  else
    Prog.tryCatch
      (do
        let delivery : Option DeliveryForWorker ← getForDelivery job.deliveryId
        match delivery with
        | none => return ()
        | some delivery =>
          if delivery.status = .dlq then return ()
          else do
            transition job.deliveryId delivery.status .dlq .worker "attempts_exhausted"
            dlqAdd job.text
            let last : Option LastAttemptSummary ← sql (.selectLastAttempt job.deliveryId)
            let _ ← call (.alert delivery last)
            return ())
      fun _ => return ()

end WebhookEngine
