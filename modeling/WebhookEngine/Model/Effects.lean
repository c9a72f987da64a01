import WebhookEngine.Lib.Prog
import WebhookEngine.Model.Postgres
import WebhookEngine.Model.Redis
import WebhookEngine.Model.Queue

set_option autoImplicit false

/-!
# The calls of the program

`Eff` lists everything the code does outside its own memory, `Eff.Resp` what comes back, and
`Code α` is a program over these calls that throws an `Err` or returns an `α`. Each call is one
atomic step of an execution; other executions may run between any two of them.

`Env` adds to the configuration the functions of the runtime the code uses as they are: HMAC-SHA256,
`JSON.stringify` of the outbound body and `Date.prototype.toISOString`.
-/

namespace WebhookEngine

open EffectProg

/-- The object `processDelivery` passes to `JSON.stringify`. -/
structure OutboundBody where
  eventId : EventId
  eventType : String
  createdAt : String
  data : String

structure Env extends Config where
  hmacSha256Hex : String → String → String
  stringify : OutboundBody → String
  toISOString : Time → String

structure HttpRequest where
  url : String
  body : String
  headers : List (String × String)

/-- A value thrown by undici: whether it is an `Error`, its name, its message and its `code`, which
nothing in the engine reads. -/
structure JsError where
  isError : Bool
  name : String
  message : String
  code : Option String := none

/-- How the HTTP exchange ends: a status with the whole body text, or a thrown value. -/
inductive HttpReply where
  | response (status : ℕ) (text : String)
  | thrown (e : JsError)

/-- **The calls.** -/
inductive Eff where
  | sql (q : Sql)
  | redis (c : RedisCmd)
  | sendIdem (key : String) (ev : EventId)
  | queueAdd (id : JobId) (d : DeliveryId)
  | dlqAdd (d : IdText)
  | moveToDelayed (id : JobId) (until_ : Time)
  | httpStart (req : HttpRequest)
  | httpAwait
  | setInterval
  | clearInterval
  | readLockLost
  | dateNow
  | mathRandom
  | isOverloaded
  | alert (delivery : DeliveryForWorker) (last : Option LastAttemptSummary)

/-- The answers. `Math.random()` is `k / 2 ^ 53` for the `k` answered. -/
def Eff.Resp : Eff → Type
  | .sql q => Except Err q.Ret
  | .redis c => Except Err c.Ret
  | .sendIdem _ _ => Unit
  | .queueAdd _ _ => Except Err Unit
  | .dlqAdd _ => Except Err Unit
  | .moveToDelayed _ _ => Except Err Unit
  | .httpStart _ => Unit
  | .httpAwait => HttpReply
  | .setInterval => Unit
  | .clearInterval => Unit
  | .readLockLost => Bool
  | .dateNow => Time
  | .mathRandom => ℕ
  | .isOverloaded => Except Err Bool
  | .alert _ _ => Unit

abbrev Code (α : Type) : Type := Prog Eff Eff.Resp Err α

/-- A call that cannot fail. -/
def call (e : Eff) : Code e.Resp := Prog.perform e

/-- A call that can: its error is thrown. -/
def await {α : Type} (e : Eff) (answer : e.Resp → Except Err α) : Code α :=
  (Prog.perform e).bind fun r => Prog.ofExcept (answer r)

def sql (q : Sql) : Code q.Ret := await (.sql q) fun r => r

def redis (c : RedisCmd) : Code c.Ret := await (.redis c) fun r => r

def queueAdd (id : JobId) (d : DeliveryId) : Code Unit := await (.queueAdd id d) fun r => r

def dlqAdd (d : IdText) : Code Unit := await (.dlqAdd d) fun r => r

def moveToDelayed (id : JobId) (until_ : Time) : Code Unit :=
  await (.moveToDelayed id until_) fun r => r

def isOverloaded : Code Bool := await .isOverloaded fun r => r

def dateNow : Code Time := call .dateNow

def mathRandom : Code ℕ := call .mathRandom

end WebhookEngine
