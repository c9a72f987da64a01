import WebhookEngine.Model.Schema

set_option autoImplicit false

/-!
# Redis

The `wh:` key space, each family of keys a map of its own with its expiry times; a key whose expiry
time has come is absent. `RedisCmd.exec` is one command or one Lua script of `redis/scripts/`, which
Redis runs atomically.
-/

namespace WebhookEngine

/-- `wh:lock`, `wh:cb:…:fails`, `wh:cb:…:open`, `wh:cb:…:probe`, `wh:rl` and `wh:idem`. A counter can
be without an expiry time between its creation and the EXPIRE that follows. -/
structure Redis where
  lock : IdText → Option (Tid × Time) := fun _ => none
  fails : EndpointId → Option (ℕ × Option Time) := fun _ => none
  opened : EndpointId → Option Time := fun _ => none
  probe : EndpointId → Option Time := fun _ => none
  bucket : EndpointId → Option (Int × Option Time) := fun _ => none
  idem : String → Option (EventId × Time) := fun _ => none

namespace Redis

/-- The stored, unexpired token of `wh:lock:{d}`. -/
def lockAt (r : Redis) (now : Time) (d : IdText) : Option Tid :=
  (r.lock d).bind fun e => if now < e.2 then some e.1 else none

def failsEntry (r : Redis) (now : Time) (ep : EndpointId) : Option (ℕ × Option Time) :=
  (r.fails ep).filter fun e => e.2.all fun exp => now < exp

def bucketEntry (r : Redis) (now : Time) (ep : EndpointId) : Option (Int × Option Time) :=
  (r.bucket ep).filter fun e => e.2.all fun exp => now < exp

def openAt (r : Redis) (now : Time) (ep : EndpointId) : Bool := (r.opened ep).any fun exp => now < exp

def probeAt (r : Redis) (now : Time) (ep : EndpointId) : Bool := (r.probe ep).any fun exp => now < exp

/-- The unexpired event id under a `wh:idem` key. -/
def idemAt (r : Redis) (now : Time) (key : String) : Option EventId :=
  (r.idem key).bind fun e => if now < e.2 then some e.1 else none

end Redis

/-- The commands the code waits for. -/
inductive RedisCmd where
  | setLock (d : IdText) (token : Tid) (ttlMs : ℕ)
  | evalReleaseLock (d : IdText) (token : Tid)
  | existsOpen (ep : EndpointId)
  | getFails (ep : EndpointId)
  | setProbe (ep : EndpointId) (ttlSeconds : ℕ)
  | incrFails (ep : EndpointId)
  | expireFails (ep : EndpointId) (ttlSeconds : ℕ)
  | setOpen (ep : EndpointId) (ttlSeconds : ℕ)
  | delFailsProbe (ep : EndpointId)
  | delProbe (ep : EndpointId)
  | evalTokenBucket (ep : EndpointId) (maxTokens ttlSeconds : ℕ)
  | hincrbyTokens (ep : EndpointId)
  | hsetTokens (ep : EndpointId) (tokens : ℕ)
  | expireTokens (ep : EndpointId) (ttlSeconds : ℕ)
  | getIdem (key : String)

def RedisCmd.Ret : RedisCmd → Type
  | .setLock _ _ _ => Bool
  | .evalReleaseLock _ _ => Bool
  | .existsOpen _ => Bool
  | .getFails _ => Option ℕ
  | .setProbe _ _ => Bool
  | .incrFails _ => ℕ
  | .expireFails _ _ => Unit
  | .setOpen _ _ => Unit
  | .delFailsProbe _ => Unit
  | .delProbe _ => Unit
  | .evalTokenBucket _ _ _ => Int
  | .hincrbyTokens _ => Int
  | .hsetTokens _ _ => Unit
  | .expireTokens _ _ => Unit
  | .getIdem _ => Option EventId

/-- `extend_lock.lua`: PEXPIRE if the stored token is ours. -/
def Redis.extendLock (r : Redis) (now : Time) (d : IdText) (token : Tid) (ttlMs : ℕ) :
    Redis × Bool :=
  if r.lockAt now d = some token then
    ({ r with lock := Function.update r.lock d (some (token, now + ttlMs)) }, true)
  else (r, false)

/-- **One command.** -/
def RedisCmd.exec (now : Time) (r : Redis) : (c : RedisCmd) → Redis × c.Ret
  | .setLock d token ttl =>
    if r.lockAt now d = none then
      ({ r with lock := Function.update r.lock d (some (token, now + ttl)) }, true)
    else (r, false)
  | .evalReleaseLock d token =>
    if r.lockAt now d = some token then
      ({ r with lock := Function.update r.lock d none }, true)
    else (r, false)
  | .existsOpen ep => (r, r.openAt now ep)
  | .getFails ep => (r, (r.failsEntry now ep).map (·.1))
  | .setProbe ep ttl =>
    if r.probeAt now ep then (r, false)
    else ({ r with probe := Function.update r.probe ep (some (now + ttl * 1000)) }, true)
  | .incrFails ep =>
    let e := (r.failsEntry now ep).getD (0, none)
    ({ r with fails := Function.update r.fails ep (some (e.1 + 1, e.2)) }, e.1 + 1)
  | .expireFails ep ttl =>
    let e := (r.failsEntry now ep).map fun e => (e.1, some (now + ttl * 1000))
    ({ r with fails := Function.update r.fails ep e }, ())
  | .setOpen ep ttl =>
    ({ r with opened := Function.update r.opened ep (some (now + ttl * 1000)) }, ())
  | .delFailsProbe ep =>
    ({ r with fails := Function.update r.fails ep none
              probe := Function.update r.probe ep none }, ())
  | .delProbe ep => ({ r with probe := Function.update r.probe ep none }, ())
  | .evalTokenBucket ep maxTokens ttl =>
    let tokens : Int := ((r.bucketEntry now ep).map (·.1)).getD (maxTokens : Int)
    if tokens ≤ 0 then (r, (-1 : Int))
    else
      let e : Int × Option Time := (tokens - 1, some (now + ttl * 1000))
      ({ r with bucket := Function.update r.bucket ep (some e) }, (tokens - 1 : Int))
  | .hincrbyTokens ep =>
    let e := (r.bucketEntry now ep).getD (0, none)
    ({ r with bucket := Function.update r.bucket ep (some (e.1 + 1, e.2)) }, e.1 + 1)
  | .hsetTokens ep tokens =>
    let e := (r.bucketEntry now ep).getD (0, none)
    ({ r with bucket := Function.update r.bucket ep (some ((tokens : Int), e.2)) }, ())
  | .expireTokens ep ttl =>
    let e := (r.bucketEntry now ep).map fun e => (e.1, some (now + ttl * 1000))
    ({ r with bucket := Function.update r.bucket ep e }, ())
  | .getIdem key => (r, r.idemAt now key)

/-- A key that can be evicted. -/
inductive RedisKey where
  | lock (d : IdText)
  | fails (ep : EndpointId)
  | opened (ep : EndpointId)
  | probe (ep : EndpointId)
  | bucket (ep : EndpointId)
  | idem (key : String)

def Redis.evict (r : Redis) : RedisKey → Redis
  | .lock d => { r with lock := Function.update r.lock d none }
  | .fails ep => { r with fails := Function.update r.fails ep none }
  | .opened ep => { r with opened := Function.update r.opened ep none }
  | .probe ep => { r with probe := Function.update r.probe ep none }
  | .bucket ep => { r with bucket := Function.update r.bucket ep none }
  | .idem key => { r with idem := Function.update r.idem key none }

/-- `SET key event_id EX ttl`. -/
def Redis.setIdem (r : Redis) (now : Time) (key : String) (ev : EventId) (ttlSeconds : ℕ) : Redis :=
  { r with idem := Function.update r.idem key (some (ev, now + ttlSeconds * 1000)) }

end WebhookEngine
