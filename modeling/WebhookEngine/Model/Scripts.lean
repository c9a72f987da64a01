import WebhookEngine.Lib.Run
import WebhookEngine.Model.System

set_option autoImplicit false

/-!
# Scripts by digest

`redis/scripts.ts`: a script is uploaded once with SCRIPT LOAD and from then on run by its digest;
when Redis has forgotten it, it is uploaded again and the call made a second time.

* `ScriptServer`: the server, with the scripts it has loaded;
* `LoadedScript.boot`, `LoadedScript.eval`: the class, for any scripts;
* `ScriptSystem`: any number of objects of the class and of calls to them, interleaved command by
  command, over a server that may forget its scripts at any moment;
* `AtomicSystem`: the same calls, each one atomic step, which is how the model has them;
* `LuaScript`, `ScriptCall`: the three scripts of the engine.
-/

namespace WebhookEngine

open EffectProg TransitionSystem

/-- `isNoScriptError`. -/
def isNoScriptError (err : JsError) : Bool := err.isError && jsIncludes err.message "NOSCRIPT"

/-- The answer to an EVALSHA of a digest the server does not know. -/
def noScript : JsError where
  isError := true
  name := "ReplyError"
  message := "NOSCRIPT No matching script. Please use EVAL."

/-- A failure of a command, other than by that answer. -/
abbrev Failure : Type := {e : JsError // isNoScriptError e = false}

/-- How a command goes: answered, failed before it took effect, or its answer lost. -/
inductive Transport where
  | answered
  | lost (e : Failure)
  | unanswered (e : Failure)

def Transport.run {ω α : Type} (tr : Transport) (w : ω) (f : ω × Except JsError α) :
    ω × Except JsError α :=
  match tr with
  | .answered => f
  | .lost e => (w, .error e)
  | .unanswered e => (f.1, .error e)

/-- What the server knows of scripts `S`: their digests, and what they do to the data `D` when run
on keys and arguments `A`. -/
structure ScriptHost (S A D V : Type) where
  sha1 : S → String
  run : S → A → D → D × V

/-- The server: what it stores, and the scripts it has loaded, by their digest. -/
structure ScriptServer (S D : Type) where
  data : D
  loaded : String → Option S := fun _ => none

variable {S A D V W : Type}

/-- SCRIPT LOAD. -/
def ScriptServer.scriptLoad (host : ScriptHost S A D V) (server : ScriptServer S D) (source : S) :
    ScriptServer S D × Except JsError String :=
  ({ server with loaded := Function.update server.loaded (host.sha1 source) (some source) },
    .ok (host.sha1 source))

/-- EVALSHA; an undefined digest is sent as the empty string, which no script has. -/
def ScriptServer.evalsha (host : ScriptHost S A D V) (server : ScriptServer S D)
    (sha : Option String) (args : A) : ScriptServer S D × Except JsError V :=
  match sha.bind server.loaded with
  | some source =>
    let (data, value) := host.run source args server.data
    ({ server with data := data }, .ok value)
  | none => (server, .error noScript)

/-- The calls of the class: its own fields and the two commands. -/
inductive ScriptEff (S A : Type) where
  | ready
  | getSha
  | setSha (sha : String)
  | scriptLoad (source : S)
  | evalsha (sha : Option String) (args : A)

variable (V) in
def ScriptEff.Resp : ScriptEff S A → Type
  | .ready => Except JsError Unit
  | .getSha => Option String
  | .setSha _ => Unit
  | .scriptLoad _ => Except JsError String
  | .evalsha _ _ => Except JsError V

abbrev ScriptCode (S A V α : Type) : Type := Prog (ScriptEff S A) (ScriptEff.Resp V) JsError α

namespace LoadedScript

/-- A command whose error is thrown. -/
def await {α : Type} (e : ScriptEff S A) (answer : e.Resp V → Except JsError α) :
    ScriptCode S A V α :=
  (Prog.perform e).bind fun r => Prog.ofExcept (answer r)

def ready : ScriptCode S A V Unit := await .ready fun r => r

def getSha : ScriptCode S A V (Option String) := .op .getSha .ret

def setSha (sha : String) : ScriptCode S A V Unit := .op (.setSha sha) .ret

def scriptLoad (source : S) : ScriptCode S A V String := await (.scriptLoad source) fun r => r

def evalsha (sha : Option String) (args : A) : ScriptCode S A V V :=
  await (.evalsha sha args) fun r => r

/-- The function the constructor starts; `ready` is its promise. -/
def boot (source : S) : ScriptCode S A V Unit := do
  let sha ← scriptLoad source
  setSha sha

/-- `LoadedScript.eval`. -/
def eval (source : S) (args : A) : ScriptCode S A V V := do
  ready
  Prog.tryCatch (do evalsha (← getSha) args) fun err => do
    if !isNoScriptError err then Prog.raise err
    else
      let sha ← scriptLoad source
      setSha sha
      evalsha (← getSha) args

end LoadedScript

/-- An object of the class; `booting` is what is left of the constructor's function. -/
structure LoadedScript (S A V : Type) where
  source : S
  sha : Option String := none
  booting : ScriptCode S A V Unit := LoadedScript.boot source

/-- A call of `eval` on object `obj`: what is left of it, and the calls it has made, latest first. -/
structure EvalCall (S A V : Type) where
  obj : ℕ
  source : S
  args : A
  prog : ScriptCode S A V V := LoadedScript.eval source args
  trace : List (Σ e : ScriptEff S A, e.Resp V) := []

structure ScriptSystem (S A D V : Type) where
  server : ScriptServer S D
  objs : List (LoadedScript S A V) := []
  calls : List (EvalCall S A V) := []

/-- What can happen next; `W` is what else is done to the data. -/
inductive ScriptLabel (S A W : Type) where
  | other (w : W)
  | forget
  | create (source : S)
  | boot (obj : ℕ) (tr : Transport)
  | call (obj : ℕ) (args : A)
  | op (i : ℕ) (tr : Transport)

/-- **The effect of one call** of an object; `none` while it has to wait. -/
def ScriptServer.perform (host : ScriptHost S A D V) (server : ScriptServer S D)
    (o : LoadedScript S A V) (tr : Transport) :
    (e : ScriptEff S A) → Option (ScriptServer S D × LoadedScript S A V × e.Resp V)
  | .ready =>
    match o.booting with
    | .ret _ => some (server, o, .ok ())
    | .raise err => some (server, o, .error err)
    | .op _ _ => none
  | .getSha => some (server, o, o.sha)
  | .setSha sha => some (server, { o with sha := some sha }, ())
  | .scriptLoad source =>
    let (server, r) := tr.run server (server.scriptLoad host source)
    some (server, o, r)
  | .evalsha sha args =>
    let (server, r) := tr.run server (server.evalsha host sha args)
    some (server, o, r)

namespace ScriptSystem

variable (host : ScriptHost S A D V) (act : W → D → D)

/-- The constructor's function of an object makes its next call. -/
def stepBoot (s : ScriptSystem S A D V) (obj : ℕ) (tr : Transport) :
    Option (ScriptSystem S A D V) :=
  s.objs[obj]?.bind fun o =>
    match o.booting with
    | .op e k => (s.server.perform host o tr e).map fun (server, o, r) =>
        { s with server := server, objs := s.objs.set obj { o with booting := k r } }
    | .ret _ => none
    | .raise _ => none

/-- A call of `eval` makes its next call. -/
def stepOp (s : ScriptSystem S A D V) (i : ℕ) (tr : Transport) : Option (ScriptSystem S A D V) :=
  s.calls[i]?.bind fun c => s.objs[c.obj]?.bind fun o =>
    match c.prog with
    | .op e k => (s.server.perform host o tr e).map fun (server, o, r) =>
        { server := server
          objs := s.objs.set c.obj o
          calls := s.calls.set i { c with prog := k r, trace := ⟨e, r⟩ :: c.trace } }
    | .ret _ => none
    | .raise _ => none

/-- **The transition function.** -/
def step (s : ScriptSystem S A D V) : ScriptLabel S A W → Option (ScriptSystem S A D V)
  | .other w => some { s with server := { s.server with data := act w s.server.data } }
  | .forget => some { s with server := { s.server with loaded := fun _ => none } }
  | .create source => some { s with objs := s.objs ++ [{ source := source }] }
  | .boot obj tr => s.stepBoot host obj tr
  | .call obj args => s.objs[obj]?.map fun o =>
      { s with calls := s.calls ++ [{ obj := obj, source := o.source, args := args }] }
  | .op i tr => s.stepOp host i tr

end ScriptSystem

/-! ## Atomic calls -/

/-- A call that is one step: its result once it has been taken. -/
structure AtomicCall (S A V : Type) where
  source : S
  args : A
  result : Option (Except Err V) := none

structure AtomicSystem (S A D V : Type) where
  data : D
  calls : List (AtomicCall S A V) := []

inductive AtomicLabel (S A W : Type) where
  | other (w : W)
  | call (source : S) (args : A)
  | run (i : ℕ) (fault : Fault)

/-- Calls that have no result yet are taken in any order, each with the effect the model gives to a
call to Redis. -/
def AtomicSystem.step (host : ScriptHost S A D V) (act : W → D → D) (s : AtomicSystem S A D V) :
    AtomicLabel S A W → Option (AtomicSystem S A D V)
  | .other w => some { s with data := act w s.data }
  | .call source args => some { s with calls := s.calls ++ [{ source := source, args := args }] }
  | .run i fault =>
    (s.calls[i]?.filter fun c => c.result.isNone).map fun c =>
      let (data, r) := fault.run s.data (host.run c.source c.args s.data)
      { data := data, calls := s.calls.set i { c with result := some r } }

/-! ## The scripts of the engine -/

inductive LuaScript where
  | releaseLock
  | extendLock
  | tokenBucket
  deriving DecidableEq

/-- The keys and arguments of a script. -/
inductive ScriptCall where
  | releaseLock (d : IdText) (token : Tid)
  | extendLock (d : IdText) (token : Tid) (ttlMs : ℕ)
  | tokenBucket (ep : EndpointId) (maxTokens ttlSeconds : ℕ)

def ScriptCall.script : ScriptCall → LuaScript
  | .releaseLock _ _ => .releaseLock
  | .extendLock _ _ _ => .extendLock
  | .tokenBucket _ _ _ => .tokenBucket

/-- What a script does with its own arguments; Lua's `true` and `false` are DEL's and PEXPIRE's 1 and
the script's 0. -/
def ScriptCall.exec (now : Time) (r : Redis) : ScriptCall → Redis × Int
  | .releaseLock d token =>
    let (r, (released : Bool)) := (RedisCmd.evalReleaseLock d token).exec now r
    (r, if released then 1 else 0)
  | .extendLock d token ttlMs =>
    let (r, held) := r.extendLock now d token ttlMs
    (r, if held then 1 else 0)
  | .tokenBucket ep maxTokens ttlSeconds =>
    (RedisCmd.evalTokenBucket ep maxTokens ttlSeconds).exec now r

/-- The engine's scripts, with whatever digests they have. Nothing passes a script the arguments of
another. -/
def engineScripts (sha1 : LuaScript → String) :
    ScriptHost LuaScript ScriptCall (Time × Redis) Int where
  sha1 := sha1
  run := fun script call (now, r) =>
    if call.script = script then
      let (r, value) := call.exec now r
      ((now, r), value)
    else ((now, r), 0)

/-- What else happens to the clock and the keys. -/
inductive RedisLife where
  | tick (ms : ℕ)
  | cmd (c : RedisCmd)
  | evict (key : RedisKey)
  | flush

def RedisLife.act : RedisLife → Time × Redis → Time × Redis
  | .tick ms, (now, r) => (now + ms, r)
  | .cmd c, (now, r) => (now, (c.exec now r).1)
  | .evict key, (now, r) => (now, r.evict key)
  | .flush, (now, _) => (now, {})

end WebhookEngine
