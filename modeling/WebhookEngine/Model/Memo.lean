import Mathlib.Data.List.Basic

set_option autoImplicit false

/-!
# `memoTtl`

The memoised function, called any number of times while the promises of `fn` settle in any order. What
runs between two awaits is one step.

* `Invocation`: how far a promise of `fn` is on its way through `then` and `catch`.
* `Memo`: the two cells of the closure, with the invocations and the calls so far.
* `Memo.call`, `Memo.react`: the function of the source and its two handlers.
* `memoStep`: the system.
-/

namespace WebhookEngine

variable {T E : Type}

/-- A promise of `fn` with what hangs on it, `fn().then(...).catch(...)`. -/
inductive Invocation (T E : Type) where
  /-- Not settled. -/
  | running
  /-- Fulfilled; the handler of `then` is due. -/
  | resolved (value : T)
  /-- Rejected; `then` has no handler for it. -/
  | rejected (err : E)
  /-- The promise of `then` is rejected; the handler of `catch` is due. -/
  | passed (err : E)
  /-- The handler of `then` has run, at that time. -/
  | completed (value : T) (time : ℕ)
  /-- The promise of `catch`, which the callers have, is fulfilled. -/
  | fulfilled (value : T) (time : ℕ)
  /-- The handler of `catch` has run, and the promise is rejected. -/
  | failed (err : E)
  deriving DecidableEq

/-- `memoTtl` has not heard of the end of the invocation. -/
def Invocation.outstanding : Invocation T E → Bool
  | .running | .resolved _ | .rejected _ | .passed _ => true
  | _ => false

/-- Where the answer to a call comes from. -/
inductive Source (T : Type) where
  | cached (value : T)
  | shares (i : ℕ)
  deriving DecidableEq

/-- A call of the memoised function, and the answer it has got. -/
structure MemoCall (T E : Type) where
  source : Source T
  answer : Option (Except E T)
  deriving DecidableEq

/-- `cached` with the time it is good for, `pending` with the number of its invocation, and what has
happened so far. -/
structure Memo (T E : Type) where
  now : ℕ := 0
  cached : Option (T × ℕ) := none
  pending : Option ℕ := none
  invocations : List (Invocation T E) := []
  calls : List (MemoCall T E) := []

namespace Memo

/-- The value of `cached` that has not expired. -/
def fresh (m : Memo T E) : Option T :=
  m.cached.bind fun c => if c.2 > m.now then some c.1 else none

/-- The call starts an invocation: `pending = fn().then(...).catch(...)`. -/
def start (m : Memo T E) : Memo T E :=
  { m with
    invocations := m.invocations ++ [.running]
    pending := some m.invocations.length
    calls := m.calls ++ [⟨.shares m.invocations.length, none⟩] }

/-- **The memoised function.** -/
def call (m : Memo T E) : Memo T E :=
  match m.fresh with
  | some value => { m with calls := m.calls ++ [⟨.cached value, some (.ok value)⟩] }
  | none =>
    match m.pending with
    | some i => { m with calls := m.calls ++ [⟨.shares i, none⟩] }
    | none => m.start

def set (m : Memo T E) (i : ℕ) (p : Invocation T E) : Memo T E :=
  { m with invocations := m.invocations.set i p }

/-- The promise of `fn` settles. -/
def settle (m : Memo T E) (i : ℕ) (result : Except E T) : Option (Memo T E) :=
  match m.invocations[i]?, result with
  | some .running, .ok value => some (m.set i (.resolved value))
  | some .running, .error err => some (m.set i (.rejected err))
  | _, _ => none

/-- **The next reaction of an invocation**: the handlers of `then` and `catch`, and what becomes of
their promises. -/
def react (ttlMs : ℕ) (m : Memo T E) (i : ℕ) : Option (Memo T E) :=
  match m.invocations[i]? with
  | some (.resolved value) =>
    some { m.set i (.completed value m.now) with cached := some (value, m.now + ttlMs), pending := none }
  | some (.rejected err) => some (m.set i (.passed err))
  | some (.passed err) => some { m.set i (.failed err) with pending := none }
  | some (.completed value time) => some (m.set i (.fulfilled value time))
  | _ => none

/-- What the promise of an invocation, once it is settled, gives to a caller. -/
def outcome (m : Memo T E) (i : ℕ) : Option (Except E T) :=
  match m.invocations[i]? with
  | some (.fulfilled value _) => some (.ok value)
  | some (.failed err) => some (.error err)
  | _ => none

/-- The call gets the answer of the invocation it shares. -/
def deliver (m : Memo T E) (c : ℕ) : Option (Memo T E) :=
  match m.calls[c]? with
  | some ⟨.shares i, none⟩ => (m.outcome i).map fun r =>
      { m with calls := m.calls.set c ⟨.shares i, some r⟩ }
  | _ => none

end Memo

/-- What can happen: the clock goes on, a call, a promise of `fn` settles, a reaction, an answer. -/
inductive MemoLabel (T E : Type) where
  | tick (ms : ℕ)
  | call
  | settle (i : ℕ) (result : Except E T)
  | react (i : ℕ)
  | deliver (c : ℕ)

/-- **The memoised function and its promises.** -/
def memoStep (ttlMs : ℕ) (m : Memo T E) : MemoLabel T E → Option (Memo T E)
  | .tick ms => some { m with now := m.now + ms }
  | .call => some m.call
  | .settle i result => m.settle i result
  | .react i => m.react ttlMs i
  | .deliver c => m.deliver c

end WebhookEngine
