import WebhookEngine.Model.Memo

set_option autoImplicit false

/-!
# Backpressure

`isOverloaded`: the depth of the queue, read through `memoTtl`. Any number of requests ask for it, while
the queue grows and shrinks and the commands that read it are on their way.

* `JobCounts.overloaded`: `isOverloaded` after `getCounts`.
* `Gauge`, `gaugeStep`: the queue, the commands, and the memoised function.
-/

namespace WebhookEngine

/-- What `getJobCounts('wait', 'delayed')` answers. -/
structure JobCounts where
  wait : Option ℕ := none
  delayed : Option ℕ := none
  deriving DecidableEq

/-- `depth`. -/
def JobCounts.depth (counts : JobCounts) : ℕ := counts.wait.getD 0 + counts.delayed.getD 0

/-- What `isOverloaded` makes of the counts; `limit` is `BACKPRESSURE_QUEUE_LIMIT`. -/
def JobCounts.overloaded (limit : ℕ) (counts : JobCounts) : Bool := decide (counts.depth > limit)

/-- A command that reads the counts: when it was sent, and what Redis has answered. -/
structure CountsFetch where
  sentAt : ℕ
  answer : Option JobCounts := none
  deriving DecidableEq

/-- The memoised `getCounts`, the counts of the queue, and the commands, one for each invocation. `past`
has all counts of the queue so far with their times, `askedAt` the time of each call. -/
structure Gauge (E : Type) where
  memo : Memo JobCounts E := {}
  queue : JobCounts := {}
  past : List (ℕ × JobCounts) := [(0, {})]
  fetches : List CountsFetch := []
  askedAt : List ℕ := []

namespace Gauge

variable {E : Type}

/-- A command is sent for an invocation that is new. -/
def send (g : Gauge E) : List CountsFetch :=
  if g.memo.call.invocations.length = g.memo.invocations.length then g.fetches
  else g.fetches ++ [{ sentAt := g.memo.now }]

/-- `isOverloaded` is called. -/
def call (g : Gauge E) : Gauge E :=
  { g with memo := g.memo.call, fetches := g.send, askedAt := g.askedAt ++ [g.memo.now] }

/-- Redis reads the counts. -/
def read (g : Gauge E) (i : ℕ) : Option (Gauge E) :=
  match g.fetches[i]? with
  | some ⟨sentAt, none⟩ => some { g with fetches := g.fetches.set i ⟨sentAt, some g.queue⟩ }
  | _ => none

/-- The answer of Redis arrives. -/
def arrive (g : Gauge E) (i : ℕ) : Option (Gauge E) :=
  match g.fetches[i]? with
  | some ⟨_, some counts⟩ => (g.memo.settle i (.ok counts)).map fun m => { g with memo := m }
  | _ => none

end Gauge

/-- What can happen: the clock goes on, jobs come and go, a request asks, and the steps of the commands
and of `memoTtl`. -/
inductive GaugeLabel (E : Type) where
  | tick (ms : ℕ)
  | jobs (counts : JobCounts)
  | call
  | read (i : ℕ)
  | arrive (i : ℕ)
  | fail (i : ℕ) (err : E)
  | react (i : ℕ)
  | deliver (c : ℕ)

/-- **The queue and who asks for its depth.** -/
def gaugeStep {E : Type} (ttlMs : ℕ) (g : Gauge E) : GaugeLabel E → Option (Gauge E)
  | .tick ms => some { g with
      memo := { g.memo with now := g.memo.now + ms }
      past := g.past ++ [(g.memo.now + ms, g.queue)] }
  | .jobs counts => some { g with queue := counts, past := g.past ++ [(g.memo.now, counts)] }
  | .call => some g.call
  | .read i => g.read i
  | .arrive i => g.arrive i
  | .fail i err => (g.memo.settle i (.error err)).map fun m => { g with memo := m }
  | .react i => (g.memo.react ttlMs i).map fun m => { g with memo := m }
  | .deliver c => (g.memo.deliver c).map fun m => { g with memo := m }

end WebhookEngine
