import WebhookEngine.Model.Schema

set_option autoImplicit false

/-!
# The BullMQ queues

`webhook-delivery` holds jobs by id: adding an id that exists in any state does nothing, failed jobs
are kept (`removeOnFail: false`), completed ones may be removed later. `webhook-dlq` has no worker
and holds one job per text of a delivery id.
-/

namespace WebhookEngine

inductive JobState where
  | waiting
  | delayed
  | active
  | completed
  | failed
  deriving DecidableEq, Repr

/-- A job; `owner` is the execution that holds BullMQ's lock on it while it is active, and
`stalledCounter` how often it was taken from one. -/
structure Job where
  id : JobId
  deliveryId : DeliveryId
  state : JobState := .waiting
  attemptsMade : ℕ := 0
  owner : Option Tid := none
  stalledCounter : ℕ := 0
  deriving DecidableEq

/-- `maxStalledCount` of the worker: how often a job that stalled is handed out again. -/
def maxStalledCount : ℕ := 1

/-- Waiting, delayed or active. -/
def Job.live (j : Job) : Bool :=
  match j.state with
  | .waiting => true
  | .delayed => true
  | .active => true
  | .completed => false
  | .failed => false

def Job.ref (j : Job) : JobRef := ⟨j.id, j.deliveryId, j.attemptsMade⟩

abbrev Jobs := List Job

namespace Jobs

def job? (js : Jobs) (id : JobId) : Option Job := js.find? fun j => j.id = id

/-- `queue.add` with a `jobId`. -/
def add (js : Jobs) (id : JobId) (d : DeliveryId) : Jobs :=
  if (job? js id).isSome then js else js ++ [{ id := id, deliveryId := d }]

def modify (js : Jobs) (id : JobId) (f : Job → Job) : Jobs :=
  js.map fun j => if j.id = id then f j else j

def remove (js : Jobs) (id : JobId) : Jobs := js.filter fun j => j.id ≠ id

/-- Some job for the delivery is waiting, delayed or active. -/
def hasLive (js : Jobs) (d : DeliveryId) : Bool := js.any fun j => j.deliveryId = d ∧ j.live

end Jobs

end WebhookEngine
