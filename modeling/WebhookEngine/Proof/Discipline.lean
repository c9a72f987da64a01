import WebhookEngine.Model.System

set_option autoImplicit false

/-!
# What the programs do

`Facts` is what the calls of an execution say about it so far: whether it holds the lock, the row it
read, the writes of its open transaction, and so on. `Script k m tx` lists the transactions an
execution of kind `k` may commit when its facts are `m`. The monitor `discipline` permits the calls
that fit.

* `safe_transition`, `safe_recordAttempt`, `safe_retryFromDlq`, `safe_ingestEvent`,
  `safe_claimUnenqueued`: one rule for each repository function;
* **`safe_program`**: every program of the system makes permitted calls only.
-/

namespace WebhookEngine

open EffectProg

/-- A write of an open transaction with the key it answered. -/
abbrev Entry := Stmt × ℕ

/-- What an execution's calls say about it. -/
structure Facts where
  /-- `acquire` succeeded and `release` was not called yet. -/
  holds : Bool := false
  /-- The row `getForDelivery` answered. -/
  row : Option DeliveryForWorker := none
  /-- The writes of the open transaction. -/
  tx : Option (List Entry) := none
  /-- The status `SELECT ... FOR UPDATE` answered. -/
  seen : Option Status := none
  /-- The rows the claiming SELECT answered. -/
  claimed : List DeliveryId := []
  /-- The deliveries for which `queue.add` was answered. -/
  added : List DeliveryId := []
  /-- Keys of the idempotency fast path with the committed events they stand for. -/
  named : List (String × EventId) := []
  /-- The COMMIT of a plain status change was answered. -/
  moved : Bool := false
  /-- The COMMIT of an attempt was sent, or a COMMIT or an `add` failed: no transaction and no `add`
  follows. -/
  spent : Bool := false
  sent : Option HttpRequest := none
  reply : Option HttpReply := none
  lost : Option Bool := none

def Stmt.isMove : Stmt → Bool
  | .updateStatus _ _ => true
  | _ => false

def Stmt.isRecord : Stmt → Bool
  | .insertAttempt _ => true
  | _ => false

/-- The event a write inserts, with its key in the idempotency fast path. -/
def Entry.named? : Entry → Option (String × EventId)
  | (.insertEvent c i _ _, g) => some (idemRedisKey c i, g)
  | _ => none

/-- The transaction contains a statement of the kind `p`. -/
def Facts.txHas (m : Facts) (p : Stmt → Bool) : Bool := (m.tx.getD []).any fun e => p e.1

/-- How the facts follow a call to Postgres. -/
def Facts.nextSql (m : Facts) : (q : Sql) → Except Err q.Ret → Facts
  | .begin, .ok _ => { m with tx := some [] }
  | .commit, .ok _ =>
    { m with
      tx := none
      named := (m.tx.getD []).filterMap Entry.named? ++ m.named
      moved := m.moved || m.txHas Stmt.isMove
      spent := m.spent || m.txHas Stmt.isRecord }
  | .commit, .error _ => { m with tx := none, spent := true }
  | .rollback, _ => { m with tx := none }
  | .write st, .ok (some g) => { m with tx := m.tx.map (· ++ [(st, g)]) }
  | .selectForDelivery _, .ok r => { m with row := r }
  | .selectUnenqueued _ _, .ok rows => { m with claimed := rows }
  | .selectStatusForUpdate _, .ok st => { m with seen := st }
  | .selectEventId c i, .ok ev =>
    { m with named := (ev.map fun ev => (idemRedisKey c i, ev)).toList ++ m.named }
  | _, _ => m

/-- How the facts follow a call. -/
def Facts.next (m : Facts) : (e : Eff) → e.Resp → Facts
  | .sql q, r => m.nextSql q r
  | .redis (.setLock _ _ _), .ok got => { m with holds := got }
  | .redis (.evalReleaseLock _ _), _ => { m with holds := false }
  | .queueAdd _ d, .ok _ => { m with added := d :: m.added }
  | .queueAdd _ _, .error _ => { m with spent := true }
  | .httpStart req, _ => { m with sent := some req }
  | .httpAwait, r => { m with reply := some r }
  | .readLockLost, b => { m with lost := some b }
  | _, _ => m

/-- The facts of an execution, from its calls, latest first. -/
def facts : List Event → Facts
  | [] => {}
  | ev :: trace => (facts trace).next ev.1 ev.2

/-- The status an attempt leads to. -/
def AttemptOutcome.toStatus (o : AttemptOutcome) : Status :=
  if o = .success then .delivered else .failed

/-- No transaction is open, no row lock was read under, and nothing was added to the queue. -/
structure Facts.Between (m : Facts) : Prop where
  tx : m.tx = none
  seen : m.seen = none
  added : m.added = []

/-- The execution holds the lock, has read the undelivered row `r` and may still write. -/
structure Facts.Working (m : Facts) (r : DeliveryForWorker) : Prop where
  holds : m.holds = true
  row : m.row = some r
  open_ : r.status.terminal = false
  unspent : m.spent = false

/-- The request is for the delivery: it names it in some text. -/
def HttpRequest.isFor (req : HttpRequest) (d : DeliveryId) : Prop :=
  ∃ n, ("x-webhook-id", (⟨d, n⟩ : IdText).spell) ∈ req.headers

/-- What justifies a SUCCESS: a request for the delivery, its 2xx response, and no lock loss seen when
the response was examined. -/
def Facts.Proven (m : Facts) (d : DeliveryId) : Prop :=
  (∃ req, m.sent = some req ∧ req.isFor d) ∧
    (∃ status text, m.reply = some (.response status text) ∧ 200 ≤ status ∧ status < 300) ∧
      m.lost = some false

/-- The execution goes through the rows of a claiming SELECT. -/
def Kind.claims (k : Kind) : Prop := k = .sweep ∨ ∃ limit, k = .repoCall (.claimUnenqueued limit)

/-- The execution is a request to retry the delivery `d`, in some text of its id. -/
def Kind.requestsRetry (k : Kind) (d : DeliveryId) : Prop := ∃ n, k = .postRetry ⟨d, n⟩

/-- The execution retries the delivery `d` from the DLQ. -/
def Kind.retries (k : Kind) (d : DeliveryId) : Prop :=
  k.requestsRetry d ∨ k = .repoCall (.retryFromDlq d)

/-- The execution ingests an event. -/
def Kind.ingests (k : Kind) : Prop :=
  (∃ req, k = .postEvent req) ∨ ∃ p, k = .repoCall (.ingestEvent p)

theorem Kind.retries.not_claims {k : Kind} {d : DeliveryId} (h : k.retries d) : ¬ k.claims := by
  rintro (rfl | ⟨limit, rfl⟩) <;> rcases h with ⟨n, h⟩ | h <;> cases h

theorem Kind.retries.unique {k : Kind} {d d' : DeliveryId} (h : k.retries d) (h' : k.retries d') :
    d = d' := by
  rcases h with ⟨n, rfl⟩ | rfl <;> rcases h' with ⟨n', h'⟩ | h' <;> cases h' <;> rfl

theorem Kind.ingests.not_claims {k : Kind} (h : k.ingests) : ¬ k.claims := by
  rintro (rfl | ⟨limit, rfl⟩) <;> rcases h with ⟨_, h⟩ | ⟨_, h⟩ <;> cases h

/-- The plain status changes: an execution of kind `k` with the facts `m` may move the delivery from
`f` (as it says) to `g`. -/
inductive Moves : Kind → Facts → DeliveryId → Status → Status → Actor → Prop where
  | mark {job : JobRef} {m : Facts} {r : DeliveryForWorker} (h : m.Working r)
      (hm : m.moved = false) : Moves (.deliver job) m job.deliveryId r.status .delivering .worker
  | exhaust {job : JobRef} {m : Facts} {r : DeliveryForWorker} (hr : m.row = some r)
      (hs : r.status ≠ .dlq) (hm : m.moved = false) (hsp : m.spent = false) :
      Moves (.failed job) m job.deliveryId r.status .dlq .worker
  | retry {k : Kind} {d : DeliveryId} {m : Facts} (hk : k.retries d) (hs : m.seen = some .dlq)
      (hm : m.moved = false) (hsp : m.spent = false) : Moves k m d .dlq .pending .manualRetry
  | call {d : DeliveryId} {f g : Status} {a : Actor} {reason : String} {m : Facts} :
      Moves (.repoCall (.transition d f g a reason)) m d f g a

/-- The attempts an execution of kind `k` with the facts `m` may record. -/
inductive Records : Kind → Facts → AttemptData → Status → Status → Option Time → Prop where
  | circuit {job : JobRef} {m : Facts} {r : DeliveryForWorker} {a : AttemptData} {next : Time}
      (h : m.Working r) (hm : m.moved = false) (hd : a.deliveryId = job.deliveryId)
      (hn : a.attemptNumber = r.attemptCount + 1) (ho : a.outcome = .circuitOpen) :
      Records (.deliver job) m a r.status .failed (some next)
  | outcome {job : JobRef} {m : Facts} {r : DeliveryForWorker} {a : AttemptData}
      {next : Option Time} (h : m.Working r) (hm : m.moved = true)
      (hd : a.deliveryId = job.deliveryId) (hn : a.attemptNumber = r.attemptCount + 1)
      (ho : a.outcome = .success → m.Proven job.deliveryId)
      (hnext : a.outcome ≠ .success → next.isSome = true) :
      Records (.deliver job) m a .delivering a.outcome.toStatus next
  | call {input : RecordAttemptInput} {m : Facts} :
      Records (.repoCall (.recordAttempt input)) m input.toAttemptData input.fromStatus
        input.toStatus input.nextAttemptAt

/-- **The transactions** an execution may commit, as the writes they consist of. -/
inductive Script (k : Kind) (m : Facts) : List Entry → Prop where
  | nil : Script k m []
  | move {d : DeliveryId} {f g : Status} {a : Actor} (h : Moves k m d f g a) (reason : String)
      (g₁ g₂ : ℕ) :
      Script k m [(.updateStatus d g, g₁), (.insertTransition d (some f) g reason a, g₂)]
  | record {a : AttemptData} {f g : Status} {next : Option Time} (h : Records k m a f g next)
      (reason : String) (g₁ g₂ g₃ : ℕ) :
      Script k m [(.insertAttempt a, g₁), (.updateAttempt a.deliveryId g next, g₂),
        (.insertTransition a.deliveryId (some f) g reason .worker, g₃)]
  | ingest (hk : k.ingests) (clientId idempotencyKey eventType payload : String) (ep : EndpointId)
      (ev d g : ℕ) :
      Script k m
        [(.insertEvent clientId idempotencyKey eventType payload, ev), (.insertDelivery ev ep, d),
          (.insertTransition d none .pending "created" .api, g)]
  | claim {tx : List Entry} (hk : k.claims)
      (h : ∀ e ∈ tx, ∃ d ∈ m.added, d ∈ m.claimed ∧ e.1 = .updateEnqueued d) : Script k m tx

/-- The statement may come next in the open transaction, or stands alone. -/
def mayWrite (k : Kind) (m : Facts) (st : Stmt) : Prop :=
  match m.tx with
  | some tx => ∀ g, ∃ rest, Script k m (tx ++ (st, g) :: rest)
  | none => ∃ d, st = .updateEnqueued d

/-- The calls to Postgres that fit. -/
def permitsSql (k : Kind) (m : Facts) : Sql → Prop
  | .begin => m.Between
  | .commit => ∃ tx, m.tx = some tx ∧ Script k m tx ∧ (k.claims → ∀ d ∈ m.claimed, d ∈ m.added)
  | .write st => mayWrite k m st
  | .selectForDelivery d => m.tx = none ∧ m.moved = false ∧ m.spent = false ∧ m.row = none ∧
      ((∃ job : JobRef, k = .deliver job ∧ d = job.deliveryId ∧ m.holds = true) ∨
        ∃ job : JobRef, k = .failed job ∧ d = job.deliveryId)
  | .selectStatusForUpdate d => m.tx = some [] ∧ m.moved = false ∧ m.spent = false ∧
      k.retries d
  | .selectUnenqueued _ _ => m.tx = some [] ∧ m.added = [] ∧ k.claims
  | .selectEventId _ _ => m.tx = some []
  | _ => True

/-- The calls that fit. -/
def permitsCall (t : Tid) (k : Kind) (m : Facts) : Eff → Prop
  | .sql q => permitsSql k m q
  | .redis (.setLock d token _) => ∃ job, k = .deliver job ∧ d = job.text ∧ token = t ∧
      m.row = none ∧ m.tx = none ∧ m.moved = false ∧ m.spent = false
  | .redis (.evalReleaseLock d token) => ∃ job, k = .deliver job ∧ d = job.text ∧ token = t ∧
      m.tx = none
  | .sendIdem key ev => (key, ev) ∈ m.named
  | .queueAdd id d =>
    ((∃ req, k = .postEvent req) ∨ (∃ c, k = .repoCall c) ∨ (k = .sweep ∧ d ∈ m.claimed)) ∧
        id = .delivery d ∨
      ∃ n, k = .postRetry ⟨d, n⟩ ∧ m.moved = true ∧ m.spent = false ∧ m.added = [] ∧
        ∃ ms, id = .retry ⟨d, n⟩ ms
  | .dlqAdd d => ∃ job, k = .failed job ∧ d = job.text ∧ m.moved = true
  | .moveToDelayed id _ => ∃ job, k = .deliver job ∧ id = job.id
  | .httpStart req => ∃ job r, k = .deliver job ∧ m.Working r ∧ m.moved = true ∧ m.sent = none ∧
      req.isFor job.deliveryId
  | .httpAwait => m.sent.isSome ∧ m.reply = none
  | .readLockLost => m.reply.isSome ∧ m.lost = none
  | _ => True

/-- A row that a transaction updates is there. -/
def expectsCall (m : Facts) : (e : Eff) → e.Resp → Prop
  | .sql (.write (.insertEvent _ _ _ _)), _ => True
  | .sql (.write _), r => m.tx.isSome → r ≠ .ok none
  | _, _ => True

/-- **The discipline** of execution `t` of kind `k`. -/
def discipline (t : Tid) (k : Kind) : Monitor Eff Eff.Resp Facts where
  next := Facts.next
  permits := permitsCall t k
  expects := expectsCall

section Rules

variable {t : Tid} {k : Kind} {m : Facts}

theorem safe_await {e : Eff} {α : Type} {answer : e.Resp → Except Err α}
    {Q : Facts → Except Err α → Prop} :
    Prog.Safe (discipline t k) m (await e answer) Q ↔
      permitsCall t k m e ∧ ∀ r, expectsCall m e r → Q (m.next e r) (answer r) := by
  unfold await
  rw [Prog.safe_bind]
  exact and_congr Iff.rfl (forall_congr' fun r => imp_congr Iff.rfl Prog.safe_ofExcept)

theorem safe_sql {q : Sql} {Q : Facts → Except Err q.Ret → Prop} :
    Prog.Safe (discipline t k) m (sql q) Q ↔
      permitsSql k m q ∧ ∀ r, expectsCall m (.sql q) r → Q (m.nextSql q r) r := safe_await

theorem safe_redis {c : RedisCmd} {Q : Facts → Except Err c.Ret → Prop} :
    Prog.Safe (discipline t k) m (redis c) Q ↔
      permitsCall t k m (.redis c) ∧ ∀ r, Q (m.next (.redis c) r) r :=
  safe_await.trans
    (and_congr Iff.rfl (forall_congr' fun _ => ⟨fun h => h trivial, fun h _ => h⟩))

theorem safe_queueAdd {id : JobId} {d : DeliveryId} {Q : Facts → Except Err Unit → Prop} :
    Prog.Safe (discipline t k) m (queueAdd id d) Q ↔
      permitsCall t k m (.queueAdd id d) ∧ ∀ r, Q (m.next (.queueAdd id d) r) r :=
  safe_await.trans
    (and_congr Iff.rfl (forall_congr' fun _ => ⟨fun h => h trivial, fun h _ => h⟩))

theorem safe_dlqAdd {d : IdText} {Q : Facts → Except Err Unit → Prop} :
    Prog.Safe (discipline t k) m (dlqAdd d) Q ↔
      permitsCall t k m (.dlqAdd d) ∧ ∀ r, Q m r :=
  safe_await.trans
    (and_congr Iff.rfl (forall_congr' fun _ => ⟨fun h => h trivial, fun h _ => h⟩))

theorem safe_moveToDelayed {id : JobId} {u : Time} {Q : Facts → Except Err Unit → Prop} :
    Prog.Safe (discipline t k) m (moveToDelayed id u) Q ↔
      permitsCall t k m (.moveToDelayed id u) ∧ ∀ r, Q m r :=
  safe_await.trans
    (and_congr Iff.rfl (forall_congr' fun _ => ⟨fun h => h trivial, fun h _ => h⟩))

theorem safe_call {e : Eff} {Q : Facts → Except Err e.Resp → Prop} :
    Prog.Safe (discipline t k) m (call e) Q ↔
      permitsCall t k m e ∧ ∀ r, expectsCall m e r → Q (m.next e r) (.ok r) := Iff.rfl

@[simp] theorem safe_dateNow {Q : Facts → Except Err Time → Prop} :
    Prog.Safe (discipline t k) m dateNow Q ↔ ∀ now, Q m (.ok now) :=
  ⟨fun h now => h.2 now trivial, fun h => ⟨trivial, fun now _ => h now⟩⟩

@[simp] theorem safe_mathRandom {Q : Facts → Except Err ℕ → Prop} :
    Prog.Safe (discipline t k) m mathRandom Q ↔ ∀ n, Q m (.ok n) :=
  ⟨fun h n => h.2 n trivial, fun h => ⟨trivial, fun n _ => h n⟩⟩

/-- The facts when a transaction has just begun. -/
abbrev Facts.begun (m : Facts) : Facts := { m with tx := some [] }

/-- The facts when a transaction is over. -/
abbrev Facts.closed (m : Facts) : Facts := { m with tx := none }

theorem Facts.closed_of_tx (h : m.tx = none) : m.closed = m := by
  cases m; cases h; rfl

/-- What a body of a transaction must establish for `Q` to hold after the handler rolled back. -/
def orUndone {α : Type} (Q : Facts → Except Err α → Prop) (m : Facts) : Except Err α → Prop
  | .ok a => Q m (.ok a)
  | .error _ => ∀ y, Q m.closed (.error y)

theorem safe_guarded {α : Type} {body : Code α} {Q : Facts → Except Err α → Prop}
    (h0 : m.Between)
    (hb : Prog.Safe (discipline t k) m.begun body (orUndone Q))
    (herr : ∀ y, Q m (.error y)) :
    Prog.Safe (discipline t k) m
      ((sql .connect).bind fun _ =>
        Prog.tryCatch ((sql .begin).bind fun _ => body)
          fun err => (sql .rollback).bind fun _ => Prog.raise err) Q := by
  have hrb : ∀ (m' : Facts) (x : Err), (∀ y, Q m'.closed (.error y)) →
      Prog.Safe (discipline t k) m' ((sql .rollback).bind fun _ => Prog.raise x) Q := by
    intro m' x h
    refine Prog.safe_bind.mpr (safe_sql.mpr ⟨trivial, fun r _ => ?_⟩)
    cases r with
    | ok _ => exact h x
    | error y => exact h y
  refine Prog.safe_bind.mpr (safe_sql.mpr ⟨trivial, fun r _ => ?_⟩)
  cases r with
  | error x => exact herr x
  | ok _ =>
    refine Prog.safe_tryCatch.mpr (Prog.safe_bind.mpr (safe_sql.mpr ⟨h0, fun r _ => ?_⟩))
    cases r with
    | error x => exact hrb m x (by rw [Facts.closed_of_tx h0.tx]; exact herr)
    | ok _ =>
      refine hb.mono fun m' r hr => ?_
      cases r with
      | error x => exact hrb m' x hr
      | ok a => exact hr

/-- **The rule of `withTx`**: the body ends with a transaction that may be committed. -/
theorem safe_withTx {α : Type} {fn : Code α} {Q : Facts → Except Err α → Prop} (h0 : m.Between)
    (hfn : Prog.Safe (discipline t k) m.begun fn fun m' r =>
      match r with
      | .ok a => permitsSql k m' .commit ∧ Q (m'.nextSql .commit (.ok ())) (.ok a) ∧
          ∀ y, Q { m'.closed with spent := true } (.error y)
      | .error _ => ∀ y, Q m'.closed (.error y))
    (herr : ∀ y, Q m (.error y)) : Prog.Safe (discipline t k) m (withTx fn) Q := by
  refine safe_guarded h0 (Prog.safe_bind.mpr (hfn.mono fun m' r hr => ?_)) herr
  cases r with
  | error x => exact hr
  | ok a =>
    refine Prog.safe_bind.mpr (safe_sql.mpr ⟨hr.1, fun r _ => ?_⟩)
    cases r with
    | ok _ => exact hr.2.1
    | error x => exact hr.2.2

theorem safe_write (st : Stmt) (tx : List Entry) (htx : m.tx = some tx)
    (hne : ∀ c i e p, st ≠ .insertEvent c i e p) {Q : Facts → Except Err (Option ℕ) → Prop}
    (hw : ∀ g, ∃ rest, Script k m (tx ++ (st, g) :: rest))
    (hok : ∀ g, Q { m with tx := some (tx ++ [(st, g)]) } (.ok (some g)))
    (herr : ∀ x, Q m (.error x)) :
    Prog.Safe (discipline t k) m (sql (.write st)) Q := by
  refine safe_sql.mpr ⟨?_, fun r hr => ?_⟩
  · change mayWrite k m st
    rw [mayWrite, htx]
    exact hw
  · match r, hr with
    | .error x, _ => exact herr x
    | .ok (some g), _ =>
      have h := hok g
      rw [show some (tx ++ [(st, g)]) = m.tx.map (· ++ [(st, g)]) by rw [htx]; rfl] at h
      exact h
    | .ok none, hr =>
      have : m.tx.isSome = true := by rw [htx]; rfl
      cases st with
      | insertEvent c i e p => exact absurd rfl (hne c i e p)
      | _ => exact absurd rfl (hr this)

theorem Facts.closed_with_tx (h : m.tx = none) (tx : Option (List Entry)) :
    ({ m with tx := tx } : Facts).closed = m := by
  cases m; cases h; rfl

/-- **The rule of `transition`.** -/
theorem safe_transition {d : DeliveryId} {f g : Status} {a : Actor} {reason : String}
    {Q : Facts → Except Err Unit → Prop} (h0 : m.Between)
    (hs : ∀ tx, Moves k { m with tx := tx } d f g a)
    (hcl : ¬ k.claims)
    (hok : Q { m with moved := true } (.ok ())) (herr : ∀ y, Q m (.error y))
    (hspent : ∀ y, Q { m with spent := true } (.error y)) :
    Prog.Safe (discipline t k) m (transition d f g a reason) Q := by
  refine safe_withTx h0 (Prog.safe_bind.mpr ?_) herr
  refine safe_write _ [] rfl (by simp) (fun g₁ => ⟨_, .move (hs _) reason g₁ 0⟩) (fun g₁ => ?_)
    (fun _ y => by rw [Facts.closed_with_tx h0.tx]; exact herr y)
  refine Prog.safe_bind.mpr ?_
  refine safe_write _ _ rfl (by simp) (fun g₂ => ⟨[], .move (hs _) reason g₁ g₂⟩) (fun g₂ => ?_)
    (fun _ y => by rw [Facts.closed_with_tx h0.tx]; exact herr y)
  refine ⟨⟨_, rfl, .move (hs _) reason g₁ g₂, fun h => absurd h hcl⟩, ?_, fun y => ?_⟩
  · simpa [Facts.nextSql, Facts.txHas, List.filterMap, Entry.named?, Stmt.isMove, Stmt.isRecord,
      h0.tx] using hok
  · simpa [h0.tx] using hspent y

/-- **The rule of `recordAttempt`.** -/
theorem safe_recordAttempt {input : RecordAttemptInput} {Q : Facts → Except Err Unit → Prop}
    (h0 : m.Between)
    (hs : ∀ tx, Records k { m with tx := tx } input.toAttemptData input.fromStatus input.toStatus
      input.nextAttemptAt)
    (hcl : ¬ k.claims)
    (hok : Q { m with spent := true } (.ok ())) (herr : ∀ y, Q m (.error y))
    (hspent : ∀ y, Q { m with spent := true } (.error y)) :
    Prog.Safe (discipline t k) m (recordAttempt input) Q := by
  refine safe_withTx h0 (Prog.safe_bind.mpr ?_) herr
  refine safe_write _ [] rfl (by simp) (fun g₁ => ⟨_, .record (hs _) input.reason g₁ 0 0⟩) (fun g₁ => ?_)
    (fun _ y => by rw [Facts.closed_with_tx h0.tx]; exact herr y)
  refine Prog.safe_bind.mpr ?_
  refine safe_write _ _ rfl (by simp) (fun g₂ => ⟨_, .record (hs _) input.reason g₁ g₂ 0⟩) (fun g₂ => ?_)
    (fun _ y => by rw [Facts.closed_with_tx h0.tx]; exact herr y)
  refine Prog.safe_bind.mpr ?_
  refine safe_write _ _ rfl (by simp) (fun g₃ => ⟨[], .record (hs _) input.reason g₁ g₂ g₃⟩) (fun g₃ => ?_)
    (fun _ y => by rw [Facts.closed_with_tx h0.tx]; exact herr y)
  refine ⟨⟨_, rfl, .record (hs _) input.reason g₁ g₂ g₃, fun h => absurd h hcl⟩, ?_, fun y => ?_⟩
  · simpa [Facts.nextSql, Facts.txHas, List.filterMap, Entry.named?, Stmt.isMove, Stmt.isRecord,
      h0.tx] using hok
  · simpa [h0.tx] using hspent y

/-- **The rule of `retryFromDlq`**: `ok` means that the retry was committed. -/
theorem safe_retryFromDlq {d : DeliveryId} {Q : Facts → Except Err RetryFromDlqResult → Prop}
    (hk : k.retries d) (h0 : m.Between)
    (hm : m.moved = false) (hsp : m.spent = false)
    (hok : Q { m with seen := some .dlq, moved := true } (.ok .ok))
    (hno : ∀ st r, r ≠ .ok → Q { m with seen := st } (.ok r))
    (herr : ∀ m' y, Q m' (.error y)) :
    Prog.Safe (discipline t k) m (retryFromDlq d) Q := by
  have hcl : ¬ k.claims := hk.not_claims
  have hs : ∀ (tx : Option (List Entry)) g₁ g₂,
      Script k { m with tx := tx, seen := some .dlq }
        [(.updateStatus d .pending, g₁),
          (.insertTransition d (some .dlq) .pending "manual_retry" .manualRetry, g₂)] := by
    intro tx g₁ g₂
    refine .move (.retry hk ?_ ?_ ?_) _ g₁ g₂
    exacts [rfl, hm, hsp]
  have hend : ∀ (st : Option Status) r, r ≠ RetryFromDlqResult.ok →
      permitsSql k ({ m.begun with seen := st } : Facts) .commit ∧
        Q (({ m.begun with seen := st } : Facts).nextSql .commit (.ok ())) (.ok r) ∧
          ∀ y, Q ({ m.begun with seen := st, tx := none, spent := true } : Facts) (.error y) := by
    intro st r hr
    refine ⟨⟨[], rfl, .nil, fun h => absurd h hcl⟩, ?_, herr _⟩
    simpa [Facts.nextSql, Facts.txHas, h0.tx] using hno st r hr
  refine safe_withTx h0 (Prog.safe_bind.mpr (safe_sql.mpr ⟨⟨rfl, hm, hsp, hk⟩, fun r _ => ?_⟩))
    (herr _)
  match r with
  | .error _ => exact fun y => herr _ y
  | .ok none => exact hend none .notFound (by simp)
  | .ok (some status) =>
    change Prog.Safe _ _ (if status ≠ .dlq then _ else _) _
    split
    · exact hend (some status) (.notInDlq status) (by simp)
    · rename_i hst
      obtain rfl : status = .dlq := not_not.mp hst
      refine Prog.safe_bind.mpr (safe_write _ [] rfl (by simp) (fun g₁ => ⟨_, hs _ g₁ 0⟩)
        (fun g₁ => ?_) (fun _ y => herr _ y))
      refine Prog.safe_bind.mpr (safe_write _ [(.updateStatus d .pending, g₁)] rfl (by simp)
        (fun g₂ => ⟨[], hs _ g₁ g₂⟩) (fun g₂ => ?_) (fun _ y => herr _ y))
      refine ⟨⟨_, rfl, hs _ g₁ g₂, fun h => absurd h hcl⟩, ?_, herr _⟩
      simpa [Facts.nextSql, Facts.txHas, List.filterMap, Entry.named?, Stmt.isMove, Stmt.isRecord, h0.tx,
        hsp] using hok

theorem Facts.nextSql_commit_quiet (h0 : m.tx = none) {tx : List Entry}
    {named : List (String × EventId)} (hm : tx.any (fun e => e.1.isMove) = false)
    (hr : tx.any (fun e => e.1.isRecord) = false) :
    ({ m with tx := some tx, named := named } : Facts).nextSql .commit (.ok ()) =
      { m with named := tx.filterMap Entry.named? ++ named } := by
  cases m
  cases h0
  simp only [Facts.nextSql, Facts.txHas, Option.getD_some, hm, hr, Bool.or_false]

theorem safe_ingestTx {p : IngestParams} {Q : Facts → Except Err IngestResult → Prop}
    (hk : k.ingests) (h0 : m.Between)
    (hok : ∀ named r, Q { m with named := named } (.ok r)) (herr : ∀ m' y, Q m' (.error y)) :
    Prog.Safe (discipline t k) m (ingestTx p) Q := by
  have hcl : ¬ k.claims := hk.not_claims
  -- the end of the body, when the writes `tx` have been made
  have hend : ∀ tx named r, Script k ({ m with tx := some tx, named := named } : Facts) tx →
      tx.any (fun e => e.1.isMove) = false → tx.any (fun e => e.1.isRecord) = false →
      (idemRedisKey p.clientId p.idempotencyKey, r.eventId) ∈ tx.filterMap Entry.named? ++ named →
      Prog.Safe (discipline t k) { m with tx := some tx, named := named }
        ((sql .commit).bind fun _ =>
          (call (.sendIdem (idemRedisKey p.clientId p.idempotencyKey) r.eventId)).bind fun _ =>
            Prog.ret r)
        (orUndone Q) := by
    intro tx named r hs hm hr hev
    refine Prog.safe_bind.mpr (safe_sql.mpr ⟨⟨tx, rfl, hs, fun h => absurd h hcl⟩, fun c _ => ?_⟩)
    cases c with
    | error _ => exact fun y => herr _ y
    | ok _ =>
      have hm' := @Facts.nextSql_commit_quiet m h0.tx tx named hm hr
      refine Prog.safe_bind.mpr (safe_call.mpr ⟨?_, fun _ _ => ?_⟩)
      · change _ ∈ (Facts.nextSql _ .commit (.ok ())).named
        rw [hm']
        exact hev
      · change Q (Facts.nextSql _ .commit (.ok ())) (.ok r)
        rw [hm']
        exact hok _ r
  refine safe_guarded h0 (Prog.safe_bind.mpr (safe_sql.mpr ⟨fun ev => ?_, fun r _ => ?_⟩)) (herr _)
  · exact ⟨_, .ingest hk _ _ _ _ p.endpointId ev 0 0⟩
  match r with
  | .error _ => exact fun y => herr _ y
  | .ok (some ev) =>
    refine Prog.safe_bind.mpr (safe_write _ [(_, ev)] rfl (by simp)
      (fun d => ⟨_, .ingest hk _ _ _ _ _ ev d 0⟩) (fun d => ?_) (fun _ y => herr _ y))
    refine Prog.safe_bind.mpr (safe_write _ [(_, ev), (_, d)] rfl (by simp)
      (fun g => ⟨[], .ingest hk _ _ _ _ _ ev d g⟩) (fun g => ?_) (fun _ y => herr _ y))
    exact hend [(.insertEvent p.clientId p.idempotencyKey p.eventType p.payload, ev),
      (.insertDelivery ev p.endpointId, d), (.insertTransition d none .pending "created" .api, g)]
      m.named ⟨ev, d, .pending, true⟩ (.ingest hk _ _ _ _ _ ev d g) rfl rfl List.mem_cons_self
  | .ok none =>
    refine Prog.safe_bind.mpr (safe_sql.mpr ⟨rfl, fun r _ => ?_⟩)
    match r with
    | .error _ => exact fun y => herr _ y
    | .ok none => exact fun y => herr _ y
    | .ok (some ev) =>
      refine Prog.safe_bind.mpr (safe_sql.mpr ⟨trivial, fun r _ => ?_⟩)
      match r with
      | .error _ => exact fun y => herr _ y
      | .ok none => exact fun y => herr _ y
      | .ok (some d) => exact hend [] _ ⟨ev, d.1, d.2, false⟩ .nil rfl rfl List.mem_cons_self

/-- **The rule of `ingestEvent`.** -/
theorem safe_ingestEvent {p : IngestParams} {Q : Facts → Except Err IngestResult → Prop}
    (hk : k.ingests) (h0 : m.Between)
    (hok : ∀ named r, Q { m with named := named } (.ok r)) (herr : ∀ m' y, Q m' (.error y)) :
    Prog.Safe (discipline t k) m (ingestEvent p) Q := by
  refine Prog.safe_bind.mpr (safe_redis.mpr ⟨trivial, fun r => ?_⟩)
  match r with
  | .error y => exact herr _ y
  | .ok none => exact safe_ingestTx hk h0 hok herr
  | .ok (some ev) =>
    refine Prog.safe_bind.mpr (safe_sql.mpr ⟨trivial, fun r _ => ?_⟩)
    match r with
    | .error y => exact herr _ y
    | .ok none => exact safe_ingestTx hk h0 hok herr
    | .ok (some d) => exact hok m.named _

theorem safe_enqueueDelivery {d : DeliveryId} {Q : Facts → Except Err Unit → Prop}
    (hk : (∃ req, k = .postEvent req) ∨ ∃ c, k = .repoCall c) (h0 : m.tx = none)
    (hQ : ∀ m' r, Q m' r) : Prog.Safe (discipline t k) m (enqueueDelivery d) Q := by
  refine Prog.safe_bind.mpr (safe_queueAdd.mpr ⟨Or.inl ⟨?_, rfl⟩, fun r => ?_⟩)
  · exact hk.imp_right Or.inl
  cases r with
  | error _ => exact hQ _ _
  | ok _ =>
    refine Prog.safe_bind.mpr (safe_sql.mpr ⟨?_, fun r _ => ?_⟩)
    · change mayWrite k { m with added := d :: m.added } _
      rw [mayWrite, h0]
      exact ⟨d, rfl⟩
    · cases r <;> exact hQ _ _

/-- The loop of `claimUnenqueued`: `done` are the rows it has gone through. -/
theorem safe_claimEach {Q : Facts → Except Err Unit → Prop}
    (hk : k.claims)
    (herr : ∀ m' y, Q m' (.error y)) : ∀ (ds : List DeliveryId) (m : Facts) (tx : List Entry),
    m.tx = some tx → (∀ e ∈ tx, ∃ d ∈ m.added, d ∈ m.claimed ∧ e.1 = .updateEnqueued d) →
    (∀ d ∈ ds, d ∈ m.claimed) →
    (∀ m' tx', m'.tx = some tx' → m'.claimed = m.claimed → m'.moved = m.moved →
      m'.spent = m.spent →
      (∀ e ∈ tx', ∃ d ∈ m'.added, d ∈ m'.claimed ∧ e.1 = .updateEnqueued d) →
      (∀ d, d ∈ m.added ∨ d ∈ ds → d ∈ m'.added) → Q m' (.ok ())) →
    Prog.Safe (discipline t k) m (claimEach ds) Q
  | [], m, tx, htx, hs, _, hQ => hQ m tx htx rfl rfl rfl hs (by simp)
  | d :: ds, m, tx, htx, hs, hc, hQ => by
    refine Prog.safe_bind.mpr (safe_queueAdd.mpr ⟨Or.inl ⟨?_, rfl⟩, fun r => ?_⟩)
    · rcases hk with h | ⟨limit, h⟩
      · exact Or.inr (Or.inr ⟨h, hc d List.mem_cons_self⟩)
      · exact Or.inr (Or.inl ⟨_, h⟩)
    cases r with
    | error y => exact herr _ y
    | ok _ =>
      have hs' : ∀ g, ∀ e ∈ tx ++ [(Stmt.updateEnqueued d, g)],
          ∃ d' ∈ d :: m.added, d' ∈ m.claimed ∧ e.1 = .updateEnqueued d' := by
        intro g e he
        rcases List.mem_append.mp he with he | he
        · obtain ⟨d', h1, h2, h3⟩ := hs e he
          exact ⟨d', List.mem_cons_of_mem _ h1, h2, h3⟩
        · rw [List.mem_singleton.mp he]
          exact ⟨d, List.mem_cons_self, hc d List.mem_cons_self, rfl⟩
      have htx' : ({ m with added := d :: m.added } : Facts).tx = some tx := htx
      refine Prog.safe_bind.mpr (safe_write (.updateEnqueued d) tx htx' (by simp)
        (fun g => ⟨[], .claim hk (hs' g)⟩)
        (fun g => ?_) (fun x => herr _ x))
      refine safe_claimEach hk herr ds _ _ rfl (hs' g)
        (fun d' hd' => hc d' (List.mem_cons_of_mem _ hd')) fun m' tx' h1 h2 h3 h4 h5 h6 => ?_
      refine hQ m' tx' h1 h2 h3 h4 h5 fun d' hd' => h6 d' ?_
      rcases hd' with h | h
      · exact Or.inl (List.mem_cons_of_mem _ h)
      · rcases List.mem_cons.mp h with rfl | h
        · exact Or.inl List.mem_cons_self
        · exact Or.inr h

/-- **The rule of `claimUnenqueued`.** -/
theorem safe_claimUnenqueued {env : Env} {limit : ℕ} {Q : Facts → Except Err ℕ → Prop}
    (hk : k.claims) (h0 : m.Between) (hQ : ∀ m' r, Q m' r) :
    Prog.Safe (discipline t k) m (claimUnenqueued env limit) Q := by
  refine safe_withTx h0 (Prog.safe_bind.mpr (safe_sql.mpr ⟨⟨rfl, h0.added, hk⟩, fun r _ => ?_⟩))
    (fun y => hQ _ _)
  cases r with
  | error _ => exact fun y => hQ _ _
  | ok rows =>
    refine Prog.safe_bind.mpr (safe_claimEach hk (fun m' y z => hQ _ _) rows _ [] rfl (by simp)
      (fun d hd => hd) fun m' tx' h1 h2 _ _ h5 h6 => ?_)
    refine ⟨⟨tx', h1, .claim hk h5, fun _ d hd => h6 d (Or.inr ?_)⟩, hQ _ _, fun y => hQ _ _⟩
    rw [h2] at hd
    exact hd

end Rules

end WebhookEngine
