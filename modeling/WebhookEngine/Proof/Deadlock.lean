import WebhookEngine.Lib.Waiting
import WebhookEngine.Proof.Pipeline
import WebhookEngine.Proof.Watched

set_option autoImplicit false

/-!
# Transactions end, and none waits for ever

A transaction waits for row locks and for entries of the unique indexes.

* `LockKey.rank`: the order in which keys are taken, an entry of an index before a row.
* `Holdings`, `holdings`: the keys of the open transaction and the heartbeat timer. A program that waits
  for a row owns no other row.
* **`tidy_program`**: every program keeps to it, and ends with no transaction open and no timer set.
* `Keyed`: the keys of the server are those of the open transactions of the living.
* **`nothing_leaks`**: an execution that is over or dead owns no key and has no timer set.
* **`deadlock_free`**: nobody waits for himself, and everybody waits for somebody who can go on.
-/

namespace WebhookEngine

open EffectProg TransitionSystem Waiting

variable {env : Env} {s s' : State} {l : Label} {t u : Tid} {th th' : Thread}
  {C : State → Label → Prop}

/-! ## The monitor -/

/-- Entries of the unique indexes are taken before rows. -/
def LockKey.rank : LockKey → ℕ
  | .row _ => 1
  | .attempt _ _ => 0
  | .event _ _ => 0

/-- The key a statement has to wait for when another transaction owns it. -/
def Sql.lockKey : Sql → Option LockKey
  | .write st => st.key
  | .selectStatusForUpdate d => some (.row d)
  | _ => none

/-- The keys a statement has given to its transaction. -/
def Sql.takes : (q : Sql) → Except Err q.Ret → List LockKey
  | .write st, .ok (some _) => st.key.toList
  | .selectUnenqueued _ _, .ok rows => rows.map .row
  | .selectStatusForUpdate d, .ok (some _) => [.row d]
  | _, _ => []

/-- COMMIT and ROLLBACK. -/
def Sql.closes : Sql → Bool
  | .commit => true
  | .rollback => true
  | _ => false

/-- The keys of the open transaction, and whether the heartbeat timer is set. -/
structure Holdings where
  keys : Option (List LockKey) := none
  timer : Bool := false

/-- How the holdings follow a call. -/
def Holdings.next (m : Holdings) : (e : Eff) → e.Resp → Holdings
  | .sql .begin, .ok _ => { m with keys := some [] }
  | .sql q, r => { m with keys := if q.closes then none else m.keys.map (· ++ q.takes r) }
  | .setInterval, _ => { m with timer := true }
  | .clearInterval, _ => { m with timer := false }
  | _, _ => m

/-- The calls that fit. -/
def permitsHolding (m : Holdings) : Eff → Prop
  | .sql .begin => m.keys = none
  | .sql (.write st) => ∀ key ∈ st.key, ∀ keys, m.keys = some keys →
      key ∈ keys ∨ ∀ key' ∈ keys, key'.rank < key.rank
  | .sql (.selectUnenqueued _ _) => m.keys = some []
  | .sql (.selectStatusForUpdate _) => m.keys = some []
  | _ => True

/-- **The monitor of what is held.** -/
def holdings : Monitor Eff Eff.Resp Holdings where
  next := Holdings.next
  permits := permitsHolding
  expects _ _ _ := True

/-- What the execution holds. -/
def Thread.holdings (th : Thread) : Holdings := WebhookEngine.holdings.after {} th.trace

/-- Calls that neither take nor give anything. -/
def Light : Eff → Prop
  | .sql .begin => False
  | .sql .commit => False
  | .sql .rollback => False
  | .sql (.write _) => False
  | .sql (.selectUnenqueued _ _) => False
  | .sql (.selectStatusForUpdate _) => False
  | .setInterval => False
  | .clearInterval => False
  | _ => True

/-! ## Programs -/

section Program

variable {m : Holdings} {α β : Type}

theorem Light.keeps {e : Eff} (h : Light e) :
    holdings.permits m e ∧ ∀ r, holdings.next m e r = m := by
  have hmap : m.keys.map (fun keys => keys ++ []) = m.keys := by
    cases m.keys <;> simp
  cases e with
  | sql q =>
    cases q with
    | connect | selectForDelivery | selectEventId | selectDeliveryOfEvent | selectEndpoint
    | selectLastAttempt =>
      refine ⟨trivial, fun r => ?_⟩
      change Holdings.mk (m.keys.map fun keys => keys ++ []) m.timer = m
      rw [hmap]
    | _ => exact h.elim
  | setInterval => exact h.elim
  | clearInterval => exact h.elim
  | _ => exact ⟨trivial, fun _ => rfl⟩

/-- The program gives back what it takes. -/
def Tidy (p : Code α) : Prop := Prog.Safe holdings {} p fun m _ => m = {}

theorem tidy_light {p : Code α} (hp : p.Uses Light) : Tidy p :=
  hp.safe (fun _ h => h.keeps) fun _ => rfl

theorem tidy_bind {p : Code α} {f : α → Code β} (hp : Tidy p) (hf : ∀ a, Tidy (f a)) :
    Tidy (p.bind f) := by
  refine Prog.safe_bind.mpr (Prog.Safe.mono hp fun m r hm => ?_)
  subst hm
  cases r with
  | ok a => exact hf a
  | error x => rfl

theorem tidy_tryCatch {p : Code α} {f : Err → Code α} (hp : Tidy p) (hf : ∀ x, Tidy (f x)) :
    Tidy (p.tryCatch f) := by
  refine Prog.safe_tryCatch.mpr (Prog.Safe.mono hp fun m r hm => ?_)
  subst hm
  cases r with
  | ok a => rfl
  | error x => exact hf x

theorem tidy_andFinally {p : Code α} {q : Code Unit} (hp : Tidy p) (hq : Tidy q) :
    Tidy (p.andFinally q) := by
  refine Prog.safe_andFinally.mpr (Prog.Safe.mono hp fun m r hm => ?_)
  subst hm
  refine Prog.Safe.mono hq fun m r' hm => ?_
  cases r' <;> exact hm

theorem tidy_await {e : Eff} {answer : e.Resp → Except Err α} (h : Light e) :
    Tidy (await e answer) := tidy_light (uses_await h)

theorem safe_sql_holdings {q : Sql} {Q : Holdings → Except Err q.Ret → Prop} :
    Prog.Safe holdings m (sql q) Q ↔
      permitsHolding m (.sql q) ∧ ∀ r, Q (m.next (.sql q) r) r := by
  refine Prog.safe_bind.trans ⟨fun h => ⟨h.1, fun r => ?_⟩, fun h => ⟨h.1, fun r _ => ?_⟩⟩
  · exact Prog.safe_ofExcept.mp (h.2 r trivial)
  · exact Prog.safe_ofExcept.mpr (h.2 r)

theorem safe_rollback_holdings {x : Err} (hm : m.timer = false) :
    Prog.Safe holdings m ((sql .rollback).bind fun _ => (Prog.raise x : Code α)) fun m _ => m = {} := by
  refine Prog.safe_bind.mpr (safe_sql_holdings.mpr ⟨trivial, fun r => ?_⟩)
  have hend : m.next (.sql .rollback) r = {} := by
    change Holdings.mk none m.timer = {}
    rw [hm]
  cases r <;> exact hend

theorem tidy_guarded {body : Code α}
    (h : Prog.Safe holdings { keys := some [] } body fun m r => m.timer = false ∧
      ∀ a, r = .ok a → m = {}) :
    Tidy ((sql .connect).bind fun _ =>
      Prog.tryCatch ((sql .begin).bind fun _ => body)
        fun err => (sql .rollback).bind fun _ => Prog.raise err) := by
  refine tidy_bind (tidy_await trivial) fun _ => Prog.safe_tryCatch.mpr (Prog.safe_bind.mpr
    (safe_sql_holdings.mpr ⟨rfl, fun r => ?_⟩))
  cases r with
  | error x => exact safe_rollback_holdings rfl
  | ok _ =>
    refine Prog.Safe.mono h fun m r hm => ?_
    cases r with
    | error x => exact safe_rollback_holdings hm.1
    | ok a => exact hm.2 a rfl

/-- **The rule of `withTx`.** -/
theorem tidy_withTx {fn : Code α}
    (h : Prog.Safe holdings { keys := some [] } fn fun m _ => m.timer = false) : Tidy (withTx fn) := by
  refine tidy_guarded (Prog.safe_bind.mpr (Prog.Safe.mono h fun m r hm => ?_))
  cases r with
  | error x => exact ⟨hm, nofun⟩
  | ok a =>
    refine Prog.safe_bind.mpr (safe_sql_holdings.mpr ⟨trivial, fun r => ?_⟩)
    have hend : m.next (.sql .commit) r = {} := by
      change Holdings.mk none m.timer = {}
      rw [hm]
    cases r with
    | error x => exact ⟨congrArg Holdings.timer hend, nofun⟩
    | ok _ => exact ⟨congrArg Holdings.timer hend, fun _ _ => hend⟩

/-- The statement owns its key already, or every key its transaction owns is of lower rank. -/
theorem safe_write_holdings {st : Stmt} {keys : List LockKey} {f : Option ℕ → Code α}
    {Q : Holdings → Except Err α → Prop}
    (hkey : ∀ key ∈ st.key, key ∈ keys ∨ ∀ key' ∈ keys, key'.rank < key.rank)
    (herr : ∀ m x, m.timer = false → Q m (.error x))
    (hf : ∀ a keys', (∀ key ∈ keys', key ∈ keys ∨ key ∈ st.key) → (∀ key ∈ keys, key ∈ keys') →
      Prog.Safe holdings { keys := some keys' } (f a) Q) :
    Prog.Safe holdings { keys := some keys } ((sql (.write st)).bind f) Q := by
  refine Prog.safe_bind.mpr (safe_sql_holdings.mpr ⟨fun key hk keys' hkeys => ?_, fun r => ?_⟩)
  · cases hkeys
    exact hkey key hk
  · match r with
    | .error x => exact herr _ x rfl
    | .ok none =>
      exact hf none (keys ++ []) (fun key hk => Or.inl (by simpa using hk)) (by simp)
    | .ok (some g) =>
      refine hf (some g) (keys ++ st.key.toList) (fun key hk => ?_) fun key hk => ?_
      · simpa using hk
      · exact List.mem_append_left _ hk

/-! ## The repositories -/

theorem tidy_transition (d : DeliveryId) (f g : Status) (a : Actor) (reason : String) :
    Tidy (transition d f g a reason) := by
  refine tidy_withTx (safe_write_holdings ?_ (fun _ _ h => h) fun _ keys' _ _ => ?_)
  · exact fun key _ => Or.inr (by simp)
  · exact safe_write_holdings (fun key hk => nomatch hk) (fun _ _ h => h) fun _ _ _ _ => rfl

theorem tidy_recordAttempt (input : RecordAttemptInput) : Tidy (recordAttempt input) := by
  refine tidy_withTx (safe_write_holdings ?_ (fun _ _ h => h) fun _ keys' hkeys _ => ?_)
  · exact fun key _ => Or.inr (by simp)
  refine safe_write_holdings ?_ (fun _ _ h => h) fun _ keys'' _ _ => ?_
  · -- the entry of `uq_attempts` comes before the row
    intro key hk
    obtain rfl : LockKey.row input.deliveryId = key := Option.some.inj hk
    refine Or.inr fun key' hk' => ?_
    rcases hkeys key' hk' with h | h
    · cases h
    · obtain rfl : LockKey.attempt _ _ = key' := Option.some.inj h
      exact Nat.zero_lt_one
  · exact safe_write_holdings (fun key hk => nomatch hk) (fun _ _ h => h) fun _ _ _ _ => rfl

/-- The loop of `claimUnenqueued` updates rows that the claiming SELECT has locked. -/
theorem safe_claimEach_holdings (ds : List DeliveryId) (keys : List LockKey)
    (h : ∀ d ∈ ds, .row d ∈ keys) :
    Prog.Safe holdings { keys := some keys } (claimEach ds) fun m _ => m.timer = false := by
  induction ds generalizing keys with
  | nil => rfl
  | cons d ds ih =>
    have hadd : (queueAdd (.delivery d) d).Uses Light := uses_await trivial
    refine Prog.safe_bind.mpr (hadd.safe (fun _ h => h.keeps) fun r => ?_)
    cases r with
    | error x => rfl
    | ok _ =>
      refine safe_write_holdings ?_ (fun _ _ h => h) fun _ keys' _ hkeep => ?_
      · intro key hk
        obtain rfl : LockKey.row d = key := Option.some.inj hk
        exact Or.inl (h d List.mem_cons_self)
      · exact ih keys' fun d' hd' => hkeep _ (h d' (List.mem_cons_of_mem _ hd'))

theorem tidy_claimUnenqueued (limit : ℕ) : Tidy (claimUnenqueued env limit) := by
  refine tidy_withTx (Prog.safe_bind.mpr (safe_sql_holdings.mpr ⟨rfl, fun r => ?_⟩))
  cases r with
  | error x => rfl
  | ok rows =>
    refine Prog.safe_bind.mpr (Prog.Safe.mono (safe_claimEach_holdings rows _ fun d hd => ?_)
      fun m r hm => ?_)
    · exact List.mem_map_of_mem hd
    · cases r <;> exact hm

theorem tidy_retryFromDlq (d : DeliveryId) : Tidy (retryFromDlq d) := by
  refine tidy_withTx (Prog.safe_bind.mpr (safe_sql_holdings.mpr ⟨rfl, fun r => ?_⟩))
  match r with
  | .error x => rfl
  | .ok none => rfl
  | .ok (some status) =>
    change Prog.Safe _ _ (if status ≠ .dlq then _ else _) _
    split
    · rfl
    · change Prog.Safe _ ({ keys := some [.row d] } : Holdings) _ _
      refine safe_write_holdings ?_ (fun _ _ h => h) fun _ _ _ _ => ?_
      · intro key hk
        obtain rfl : LockKey.row d = key := Option.some.inj hk
        exact Or.inl List.mem_cons_self
      · exact safe_write_holdings (fun key hk => nomatch hk) (fun _ _ h => h) fun _ _ _ _ => rfl

theorem safe_commit_holdings {key : String} {ev : EventId} {r : IngestResult}
    (hm : m.timer = false) :
    Prog.Safe holdings m ((sql .commit).bind fun _ => (call (.sendIdem key ev)).bind fun _ => Prog.ret r)
      fun m r => m.timer = false ∧ ∀ a, r = .ok a → m = {} := by
  refine Prog.safe_bind.mpr (safe_sql_holdings.mpr ⟨trivial, fun x => ?_⟩)
  have hend : m.next (.sql .commit) x = {} := by
    change Holdings.mk none m.timer = {}
    rw [hm]
  cases x with
  | error y => exact ⟨congrArg Holdings.timer hend, nofun⟩
  | ok _ => exact ⟨trivial, fun _ _ => ⟨congrArg Holdings.timer hend, fun _ _ => hend⟩⟩

theorem tidy_ingestTx (p : IngestParams) : Tidy (ingestTx p) := by
  refine tidy_guarded (safe_write_holdings ?_ (fun m x hm => ⟨hm, nofun⟩) fun inserted keys _ _ => ?_)
  · exact fun key _ => Or.inr (by simp)
  cases inserted with
  | some ev =>
    refine safe_write_holdings (fun key hk => nomatch hk) (fun m x hm => ⟨hm, nofun⟩) fun d keys _ _ => ?_
    cases d with
    | none => exact ⟨rfl, nofun⟩
    | some d =>
      exact safe_write_holdings (fun key hk => nomatch hk) (fun m x hm => ⟨hm, nofun⟩)
        fun _ keys _ _ => safe_commit_holdings rfl
  | none =>
    refine Prog.safe_bind.mpr (safe_sql_holdings.mpr ⟨trivial, fun r => ?_⟩)
    match r with
    | .error x => exact ⟨rfl, nofun⟩
    | .ok none => exact ⟨rfl, nofun⟩
    | .ok (some ev) =>
      refine Prog.safe_bind.mpr (safe_sql_holdings.mpr ⟨trivial, fun r => ?_⟩)
      match r with
      | .error x => exact ⟨rfl, nofun⟩
      | .ok none => exact ⟨rfl, nofun⟩
      | .ok (some d) => exact safe_commit_holdings rfl

theorem tidy_ingestEvent (p : IngestParams) : Tidy (ingestEvent p) := by
  refine tidy_bind (tidy_await trivial) fun cached => ?_
  cases cached with
  | none => exact tidy_ingestTx p
  | some ev =>
    refine tidy_bind (tidy_await trivial) fun d => ?_
    cases d with
    | none => exact tidy_ingestTx p
    | some d => rfl

/-- The UPDATE of `enqueueDelivery` is a transaction of its own. -/
theorem tidy_enqueueDelivery (d : DeliveryId) : Tidy (enqueueDelivery d) := by
  refine tidy_bind (tidy_await trivial) fun _ => Prog.safe_bind.mpr (safe_sql_holdings.mpr
    ⟨fun _ _ _ h => (nomatch h), fun r => ?_⟩)
  match r with
  | .error x => rfl
  | .ok none => rfl
  | .ok (some g) => rfl

/-! ## The executions -/

theorem tidy_remote {p : Code α} (hp : p.Uses Remote) : Tidy p := by
  refine tidy_light (hp.mono fun e he => ?_)
  cases e with
  | redis c => trivial
  | _ => exact he.elim

theorem tidy_call {e : Eff} (h : Light e) : Tidy (call e) := tidy_light (uses_call h)

theorem tidy_park (id : JobId) (u : Time) (x : Err) :
    Tidy ((moveToDelayed id u).bind fun _ => (Prog.raise x : Code α)) :=
  tidy_bind (tidy_await trivial) fun _ => rfl

theorem tidy_pickup (job : JobRef) : Tidy (pickup env job) := by
  refine tidy_bind (tidy_await trivial) fun delivery => ?_
  cases delivery with
  | none => rfl
  | some r =>
    change Tidy (if r.status = .delivered ∨ r.status = .dlq then _ else _)
    split
    · rfl
    split
    · exact tidy_bind (tidy_call trivial) fun now => tidy_park _ _ _
    refine tidy_bind (tidy_remote (remote_checkState _)) fun breaker => ?_
    split
    · refine tidy_bind (tidy_call trivial) fun now => tidy_bind (tidy_call trivial) fun later =>
        tidy_bind (tidy_call trivial) fun k => tidy_bind (tidy_recordAttempt _) fun _ => rfl
    refine tidy_bind (tidy_remote (remote_tryAcquire _)) fun got => ?_
    split
    · rfl
    · exact tidy_bind (tidy_call trivial) fun k => tidy_bind (tidy_call trivial) fun now =>
        tidy_park _ _ _

theorem tidy_withLockHeartbeat {p : Code α} (hp : p.Uses Light) : Tidy (withLockHeartbeat p) := by
  refine ⟨trivial, fun _ _ => Prog.safe_andFinally.mpr (hp.safe (fun _ h => h.keeps) fun r => ?_)⟩
  exact ⟨trivial, fun _ _ => rfl⟩

theorem light_deliver (req : HttpRequest) : (deliver env req).Uses Light := by
  refine (uses_call trivial).bind fun startedAt => (uses_call trivial).bind fun _ =>
    (uses_call trivial).bind fun reply => ?_
  cases reply with
  | response status text => exact (uses_call trivial).bind fun _ => trivial
  | thrown e => trivial

theorem tidy_attemptDelivery (job : JobRef) (p : Pickup) : Tidy (attemptDelivery env job p) := by
  refine tidy_bind (tidy_transition _ _ _ _ _) fun _ => tidy_bind (tidy_call trivial) fun nowMs =>
    tidy_bind (tidy_call trivial) fun startedAt => ?_
  refine tidy_bind (tidy_withLockHeartbeat (light_deliver _)) fun result =>
    tidy_bind (tidy_call trivial) fun finishedAt => tidy_bind (tidy_call trivial) fun lost => ?_
  refine tidy_bind (tidy_remote (remote_noteOutcome _ _)) fun _ =>
    tidy_bind (tidy_call trivial) fun now => tidy_bind (tidy_call trivial) fun k =>
      tidy_bind (tidy_recordAttempt _) fun _ => ?_
  split <;> rfl

theorem tidy_processDelivery (job : JobRef) (t : Tid) : Tidy (processDelivery env job t) := by
  refine tidy_bind (tidy_await trivial) fun acquired => ?_
  split
  · exact tidy_bind (tidy_call trivial) fun now => tidy_park _ _ _
  refine tidy_bind (tidy_tryCatch (tidy_pickup job) fun err => ?_) fun picked => ?_
  · exact tidy_bind (tidy_remote (remote_cleanup _ _ _)) fun _ => rfl
  cases picked with
  | none => exact tidy_remote (remote_cleanup _ _ _)
  | some p => exact tidy_andFinally (tidy_attemptDelivery job p) (tidy_remote (remote_cleanup _ _ _))

theorem tidy_handleFailed (job : JobRef) : Tidy (handleFailed env job) := by
  unfold handleFailed
  split
  · rfl
  refine tidy_tryCatch (tidy_bind (tidy_await trivial) fun delivery => ?_) fun _ => rfl
  cases delivery with
  | none => rfl
  | some r =>
    change Tidy (if r.status = .dlq then _ else _)
    split
    · rfl
    · exact tidy_bind (tidy_transition _ _ _ _ _) fun _ => tidy_bind (tidy_await trivial) fun _ =>
        tidy_bind (tidy_await trivial) fun last => tidy_bind (tidy_call trivial) fun _ => rfl

theorem tidy_postEvent (req : EventRequest) : Tidy (postEvent env req) := by
  refine tidy_bind (tidy_await trivial) fun overloaded => ?_
  dsimp only
  iterate 6
    split
    · rfl
  refine tidy_bind (tidy_tryCatch (tidy_await trivial) fun _ => rfl) fun endpoint => ?_
  cases endpoint with
  | none => rfl
  | some endpoint =>
    change Tidy (if ¬ endpoint.isActive then _ else _)
    split
    · rfl
    refine tidy_bind (tidy_ingestEvent _) fun result => ?_
    split
    · exact tidy_bind (tidy_tryCatch (tidy_enqueueDelivery _) fun _ => rfl) fun _ => rfl
    · rfl

theorem tidy_postRetry (d : IdText) : Tidy (postRetry d) := by
  refine tidy_bind (tidy_retryFromDlq d.id) fun result => ?_
  cases result with
  | ok => exact tidy_bind (tidy_call trivial) fun ms => tidy_bind (tidy_await trivial) fun _ => rfl
  | _ => rfl

/-- **Every program gives back what it takes.** -/
theorem tidy_program (t : Tid) (k : Kind) : Tidy (program env t k) := by
  match k with
  | .deliver job => exact tidy_bind (tidy_processDelivery job t) fun _ => rfl
  | .failed job => exact tidy_bind (tidy_handleFailed job) fun _ => rfl
  | .postEvent req => exact tidy_bind (tidy_postEvent req) fun _ => rfl
  | .postRetry d => exact tidy_bind (tidy_postRetry d) fun _ => rfl
  | .sweep => exact tidy_bind (tidy_claimUnenqueued _) fun _ => rfl
  | .repoCall (.transition d f g a r) => exact tidy_bind (tidy_transition d f g a r) fun _ => rfl
  | .repoCall (.recordAttempt input) => exact tidy_bind (tidy_recordAttempt input) fun _ => rfl
  | .repoCall (.retryFromDlq d) => exact tidy_bind (tidy_retryFromDlq d) fun _ => rfl
  | .repoCall (.enqueueDelivery d) => exact tidy_bind (tidy_enqueueDelivery d) fun _ => rfl
  | .repoCall (.claimUnenqueued limit) => exact tidy_bind (tidy_claimUnenqueued limit) fun _ => rfl
  | .repoCall (.ingestEvent p) => exact tidy_bind (tidy_ingestEvent p) fun _ => rfl

end Program

/-! ## Runs -/

theorem reachable_tidy (h : Reachable env C s) (ht : s.live? t = some th) :
    Prog.Safe holdings th.holdings th.prog fun m _ => m = {} :=
  @reachable_watched env C s Holdings (fun _ => True) (fun _ _ => holdings) {} (fun _ _ m _ => m = {})
    (fun t k _ => tidy_program t k) (fun _ _ _ _ _ => trivial) h t th (State.live?_eq_some.mp ht).1
    trivial

theorem reachable_permits (h : Reachable env C s) (ht : s.live? t = some th) {e : Eff}
    {k : e.Resp → Code Reply} (hp : th.prog = .op e k) : permitsHolding th.holdings e := by
  have hsafe := reachable_tidy h ht
  rw [hp] at hsafe
  exact hsafe.1

theorem reachable_ended (h : Reachable env C s) (ht : s.live? t = some th)
    (hend : ∀ e k, th.prog ≠ .op e k) : th.holdings = {} := by
  have hsafe := reachable_tidy h ht
  cases hp : th.prog with
  | ret a =>
    rw [hp] at hsafe
    exact hsafe
  | raise x =>
    rw [hp] at hsafe
    exact hsafe
  | op e k => exact absurd hp (hend e k)

theorem Holdings.next_keys (m : Holdings) {e : Eff} (he : ∀ q, e ≠ .sql q) (r : e.Resp) :
    (m.next e r).keys = m.keys := by
  cases e with
  | sql q => exact absurd rfl (he q)
  | _ => rfl

theorem holdings_open (th : Thread) : th.holdings.keys.isSome = th.facts.tx.isSome := by
  unfold Thread.holdings Thread.facts
  induction th.trace with
  | nil => rfl
  | cons ev tr ih =>
    obtain ⟨e, r⟩ := ev
    change (Holdings.next (holdings.after {} tr) e r).keys.isSome = ((facts tr).next e r).tx.isSome
    by_cases hq : ∃ q, e = .sql q
    · obtain ⟨q, rfl⟩ := hq
      cases q with
      | begin => cases r <;> simp [Holdings.next, Facts.next, Facts.nextSql, Sql.closes, ih]
      | commit | rollback => cases r <;> rfl
      | write st =>
        cases r with
        | error x => simpa [Holdings.next, Facts.next, Facts.nextSql, Sql.closes] using ih
        | ok gen =>
          cases gen <;> simpa [Holdings.next, Facts.next, Facts.nextSql, Sql.closes] using ih
      | _ => cases r <;> simpa [Holdings.next, Facts.next, Facts.nextSql, Sql.closes] using ih
    · have he : ∀ q, e ≠ .sql q := fun q h => hq ⟨q, h⟩
      rw [Holdings.next_keys _ he, (Facts.next_of_not_sql he r).1, ih]

theorem reachable_timer (h : Reachable env C s) : ∀ t th, s.live? t = some th →
    th.mem.heartbeat = th.holdings.timer := by
  refine h.invariant (I := fun s => ∀ t th, s.live? t = some th →
    th.mem.heartbeat = th.holdings.timer) (fun t th h => by simp [State.live?] at h) ?_
  intro s l s' hI _ hstep u th' hu
  cases step_lives hstep hu with
  | @called c th e r k w m hl hadv hth =>
    subst hth
    have hold := hI u th hadv.live
    change m.heartbeat = (Holdings.next th.holdings e r).timer
    cases e with
    | setInterval | clearInterval =>
      have hdone := hadv.done
      cases hdone
      rfl
    | readLockLost =>
      have hdone := hadv.done
      cases hdone
      exact hold
    | sql q =>
      rw [(perform_mem hadv.done).2.2 rfl, hold]
      cases q <;> first | rfl | (cases r <;> rfl)
    | _ => exact ((perform_mem hadv.done).2.2 rfl).trans hold
  | @beat th job hl hlive hk hbeat hth =>
    subst hth
    exact hI u th hlive
  | @heard th held rest hl hlive hext hth =>
    subst hth
    exact hI u th hlive
  | kept hlive hreply hk hmem =>
    rw [hmem, hI u _ hlive, Thread.holdings, Thread.holdings, hk.trace]
  | fresh hlen hk hth =>
    subst hth
    rfl

/-! ## The keys of the server -/

/-- **What a statement does to the keys**: it leaves those of the others, and gives its transaction what
it takes or takes everything back. -/
theorem Sql.exec_locks {pg pg' : Postgres} {now : Time} {sess sess' : Option Session} {fault : Fault}
    {rows : List DeliveryId} {q : Sql} {r : Except Err q.Ret}
    (h : q.exec pg t now sess fault rows = some (pg', sess', r))
    (hsess : sess = none → (∀ d, q ≠ .selectStatusForUpdate d) ∧ ∀ g n, q ≠ .selectUnenqueued g n) :
    (∀ key u, u ≠ t → (pg'.locks key = some u ↔ pg.locks key = some u)) ∧
      ∀ key, pg'.locks key = some t ↔ q.closes = false ∧
        (pg.locks key = some t ∨ sess.isSome = true ∧ key ∈ q.takes r) := by
  have hsame : q.closes = false → q.takes r = [] →
      (∀ key u, u ≠ t → (pg.locks key = some u ↔ pg.locks key = some u)) ∧
        ∀ key, pg.locks key = some t ↔ q.closes = false ∧
          (pg.locks key = some t ∨ sess.isSome = true ∧ key ∈ q.takes r) := by
    intro hc ht
    simp [hc, ht]
  have htake : ∀ keys : List LockKey, (∀ key ∈ keys, pg.free t key) → q.closes = false →
      q.takes r = keys → sess.isSome = true → ∀ db : Db,
        (∀ key u, u ≠ t → ((({ pg with db := db } : Postgres).take t keys).locks key = some u ↔
          pg.locks key = some u)) ∧
          ∀ key, (({ pg with db := db } : Postgres).take t keys).locks key = some t ↔
            q.closes = false ∧ (pg.locks key = some t ∨ sess.isSome = true ∧ key ∈ q.takes r) := by
    intro keys hfree hc ht hs db
    refine ⟨fun key u hu => ⟨fun hl => ?_, fun hl => Postgres.take_other hfree hu hl⟩, fun key => ?_⟩
    · simp only [Postgres.take] at hl
      split at hl
      · exact absurd (Option.some.inj hl).symm hu
      · exact hl
    · simp only [Postgres.take, hc, ht, hs, true_and]
      split <;> simp [*]
  have hgive : ∀ db : Db, q.closes = true →
      (∀ key u, u ≠ t → ((({ pg with db := db } : Postgres).giveBack t).locks key = some u ↔
        pg.locks key = some u)) ∧
        ∀ key, (({ pg with db := db } : Postgres).giveBack t).locks key = some t ↔
          q.closes = false ∧ (pg.locks key = some t ∨ sess.isSome = true ∧ key ∈ q.takes r) := by
    intro db hc
    refine ⟨fun key u hu => ⟨Postgres.giveBack_old, Postgres.giveBack_other hu⟩, fun key => ?_⟩
    simp only [Postgres.giveBack, hc]
    split <;> simp [*]
  cases q with
  | write st =>
    cases Stmt.exec_cases h with
    | refused => exact hsame rfl rfl
    | missed =>
      refine hsame rfl ?_
      unfold Fault.answer
      split <;> rfl
    | joins hs hfree hv => exact htake _ (free_of_all hfree) rfl rfl (by simp [hs]) _
    | alone hs hfree hv => simp [hs, Sql.closes]
  | selectUnenqueued grace limit =>
    simp only [Sql.exec] at h
    split at h
    · split at h
      · rename_i hclaim
        cases h
        have hopen : sess.isSome = true := by
          by_contra hne
          exact (hsess (Option.not_isSome_iff_eq_none.mp hne)).2 _ _ rfl
        have hfree : ∀ key ∈ rows.map LockKey.row, pg.free t key := by
          intro key hk
          obtain ⟨d, hd, rfl⟩ := List.mem_map.mp hk
          have hmay := of_decide_eq_true hclaim
          exact (hmay.2.2.1 d hd).2
        exact htake _ hfree rfl rfl hopen pg.db
      · cases h
    · cases h
      exact hsame rfl rfl
  | selectStatusForUpdate d =>
    simp only [Sql.exec] at h
    split at h
    · split at h
      · rename_i hfree
        split at h
        · cases h
          exact hsame rfl rfl
        · cases h
          have hopen : sess.isSome = true := by
            by_contra hne
            exact (hsess (Option.not_isSome_iff_eq_none.mp hne)).1 _ rfl
          exact htake [.row d] (by simpa using hfree) rfl rfl hopen pg.db
      · cases h
    · cases h
      exact hsame rfl rfl
  | commit =>
    cases h
    exact hgive _ rfl
  | rollback =>
    cases h
    exact hgive pg.db rfl
  | _ =>
    cases h
    refine hsame rfl ?_
    unfold Fault.answer
    split <;> rfl

/-- **The keys of the server are those of the open transactions of the living.** -/
structure Keyed (s : State) : Prop where
  owned : ∀ key u, s.pg.locks key = some u →
    ∃ th keys, s.live? u = some th ∧ th.holdings.keys = some keys ∧ key ∈ keys
  held : ∀ u th keys, s.live? u = some th → th.holdings.keys = some keys →
    ∀ key ∈ keys, s.pg.locks key = some u

theorem Holdings.next_sql (m : Holdings) {q : Sql} (r : Except Err q.Ret) {keys : List LockKey}
    (hm : (m.next (.sql q) r).keys = some keys) :
    (q = .begin ∧ keys = []) ∨
      q.closes = false ∧ ∃ old, m.keys = some old ∧ keys = old ++ q.takes r := by
  have hmap : ∀ {x : Option (List LockKey)}, (if q.closes then none else m.keys.map (· ++ q.takes r)) = x →
      x = some keys → q.closes = false ∧ ∃ old, m.keys = some old ∧ keys = old ++ q.takes r := by
    rintro x rfl hx
    split at hx
    · cases hx
    · rename_i hc
      obtain ⟨old, hold, rfl⟩ := Option.map_eq_some_iff.mp hx
      exact ⟨by simpa using hc, old, hold, rfl⟩
  cases q with
  | begin =>
    cases r with
    | ok _ => exact Or.inl ⟨rfl, (Option.some.inj hm).symm⟩
    | error x => exact Or.inr (hmap rfl hm)
  | _ => exact Or.inr (hmap rfl hm)

section Call

variable {c : Choice} {e : Eff} {r : e.Resp} {k : e.Resp → Code Reply} {w : World} {m : Memory}

theorem Thread.Ok.sess_open {pg : Postgres} (hok : th.Ok pg t) :
    th.mem.sess.isSome = th.holdings.keys.isSome := by
  rw [holdings_open, ← hok.sess, Memory.entries, Option.isSome_map]

theorem Keyed.other (hI : Keyed s) (hadv : Advance s s' t c th e r k w m) (he : ∀ q, e ≠ .sql q) :
    Keyed s' := by
  have hpg : s'.pg = s.pg := by rw [hadv.world, (perform_other he hadv.done).1]
  have hkeys : (th.after e r k m).holdings.keys = th.holdings.keys := Holdings.next_keys _ he r
  refine ⟨fun key u hl => ?_, fun u th' keys hu hk key hkey => ?_⟩
  · rw [hpg] at hl
    obtain ⟨th₀, keys, hu, hk, hkey⟩ := hI.owned key u hl
    by_cases hut : u = t
    · subst hut
      cases hadv.live.symm.trans hu
      exact ⟨_, keys, hadv.live?_self, hkeys.trans hk, hkey⟩
    · exact ⟨th₀, keys, (hadv.live?_other hut).trans hu, hk, hkey⟩
  · rw [hpg]
    by_cases hut : u = t
    · subst hut
      cases hadv.live?_self.symm.trans hu
      exact hI.held u th keys hadv.live (hkeys.symm.trans hk) key hkey
    · exact hI.held u th' keys ((hadv.live?_other hut).symm.trans hu) hk key hkey

theorem Keyed.sql (hI : Keyed s) (hr : Reachable env C s) {q : Sql} {r : Except Err q.Ret}
    {k : Except Err q.Ret → Code Reply} (hadv : Advance s s' t c th (.sql q) r k w m) : Keyed s' := by
  obtain ⟨pg', sess', hex, rfl, rfl⟩ := perform_sql hadv.done
  have hopen := ((reachable_ok hr).threads t th hadv.live).sess_open
  have hpermits := reachable_permits hr hadv.live hadv.prog
  have hpg : s'.pg = pg' := by rw [hadv.world]
  obtain ⟨hothers, hmine⟩ := Sql.exec_locks hex fun hnone => by
    rw [hnone] at hopen
    refine ⟨?_, ?_⟩
    · rintro d rfl
      rw [show th.holdings.keys = some [] from hpermits] at hopen
      cases hopen
    · rintro g n rfl
      rw [show th.holdings.keys = some [] from hpermits] at hopen
      cases hopen
  rw [hopen] at hmine
  refine ⟨fun key u hl => ?_, fun u th' keys hu hk key hkey => ?_⟩
  · rw [hpg] at hl
    by_cases hut : u = t
    · subst hut
      obtain ⟨hc, hl⟩ := (hmine key).mp hl
      obtain ⟨keys, hkeys, hkey⟩ : ∃ keys, th.holdings.keys = some keys ∧ key ∈ keys ++ q.takes r := by
        rcases hl with hl | ⟨hsome, hkey⟩
        · obtain ⟨th₀, keys, hu, hk, hkey⟩ := hI.owned key u hl
          cases hadv.live.symm.trans hu
          exact ⟨keys, hk, List.mem_append_left _ hkey⟩
        · obtain ⟨keys, hk⟩ := Option.isSome_iff_exists.mp hsome
          exact ⟨keys, hk, List.mem_append_right _ hkey⟩
      refine ⟨_, keys ++ q.takes r, hadv.live?_self, ?_, hkey⟩
      change (Holdings.next th.holdings (.sql q) r).keys = _
      cases q with
      | begin =>
        -- no transaction is open before a BEGIN
        rw [show th.holdings.keys = none from hpermits] at hkeys
        cases hkeys
      | _ => simp [Holdings.next, hc, hkeys]
    · obtain ⟨th₀, keys, hu, hk, hkey⟩ := hI.owned key u ((hothers key u hut).mp hl)
      exact ⟨th₀, keys, (hadv.live?_other hut).trans hu, hk, hkey⟩
  · rw [hpg]
    by_cases hut : u = t
    · subst hut
      cases hadv.live?_self.symm.trans hu
      rcases Holdings.next_sql th.holdings r hk with ⟨-, rfl⟩ | ⟨hc, old, hold, rfl⟩
      · cases hkey
      · refine (hmine key).mpr ⟨hc, ?_⟩
        rcases List.mem_append.mp hkey with hkey | hkey
        · exact Or.inl (hI.held u th old hadv.live hold key hkey)
        · exact Or.inr ⟨by rw [hold]; rfl, hkey⟩
    · refine (hothers key u hut).mpr ?_
      exact hI.held u th' keys ((hadv.live?_other hut).symm.trans hu) hk key hkey

end Call

theorem Keyed.idle (hI : Keyed s) (hr : Reachable env C s) (h : step env s l = some s')
    (hop : ∀ t c, l ≠ .op t c) : Keyed s' := by
  have hidle := step_idle h hop
  refine ⟨fun key u hl => ?_, fun u th' keys hu hk key hkey => ?_⟩
  · obtain ⟨th, keys, hu, hk, hkey⟩ := hI.owned key u (hidle.locksOld u key hl)
    have hsettle : l ≠ .settle u := by
      rintro rfl
      obtain ⟨th₀, hlive, hend, -⟩ := settle_cases h
      cases hu.symm.trans hlive
      rw [reachable_ended hr hu hend] at hk
      cases hk
    have hcrash : l ≠ .crash u := by
      rintro rfl
      obtain ⟨th₀, -, rfl⟩ := Option.map_eq_some_iff.mp h
      change (if s.pg.locks key = some u then none else s.pg.locks key) = some u at hl
      split at hl
      · cases hl
      · rename_i hne
        exact hne hl
    obtain ⟨th', hu', -⟩ := step_survives h hu hsettle hcrash
    cases step_arises h hu' with
    | called hl' => exact absurd hl' (hop _ _)
    | kept _ hlive hkept =>
      cases hu.symm.trans hlive
      refine ⟨th', keys, hu', ?_, hkey⟩
      rw [Thread.holdings, hkept.trace]
      exact hk
    | fresh hlen => exact absurd (State.live?_lt hu) (Nat.not_lt.mpr hlen)
  · cases step_arises h hu with
    | called hl' => exact absurd hl' (hop _ _)
    | @kept th _ hlive hkept =>
      refine hidle.locksKept u th' key hu (hI.held u th keys hlive ?_ key hkey)
      rw [Thread.holdings, ← hkept.trace]
      exact hk
    | fresh hlen hstart hth =>
      subst hth
      cases hk

theorem reachable_keyed (h : Reachable env C s) : Keyed s := by
  refine h.along ⟨nofun, fun u th keys hu => by simp [State.live?] at hu⟩ ?_
  intro s l s' hr hI _ hstep
  by_cases hop : ∃ t c, l = .op t c
  · obtain ⟨t, c, rfl⟩ := hop
    obtain ⟨th, e, r, k, w, m, hadv⟩ := stepOp_cases hstep
    by_cases hq : ∃ q, e = .sql q
    · obtain ⟨q, rfl⟩ := hq
      exact hI.sql hr hadv
    · exact hI.other hadv fun q hq' => hq ⟨q, hq'⟩
  · exact hI.idle hr hstep fun t c hl => hop ⟨t, c, hl⟩

/-- **Nothing leaks**: a key of the server is owned by an execution that is alive, in a transaction and
not at its end; an execution at its end has no transaction open, owns no key, and its heartbeat timer
is cleared. -/
theorem nothing_leaks (h : Reachable env C s) :
    (∀ key u, s.pg.locks key = some u →
      ∃ th e k, s.live? u = some th ∧ th.mem.sess.isSome = true ∧ th.prog = .op e k) ∧
    ∀ t th, s.live? t = some th → (∀ e k, th.prog ≠ .op e k) →
      th.mem.sess = none ∧ th.mem.heartbeat = false ∧ ∀ key, s.pg.locks key ≠ some t := by
  have hkeyed := reachable_keyed h
  have hopen : ∀ {t th}, s.live? t = some th → th.mem.sess.isSome = th.holdings.keys.isSome :=
    fun ht => ((reachable_ok h).threads _ _ ht).sess_open
  refine ⟨fun key u hl => ?_, fun t th ht hend => ?_⟩
  · obtain ⟨th, keys, hu, hk, -⟩ := hkeyed.owned key u hl
    cases hp : th.prog with
    | op e k => exact ⟨th, e, k, hu, by rw [hopen hu, hk]; rfl, hp⟩
    | _ =>
      rw [reachable_ended h hu (by simp [hp])] at hk
      cases hk
  · have hempty := reachable_ended h ht hend
    refine ⟨?_, ?_, fun key hl => ?_⟩
    · rw [← Option.not_isSome_iff_eq_none, hopen ht, hempty]
      exact Bool.false_ne_true
    · rw [reachable_timer h t th ht, hempty]
    · obtain ⟨th₀, keys, hu, hk, -⟩ := hkeyed.owned key t hl
      cases ht.symm.trans hu
      rw [hempty] at hk
      cases hk

/-! ## Waiting -/

/-- The key the next call of the execution has to wait for. -/
def State.wants (s : State) (t : Tid) : Option LockKey :=
  (s.live? t).bind fun th =>
    match th.prog with
    | .op (.sql q) _ => q.lockKey
    | _ => none

/-- The execution wants a key that another one owns. -/
abbrev State.WaitsFor (s : State) : Tid → Tid → Prop := Waiting.WaitsFor s.pg.locks s.wants

/-- The next call of the execution can be made, and answered without a fault. -/
def State.CanCall (env : Env) (s : State) (t : Tid) : Prop :=
  ∃ c s', c.fault = .none ∧ step env s (.op t c) = some s'

theorem State.wants_eq {x : LockKey} (h : s.wants t = some x) :
    ∃ th q k, s.live? t = some th ∧ th.prog = .op (.sql q) k ∧ q.lockKey = some x := by
  obtain ⟨th, ht, h⟩ := Option.bind_eq_some_iff.mp h
  split at h
  · rename_i q k hp
    exact ⟨th, q, k, ht, hp, h⟩
  · cases h

/-- **The keys are taken in the order of their ranks.** -/
theorem reachable_lock_ordered (h : Reachable env C s) :
    Waiting.Ordered s.pg.locks s.wants LockKey.rank 1 where
  rises t u htu x y hx hy := by
    obtain ⟨th, q, k, ht, hp, hkey⟩ := State.wants_eq hx
    obtain ⟨th₀, keys, ht₀, hkeys, hmem⟩ := (reachable_keyed h).owned y t hy
    cases ht.symm.trans ht₀
    have hpermits := reachable_permits h ht hp
    cases q with
    | write st =>
      rcases hpermits x hkey keys hkeys with hown | hlt
      · -- the key would be its own
        obtain ⟨x', hx', howner, hne⟩ := htu
        cases hx.symm.trans hx'
        have hself := (reachable_keyed h).held t th keys ht hkeys x hown
        exact absurd (Option.some.inj (howner.symm.trans hself)) hne
      · exact hlt y hmem
    | selectStatusForUpdate d =>
      rw [show th.holdings.keys = some [] from hpermits] at hkeys
      cases hkeys
      cases hmem
    | _ => cases hkey
  bounded x := by cases x <;> simp [LockKey.rank]

/-- The rows a claiming SELECT may take: the first that satisfy the predicate and that nobody owns. -/
def Postgres.claims (pg : Postgres) (t : Tid) (grace limit : ℕ) (now : Time) : List DeliveryId :=
  ((pg.db.deliveries.filter fun r => claimable grace now r && pg.free t (.row r.id)).take limit).map (·.id)

theorem Postgres.mayClaim_claims {pg : Postgres} (hdb : DbOk pg.db) (grace limit : ℕ) (now : Time) :
    pg.mayClaim t grace limit now (pg.claims t grace limit now) = true := by
  unfold Postgres.mayClaim Postgres.claims
  generalize hrows : pg.db.deliveries.filter (fun r => claimable grace now r && pg.free t (.row r.id)) =
    rows
  have hmem : ∀ r ∈ rows, r ∈ pg.db.deliveries ∧ claimable grace now r = true ∧
      pg.free t (.row r.id) = true := by
    intro r hr
    rw [← hrows] at hr
    simpa using hr
  have hsub : (rows.map (·.id)).Nodup := by
    rw [← hrows]
    exact (List.filter_sublist.map _).nodup hdb.ids
  refine decide_eq_true ⟨?_, ?_, fun d hd => ?_, fun hlt r hr hc hf => ?_⟩
  · exact ((List.take_sublist _ _).map _).nodup hsub
  · rw [List.length_map]
    exact List.length_take_le _ _
  · obtain ⟨r, hr, rfl⟩ := List.mem_map.mp hd
    obtain ⟨hr, hc, hf⟩ := hmem r (List.mem_of_mem_take hr)
    refine ⟨?_, hf⟩
    rw [Db.delivery?, Table.find?_eq_of_mem DeliveryRow.id hdb.ids hr]
    exact hc
  · rw [List.length_map, List.length_take] at hlt
    rw [List.take_of_length_le (by omega)]
    refine List.mem_map_of_mem ?_
    rw [← hrows]
    simp [hr, hc, hf]

/-- **A statement whose key nobody else owns runs.** -/
theorem Sql.exec_unblocked {pg : Postgres} (hdb : DbOk pg.db) (now : Time) (sess : Option Session)
    {q : Sql} (hfree : ∀ key ∈ q.lockKey, pg.free t key = true) :
    ∃ rows x, q.exec pg t now sess .none rows = some x := by
  cases q with
  | write st =>
    have hall : st.key.all (pg.free t) = true := by
      cases hk : st.key with
      | none => rfl
      | some key => exact hfree key hk
    simp only [Sql.exec, Stmt.exec]
    rw [if_neg (by simp), if_pos hall]
    split
    · exact ⟨[], _, rfl⟩
    · exact ⟨[], _, rfl⟩
    · cases sess with
      | some σ => exact ⟨[], _, rfl⟩
      | none => exact ⟨[], _, rfl⟩
  | selectUnenqueued grace limit =>
    refine ⟨pg.claims t grace limit ((sess.map (·.startedAt)).getD now), ?_⟩
    simp only [Sql.exec]
    rw [if_pos trivial, if_pos (Postgres.mayClaim_claims hdb _ _ _)]
    exact ⟨_, rfl⟩
  | selectStatusForUpdate d =>
    simp only [Sql.exec]
    rw [if_pos trivial, if_pos (hfree _ rfl)]
    split <;> exact ⟨[], _, rfl⟩
  | _ => exact ⟨[], _, rfl⟩

theorem State.CanCall.of_perform (ht : s.live? t = some th) {e : Eff} {k : e.Resp → Code Reply}
    (hp : th.prog = .op e k) {c : Choice} (hc : c.fault = .none) {x : World × Memory × e.Resp}
    (hx : perform t s.toWorld th.mem c e = some x) : s.CanCall env t := by
  refine ⟨c, ⟨x.1, s.threads.set t (th.after e x.2.2 k x.2.1)⟩, hc, ?_⟩
  simp only [step, State.stepOp, ht, Option.bind_some, hp, hx, Option.map_some]
  rfl

/-- **Who waits for nobody can go on.** -/
theorem reachable_canCall (h : Reachable env C s) (ht : s.live? t = some th) {e : Eff}
    {k : e.Resp → Code Reply} (hp : th.prog = .op e k) (hw : ∀ u, ¬ s.WaitsFor t u) :
    s.CanCall env t := by
  by_cases hq : ∃ q, e = .sql q
  · obtain ⟨q, rfl⟩ := hq
    have hfree : ∀ key ∈ q.lockKey, s.pg.free t key = true := by
      intro key hkey
      refine Postgres.free_iff.mpr fun u hu => ?_
      by_contra hne
      refine hw u ⟨key, ?_, hu, hne⟩
      rw [State.wants, ht, Option.bind_some, hp]
      exact hkey
    obtain ⟨rows, ⟨pg', sess', r⟩, hx⟩ :=
      Sql.exec_unblocked (reachable_ok h).db s.now th.mem.sess hfree
    refine .of_perform (c := { rows := rows })
      (x := ({ s.toWorld with pg := pg' }, { th.mem with sess := sess' }, r)) ht hp rfl ?_
    simp only [perform, hx, Option.map_some]
  · cases e with
    | sql q => exact absurd ⟨q, rfl⟩ hq
    | _ => exact .of_perform (c := {}) ht hp rfl rfl

/-- **No deadlock**: nobody waits for himself, directly or through others, and everybody who is not at
his end waits, directly or through others, for somebody whose next call can be made and answered. -/
theorem deadlock_free (h : Reachable env C s) :
    (∀ t, ¬ Relation.TransGen s.WaitsFor t t) ∧
    ∀ t th e k, s.live? t = some th → th.prog = .op e k →
      ∃ u, Relation.ReflTransGen s.WaitsFor t u ∧ s.CanCall env u := by
  have hordered := reachable_lock_ordered h
  refine ⟨hordered.acyclic, fun t th e k ht hp => ?_⟩
  obtain ⟨u, htu, hend⟩ := hordered.exists_running t
  refine ⟨u, htu, ?_⟩
  rcases Relation.ReflTransGen.cases_tail htu with rfl | ⟨v, -, x, -, howner, -⟩
  · exact reachable_canCall h ht hp hend
  · -- the owner of a key is in a transaction
    obtain ⟨th', e', k', hu, -, hp'⟩ := (nothing_leaks h).1 x u howner
    exact reachable_canCall h hu hp' hend

/-! ## Runs in which somebody waits -/

/-- Execution 1 is about to commit its mark on the delivery when execution 2 wants the same row. -/
def sampleWaiting : List Label :=
  sampleIngest ++ .pickup (.delivery 2) :: calls 1 9 ++
    .request (.repoCall (.transition 2 .pending .failed .reconciler "by hand")) :: calls 2 2

/-- In `sampleWaiting` execution 2 waits for execution 1, which is in the middle of its transaction. -/
def State.secondWaits (s : State) : Bool :=
  s.wants 2 = some (.row 2) ∧ s.pg.locks (.row 2) = some 1 ∧ (s.live? 2).isSome

theorem deadlock_free_waiting : ∃ s u, Reachable sampleEnv (fun _ _ => True) s ∧ s.WaitsFor 2 1 ∧
    Relation.ReflTransGen s.WaitsFor 2 u ∧ s.CanCall sampleEnv u := by
  obtain ⟨s, hreach, hs⟩ := sample_run (C := fun _ _ => True) sampleWaiting State.secondWaits
    (by decide +kernel)
  obtain ⟨hw, ho, hl⟩ : s.wants 2 = some (.row 2) ∧ s.pg.locks (.row 2) = some 1 ∧
    (s.live? 2).isSome := by simpa [State.secondWaits] using hs
  obtain ⟨th, q, k, ht, hp, -⟩ := State.wants_eq hw
  obtain ⟨u, hu, hcan⟩ := (deadlock_free hreach).2 2 th _ k ht hp
  exact ⟨s, u, hreach, ⟨_, hw, ho, by decide⟩, hu, hcan⟩

theorem nothing_leaks_waiting : ∃ s th e k, Reachable sampleEnv (fun _ _ => True) s ∧
    s.pg.locks (.row 2) = some 1 ∧ s.live? 1 = some th ∧ th.mem.sess.isSome = true ∧
      th.prog = .op e k := by
  obtain ⟨s, hreach, hs⟩ := sample_run (C := fun _ _ => True) sampleWaiting
    (fun s => s.pg.locks (.row 2) = some 1) (by decide +kernel)
  have ho : s.pg.locks (.row 2) = some 1 := by simpa using hs
  obtain ⟨th, e, k, ht, hsess, hp⟩ := (nothing_leaks hreach).1 _ _ ho
  exact ⟨s, th, e, k, hreach, ho, ht, hsess, hp⟩

end WebhookEngine
