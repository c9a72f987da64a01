import Mathlib.Data.Set.Finite.Basic
import WebhookEngine.Proof.Deadlock
import WebhookEngine.Proof.Derived
import WebhookEngine.Proof.Idempotency
import WebhookEngine.Proof.Pipeline
import WebhookEngine.Proof.References
import WebhookEngine.Proof.Retry
import WebhookEngine.Proof.Tokens
import WebhookEngine.Proof.Unrecorded

set_option autoImplicit false

/-!
# No delivery is stuck

Whatever has happened, the engine can still deliver what is queued: the processes that are left die,
the locks run out, and the next processor finds its way free.

* `Floored`: a bucket that does not run out has a token left.
* `Approach`: how far a processor has come on its way to the endpoint; **`safe_approach`**: if nothing
  stands in its way it sends its request.
* `Clear`: nothing stands in its way; `Clear.call`: it stays so.
* `Recovers`: what a recovery consists of; `aimed_recovers`: the calls of a processor are part of one.
* **`recoverable`**: from every reachable state a queued delivery of an active endpoint that answers can
  be delivered.
* `run_postRetry`: what the retry route leaves; **`retry_recovers`**: so can one from the dead-letter
  queue.
-/

namespace WebhookEngine

open EffectProg TransitionSystem

variable {env : Env} {C : State → Label → Prop} {s s' : State} {l : Label} {t u : Tid}
  {th th' : Thread} {job : JobRef} {d : DeliveryId}

/-! ## Buckets that do not run out -/

/-- A bucket is filled up to the maximum. -/
def caps (env : Env) (ep : EndpointId) : Monitor Eff Eff.Resp Unit where
  next _ _ _ := ()
  permits _ e := ∀ n, e = .redis (.hsetTokens ep n) → n = env.rlMaxInflight
  expects _ _ _ := True

/-- No command sets a bucket. -/
def Hardly : Eff → Prop
  | .redis (.hsetTokens _ _) => False
  | _ => True

theorem safe_caps (ep : EndpointId) (t : Tid) (k : Kind) :
    Prog.Safe (caps env ep) () (program env t k) fun _ _ => True := by
  have happart : ∀ {α : Type} {p : Code α} {Q : Unit → Except Err α → Prop}, p.Uses (Apart ep) →
      (∀ x, Q () x) → Prog.Safe (caps env ep) () p Q := fun hp hQ =>
    hp.safe (fun e he => ⟨fun n hn => by subst hn; exact absurd rfl he, fun _ => rfl⟩) hQ
  by_cases hk : ∃ job, k = .deliver job
  · obtain ⟨job, rfl⟩ := hk
    refine Prog.safe_bind.mpr ((@safe_bracket env Unit (caps env ep) () (fun _ => ()) job t
      (fun _ hp hQ => happart (hp.mono fun _ h => h.apart) hQ) (fun ep' Q h1 h2 h3 => ?_)
      fun ep' Q hQ => ?_).mono fun m x _ => ?_)
    · refine ⟨nofun, fun x _ => ?_⟩
      cases x with
      | error y => exact h3 y
      | ok v =>
        have hres : ∀ b : Bool, Q () (.ok b) := fun b => by cases b <;> assumption
        exact hres _
    · have hexpire : Prog.Safe (caps env ep) () ((redis (.expireTokens ep' env.rlTtlSeconds)).bind
          fun _ => (Prog.ret () : Code Unit)) Q :=
        Prog.Uses.safe (S := Hardly) ((uses_redis (by trivial)).bind fun _ => by trivial)
          (fun e he => ⟨fun n hn => by subst hn; exact he.elim, fun _ => rfl⟩) hQ
      refine Prog.safe_bind.mpr ⟨nofun, fun x _ => Prog.safe_ofExcept.mpr ?_⟩
      cases x with
      | error y => exact hQ _
      | ok v =>
        dsimp only
        split
        · refine Prog.safe_bind.mpr ⟨fun n hn => ?_, fun x _ => Prog.safe_ofExcept.mpr ?_⟩
          · cases hn
            rfl
          · cases x with
            | error y => exact hQ _
            | ok _ => exact hexpire
        · exact hexpire
    · cases x <;> trivial
  · exact happart (apart_program t fun job hj => hk ⟨job, hj⟩) fun _ => trivial

/-- **A bucket that does not run out has a token left.** -/
def Floored (s : State) : Prop := ∀ ep v, s.redis.bucket ep = some (v, none) → 1 ≤ v

theorem bucketEntry_stored {r : Redis} {now : Time} {ep : EndpointId} {e : Int × Option Time}
    (h : r.bucketEntry now ep = some e) : r.bucket ep = some e := (Option.filter_eq_some_iff.mp h).1

theorem RedisCmd.exec_floored {c : RedisCmd} {now : Time} {r : Redis}
    (h : ∀ ep v, r.bucket ep = some (v, none) → 1 ≤ v)
    (hcap : ∀ ep n, c = .hsetTokens ep n → 1 ≤ n) :
    ∀ ep v, (c.exec now r).1.bucket ep = some (v, none) → 1 ≤ v := by
  intro ep v hv
  have hput : ∀ {ep' : EndpointId} {o : Option (Int × Option Time)},
      Function.update r.bucket ep' o ep = some (v, none) → (∀ v', o = some (v', none) → 1 ≤ v') →
        1 ≤ v := by
    intro ep' o hu ho
    by_cases hep : ep = ep'
    · subst hep
      rw [Function.update_self] at hu
      exact ho v hu
    · rw [Function.update_of_ne hep] at hu
      exact h ep v hu
  cases c with
  | setLock d token ttl =>
    simp only [RedisCmd.exec] at hv
    split at hv <;> exact h ep v hv
  | evalReleaseLock d token =>
    simp only [RedisCmd.exec] at hv
    split at hv <;> exact h ep v hv
  | setProbe ep' ttl =>
    simp only [RedisCmd.exec] at hv
    split at hv <;> exact h ep v hv
  | evalTokenBucket ep' max ttl =>
    simp only [RedisCmd.exec] at hv
    split at hv
    · exact h ep v hv
    · exact hput hv fun v' hv' => by cases hv'
  | hincrbyTokens ep' =>
    refine hput hv fun v' hv' => ?_
    cases he : r.bucketEntry now ep' with
    | none =>
      rw [he] at hv'
      cases hv'
      decide
    | some e =>
      rw [he] at hv'
      obtain ⟨n, exp⟩ := e
      have hn : some (n + 1, exp) = some (v', none) := hv'
      cases hn
      have := h ep' n (bucketEntry_stored he)
      omega
  | hsetTokens ep' n =>
    refine hput hv fun v' hv' => ?_
    have hn : (n : Int) = v' := congrArg Prod.fst (Option.some.inj hv')
    have := hcap ep' n rfl
    omega
  | expireTokens ep' ttl =>
    refine hput hv fun v' hv' => ?_
    obtain ⟨e, -, he⟩ := Option.map_eq_some_iff.mp hv'
    cases he
  | _ => exact h ep v hv

theorem reachable_floored (hcap : 0 < env.rlMaxInflight) (h : Reachable env C s) : Floored s := by
  refine h.along (I := Floored) (fun ep v hv => by cases hv) ?_
  intro s l s' hr hI _ hstep
  cases step_happens hstep with
  | @op t c th e x k w m _ hadv =>
    have hw : s'.redis = w.redis := by rw [hadv.world]
    unfold Floored
    rw [hw]
    by_cases he : ∃ cmd, e = .redis cmd
    · obtain ⟨cmd, rfl⟩ := he
      rw [(perform_redis hadv.done).1]
      have hset : ∀ ep n, cmd = .hsetTokens ep n → 1 ≤ n := by
        rintro ep n rfl
        have hsafe := @reachable_watched env C s Unit (fun _ => True) (fun _ _ => caps env ep) ()
          (fun _ _ _ _ => True) (fun t k _ => safe_caps ep t k) (fun _ _ _ _ _ => trivial) hr t th
          (State.live?_eq_some.mp hadv.live).1 trivial
        rw [hadv.prog] at hsafe
        rw [hsafe.1 n rfl]
        exact hcap
      unfold Fault.run
      split
      · exact hI
      · exact RedisCmd.exec_floored hI hset
    · rw [(perform_now hadv.done).2 fun cmd hc => he ⟨cmd, hc⟩]
      exact hI
  | settle _ _ hset => cases hset <;> exact hI
  | extend =>
    intro ep v hv
    refine hI ep v ?_
    change Redis.bucket (s.redis.extendLock _ _ _ _).1 ep = _ at hv
    unfold Redis.extendLock at hv
    split at hv <;> exact hv
  | @evict key =>
    intro ep v hv
    cases key with
    | bucket ep' =>
      by_cases hep : ep = ep'
      · subst hep
        simp [Redis.evict] at hv
      · refine hI ep v ?_
        simpa [Redis.evict, hep] using hv
    | _ => exact hI ep v hv
  | redisLoss => exact fun ep v hv => by cases hv
  | _ => exact hI

/-! ## On the way to the endpoint -/

/-- How far a processor has come. -/
structure Approach where
  locked : Bool := false
  read : Bool := false
  probed : Bool := false
  taken : Bool := false

def Approach.next (m : Approach) : (e : Eff) → e.Resp → Approach
  | .redis (.setLock _ _ _), _ => { m with locked := true }
  | .sql (.selectForDelivery _), _ => { m with read := true }
  | .redis (.setProbe _ _), _ => { m with probed := true }
  | .redis (.evalTokenBucket _ _ _), _ => { m with taken := true }
  | _, _ => m

/-- The statements of a status change of `d`. -/
def Stmt.moves (d : DeliveryId) : Stmt → Prop
  | .updateStatus d' _ => d' = d
  | .insertTransition d' _ _ _ _ => d' = d
  | _ => False

/-- The calls on the way: lock, row, breaker and bucket once each, then the status change. -/
def permitsApproach (env : Env) (i : IdText) (r : DeliveryForWorker) (m : Approach) : Eff → Prop
  | .redis (.setLock i' _ _) => i' = i ∧ m.locked = false
  | .sql (.selectForDelivery d) => d = i.id ∧ m.read = false
  | .redis (.existsOpen ep) => ep = r.endpointId
  | .redis (.getFails _) => True
  | .redis (.setProbe ep _) => ep = r.endpointId ∧ m.probed = false
  | .redis (.evalTokenBucket ep max _) =>
    ep = r.endpointId ∧ max = env.rlMaxInflight ∧ m.taken = false
  | .sql .connect => True
  | .sql .begin => m.read = true
  | .sql .commit => m.read = true
  | .sql (.write st) => st.moves i.id ∧ m.read = true
  | .dateNow => True
  | .setInterval => True
  | .httpStart _ => True
  | .httpAwait => m.read = true
  | _ => False

/-- The answers when nothing stands in the way; the way ends when the request is on its way. -/
def expectsApproach (r : DeliveryForWorker) : (e : Eff) → e.Resp → Prop
  | .redis (.setLock _ _ _), x => x = .ok true
  | .sql (.selectForDelivery _), x => x = .ok (some r)
  | .redis (.existsOpen _), x => x = .ok false
  | .redis (.getFails _), x => ∃ fails, x = .ok fails
  | .redis (.setProbe _ _), x => x = .ok true
  | .redis (.evalTokenBucket _ _ _), x => ∃ remaining : Int, x = .ok remaining ∧ remaining ≠ -1
  | .sql .connect, x => x = .ok ()
  | .sql .begin, x => x = .ok ()
  | .sql .commit, x => x = .ok ()
  | .sql (.write _), x => ∃ g, x = .ok g
  | .httpAwait, _ => False
  | _, _ => True

/-- The monitor. -/
def approaches (env : Env) (i : IdText) (r : DeliveryForWorker) :
    Monitor Eff Eff.Resp Approach where
  next := Approach.next
  permits := permitsApproach env i r
  expects _ := expectsApproach r

section Program

variable {i : IdText} {r : DeliveryForWorker} {m : Approach}

theorem approach_checkState {Q : Approach → Except Err BreakerState → Prop} (hm : m.probed = false)
    (hQ : ∀ m' breaker, m'.read = m.read → m'.taken = m.taken → breaker ≠ .opened →
      Q m' (.ok breaker)) :
    Prog.Safe (approaches env i r) m (checkState env r.endpointId) Q := by
  refine Prog.safe_bind.mpr ⟨rfl, fun x hx => Prog.safe_ofExcept.mpr ?_⟩
  have hx : x = .ok false := hx
  subst hx
  refine Prog.safe_bind.mpr ⟨trivial, fun x hx => Prog.safe_ofExcept.mpr ?_⟩
  obtain ⟨fails, hx⟩ : ∃ fails, x = .ok fails := hx
  subst hx
  dsimp only
  split
  · refine Prog.safe_bind.mpr ⟨⟨rfl, hm⟩, fun x hx => Prog.safe_ofExcept.mpr ?_⟩
    have hx : x = .ok true := hx
    subst hx
    exact hQ _ .probe rfl rfl nofun
  · exact hQ _ .closed rfl rfl nofun

theorem approach_tryAcquire {Q : Approach → Except Err Bool → Prop} (hm : m.taken = false)
    (hQ : Q { m with taken := true } (.ok true)) :
    Prog.Safe (approaches env i r) m (tryAcquire env r.endpointId) Q := by
  refine Prog.safe_bind.mpr ⟨⟨rfl, rfl, hm⟩, fun x hx => Prog.safe_ofExcept.mpr ?_⟩
  obtain ⟨remaining, hx, hne⟩ : ∃ remaining : Int, x = .ok remaining ∧ remaining ≠ -1 := hx
  subst hx
  change Q { m with taken := true } (.ok (decide (remaining ≠ -1)))
  rw [decide_eq_true hne]
  exact hQ

theorem approach_pickup (hjob : job.text = i) (hopen : r.status.terminal = false)
    (hactive : r.endpointActive = true) {Q : Approach → Except Err (Option Pickup) → Prop}
    (hQ : ∀ m' breaker, m'.read = true → Q m' (.ok (some ⟨r, breaker⟩))) :
    Prog.Safe (approaches env i r) { locked := true } (pickup env job) Q := by
  refine Prog.safe_bind.mpr ⟨⟨congrArg IdText.id hjob, rfl⟩, fun x hx =>
    Prog.safe_ofExcept.mpr ?_⟩
  have hx : x = .ok (some r) := hx
  subst hx
  have hstatus : ¬ (r.status = .delivered ∨ r.status = .dlq) := by
    rintro (h | h) <;> rw [h] at hopen <;> cases hopen
  dsimp only
  rw [if_neg hstatus, if_neg (by simp [hactive])]
  refine Prog.safe_bind.mpr (approach_checkState rfl fun m breaker hread htaken hb => ?_)
  dsimp only
  rw [if_neg hb]
  exact Prog.safe_bind.mpr (approach_tryAcquire htaken (hQ _ breaker hread))

theorem approach_transition {f g : Status} {a : Actor} {reason : String}
    {Q : Approach → Except Err Unit → Prop} (hm : m.read = true) (hQ : Q m (.ok ())) :
    Prog.Safe (approaches env i r) m (transition i.id f g a reason) Q := by
  refine Prog.safe_bind.mpr ⟨trivial, fun x hx => Prog.safe_ofExcept.mpr ?_⟩
  have hx : x = .ok () := hx
  subst hx
  refine Prog.safe_tryCatch.mpr (Prog.safe_bind.mpr ⟨hm, fun x hx => Prog.safe_ofExcept.mpr ?_⟩)
  have hx : x = .ok () := hx
  subst hx
  refine Prog.safe_bind.mpr (Prog.safe_bind.mpr ⟨⟨rfl, hm⟩, fun x hx => Prog.safe_ofExcept.mpr ?_⟩)
  obtain ⟨g, hx⟩ : ∃ g, x = .ok g := hx
  subst hx
  refine Prog.safe_bind.mpr ⟨⟨rfl, hm⟩, fun x hx => Prog.safe_ofExcept.mpr ?_⟩
  obtain ⟨g, hx⟩ : ∃ g, x = .ok g := hx
  subst hx
  refine Prog.safe_bind.mpr ⟨hm, fun x hx => Prog.safe_ofExcept.mpr ?_⟩
  have hx : x = .ok () := hx
  subst hx
  exact hQ

theorem approach_dateNow {β : Type} {f : Time → Code β} {Q : Approach → Except Err β → Prop}
    (hf : ∀ now, Prog.Safe (approaches env i r) m (f now) Q) :
    Prog.Safe (approaches env i r) m (dateNow.bind f) Q := ⟨trivial, fun now _ => hf now⟩

theorem approach_exchange {req : HttpRequest}
    {Q : Approach → Except Err (Except Thrown DeliverResult) → Prop}
    (hm : m.read = true) :
    Prog.Safe (approaches env i r) m (withLockHeartbeat (deliver env req)) Q :=
  ⟨trivial, fun _ _ => Prog.safe_andFinally.mpr
    ⟨trivial, fun _ _ => ⟨trivial, fun _ _ => ⟨hm, fun _ h => h.elim⟩⟩⟩⟩

theorem approach_attemptDelivery {p : Pickup} {Q : Approach → Except Err Unit → Prop}
    (hjob : job.text = i) (hm : m.read = true) :
    Prog.Safe (approaches env i r) m (attemptDelivery env job p) Q := by
  subst hjob
  refine Prog.safe_bind.mpr (approach_transition hm ?_)
  refine approach_dateNow fun nowMs => approach_dateNow fun startedAt => ?_
  exact Prog.safe_bind.mpr (approach_exchange hm)

/-- **A processor that finds its way free** does not end before its request is on its way. -/
theorem safe_approach (hjob : job.text = i) (hopen : r.status.terminal = false)
    (hactive : r.endpointActive = true) (t : Tid) :
    Prog.Safe (approaches env i r) {} (program env t (.deliver job)) fun _ _ => False := by
  refine Prog.safe_bind.mpr (Prog.Safe.mono (Q := fun _ _ => False) ?_ fun m x h => h.elim)
  refine Prog.safe_bind.mpr ⟨⟨hjob, rfl⟩, fun x hx => Prog.safe_ofExcept.mpr ?_⟩
  have hx : x = .ok true := hx
  subst hx
  refine Prog.safe_bind.mpr (Prog.safe_tryCatch.mpr
    (approach_pickup hjob hopen hactive fun m breaker hm => ?_))
  exact Prog.safe_andFinally.mpr (approach_attemptDelivery hjob hm)

end Program

/-! ## Nothing in the way -/

theorem Db.apply_count {w : Write} {d' : DeliveryId} (h : w.stmt.moves d') (db : Db) (d : DeliveryId) :
    ((db.apply w).delivery? d).map (·.attemptCount) = (db.delivery? d).map (·.attemptCount) := by
  obtain ⟨st, g, τ⟩ := w
  cases st with
  | updateStatus d₁ st =>
    have hfind := Table.find?_update DeliveryRow.id db.deliveries
      (f := fun r => { r with status := st, updatedAt := τ }) (fun _ => rfl) d₁ d
    refine (congrArg (Option.map DeliveryRow.attemptCount) hfind).trans ?_
    split
    · rw [Option.map_map]
      rfl
    · rfl
  | insertTransition d₁ f st reason a => rfl
  | _ => exact h.elim

theorem Db.applyAll_count {ws : List Write} {e : DeliveryId} (h : ∀ w ∈ ws, w.stmt.moves e) (db : Db)
    (d : DeliveryId) :
    ((db.applyAll ws).delivery? d).map (·.attemptCount) = (db.delivery? d).map (·.attemptCount) := by
  induction ws generalizing db with
  | nil => rfl
  | cons w ws ih =>
    rw [Db.applyAll_cons, ih fun w' hw' => h w' (List.mem_cons_of_mem _ hw')]
    exact Db.apply_count (h w List.mem_cons_self) db d

/-- **Nothing stands in the way** of execution `t` to the endpoint of the delivery it has read as `r`, or
is about to. -/
structure Clear (env : Env) (t : Tid) (i : IdText) (r : DeliveryForWorker) (m : Approach)
    (w : World) (mem : Memory) : Prop where
  only : w.pg.onlyOf t
  lock : m.locked = false → w.redis.lockAt w.now i = none
  row : m.read = false → w.pg.db.forDelivery i.id = some r ∧ mem.sess = none
  count : (w.pg.db.delivery? i.id).map (·.attemptCount) = some r.attemptCount
  writes : ∀ σ ∈ mem.sess, ∀ x ∈ σ.writes, x.stmt.moves i.id
  breaker : w.redis.openAt w.now r.endpointId = false
  probe : m.probed = false → w.redis.probeAt w.now r.endpointId = false
  bucket : m.taken = false → ∀ e ∈ w.redis.bucketEntry w.now r.endpointId, 1 ≤ e.1
  beats : mem.lockLost = false ∧ mem.extending = []

section Call

variable {i : IdText} {r : DeliveryForWorker} {m : Approach} {w w' : World} {mem mem' : Memory}
  {e : Eff} {x : e.Resp}

theorem Clear.redis (h : Clear env t i r m w mem) {m' : Approach} {redis' : Redis}
    (hread : m'.read = m.read) (hlock : m'.locked = false → redis'.lockAt w.now i = none)
    (hbreaker : redis'.openAt w.now r.endpointId = false)
    (hprobe : m'.probed = false → redis'.probeAt w.now r.endpointId = false)
    (hbucket : m'.taken = false → ∀ e ∈ redis'.bucketEntry w.now r.endpointId, 1 ≤ e.1) :
    Clear env t i r m' { w with redis := redis' } mem :=
  ⟨h.only, hlock, fun hm => h.row (hread ▸ hm), h.count, h.writes, hbreaker, hprobe, hbucket, h.beats⟩

theorem Clear.sql (h : Clear env t i r m w mem) {pg' : Postgres} {sess' : Option Session} {m' : Approach}
    (hm : m'.locked = m.locked ∧ m'.probed = m.probed ∧ m'.taken = m.taken)
    (honly : pg'.onlyOf t) (hread : m'.read = true)
    (hcount : (pg'.db.delivery? i.id).map (·.attemptCount) = some r.attemptCount)
    (hwrites : ∀ σ ∈ sess', ∀ x ∈ σ.writes, x.stmt.moves i.id) :
    Clear env t i r m' { w with pg := pg' } { mem with sess := sess' } :=
  ⟨honly, fun h' => h.lock (hm.1 ▸ h'), fun h' => (by rw [hread] at h'; cases h'), hcount, hwrites,
    h.breaker, fun h' => h.probe (hm.2.1 ▸ h'), fun h' => h.bucket (hm.2.2 ▸ h'), h.beats⟩

theorem Clear.seen (h : Clear env t i r m w mem) (now : Time) :
    (((mem.sess.getD ⟨now, []⟩).view w.pg.db).delivery? i.id).isSome := by
  have hcount : (((mem.sess.getD ⟨now, []⟩).view w.pg.db).delivery? i.id).map (·.attemptCount) =
      some r.attemptCount := by
    refine (Db.applyAll_count (e := i.id) (fun x hx => ?_) _ _).trans h.count
    cases hsess : mem.sess with
    | none =>
      rw [hsess] at hx
      cases hx
    | some σ =>
      rw [hsess] at hx
      exact h.writes σ hsess x hx
  obtain ⟨row, hrow, -⟩ := Option.map_eq_some_iff.mp hcount
  rw [hrow]
  rfl

theorem Clear.write (h : Clear env t i r m w mem) {st : Stmt} (hst : st.moves i.id)
    (hread : m.read = true) {x : Except Err (Option ℕ)}
    (hdone : perform t w mem {} (.sql (.write st)) = some (w', mem', x))
    (honly : w'.pg.onlyOf t) : (∃ g, x = .ok g) ∧ Clear env t i r m w' mem' := by
  obtain ⟨pg', sess', hex, rfl, rfl⟩ := perform_sql hdone
  have hverdict : st.verdict ((mem.sess.getD ⟨w.now, []⟩).view w.pg.db) ≠ .fails := by
    cases st with
    | updateStatus d₁ st =>
      simp only [Stmt.verdict]
      split <;> exact fun h => by cases h
    | insertTransition d₁ f st reason a =>
      obtain rfl : d₁ = i.id := hst
      simp only [Stmt.verdict]
      rw [if_pos (h.seen _)]
      exact fun h => by cases h
    | _ => exact hst.elim
  obtain ⟨g, rfl⟩ := Stmt.exec_answered hex hverdict
  refine ⟨⟨g, rfl⟩, ?_⟩
  have hdraw : ((st.draw w.pg.db).2.delivery? i.id).map (·.attemptCount) = some r.attemptCount := by
    cases st with
    | updateStatus d₁ st => exact h.count
    | insertTransition d₁ f st reason a => exact h.count
    | _ => exact hst.elim
  have hcases := Stmt.exec_cases hex
  generalize hx : (Except.ok g : Except Err (Option ℕ)) = x at hcases
  cases hcases with
  | refused => cases hx
  | missed => exact h.sql ⟨rfl, rfl, rfl⟩ honly hread h.count h.writes
  | joins hsess =>
    refine h.sql ⟨rfl, rfl, rfl⟩ honly hread hdraw fun σ' hσ' y hy => ?_
    cases Option.some.inj hσ'
    rcases List.mem_append.mp hy with hy | hy
    · exact h.writes _ hsess y hy
    · rw [List.mem_singleton.mp hy]
      exact hst
  | alone =>
    exact h.sql ⟨rfl, rfl, rfl⟩ honly hread ((Db.apply_count hst _ _).trans hdraw)
      fun σ' hσ' => by cases hσ'

theorem Clear.command {cmd : RedisCmd} {redis' : Redis} {a : cmd.Ret}
    (hexec : cmd.exec w.now w.redis = (redis', a)) (hx : expectsApproach r (.redis cmd) (.ok a))
    (hclear : Clear env t i r (m.next (.redis cmd) (.ok a)) { w with redis := redis' } mem) :
    ∃ w' mem' x, perform t w mem {} (.redis cmd) = some (w', mem', x) ∧
      expectsApproach r (.redis cmd) x ∧ Clear env t i r (m.next (.redis cmd) x) w' mem' := by
  refine ⟨{ w with redis := redis' }, mem, .ok a, ?_, hx, hclear⟩
  have hdone : perform t w mem {} (.redis cmd) = some ({ w with redis := (cmd.exec w.now w.redis).1 },
      mem, .ok (cmd.exec w.now w.redis).2) := rfl
  rw [hdone, hexec]

/-- **A call on the way** is answered as expected, and nothing stands in the way after it. -/
theorem Clear.call (hcap : 0 < env.rlMaxInflight) (h : Clear env t i r m w mem)
    (hp : permitsApproach env i r m e) (he : e ≠ .httpAwait) :
    ∃ w' mem' x, perform t w mem {} e = some (w', mem', x) ∧ expectsApproach r e x ∧
      Clear env t i r (m.next e x) w' mem' := by
  cases e with
  | redis cmd =>
    cases cmd with
    | setLock d' token ttl =>
      obtain ⟨rfl, hm⟩ := hp
      exact Clear.command (if_pos (h.lock hm)) rfl (h.redis rfl nofun h.breaker h.probe h.bucket)
    | existsOpen ep =>
      obtain rfl : ep = r.endpointId := hp
      exact Clear.command rfl (congrArg Except.ok h.breaker)
        (h.redis rfl h.lock h.breaker h.probe h.bucket)
    | getFails ep => exact Clear.command rfl ⟨_, rfl⟩ (h.redis rfl h.lock h.breaker h.probe h.bucket)
    | setProbe ep ttl =>
      obtain ⟨rfl, hm⟩ := hp
      have hfree : ¬ (w.redis.probeAt w.now r.endpointId = true) := by rw [h.probe hm]; nofun
      exact Clear.command (if_neg hfree) rfl (h.redis rfl h.lock h.breaker nofun h.bucket)
    | evalTokenBucket ep max ttl =>
      obtain ⟨rfl, rfl, hm⟩ := hp
      have hsome : ¬ ((w.redis.bucketEntry w.now r.endpointId).map (·.1)).getD
          (env.rlMaxInflight : Int) ≤ 0 := by
        cases hentry : w.redis.bucketEntry w.now r.endpointId with
        | none =>
          change ¬ (env.rlMaxInflight : Int) ≤ 0
          omega
        | some entry =>
          have := h.bucket hm entry hentry
          change ¬ entry.1 ≤ 0
          omega
      refine Clear.command (if_neg hsome) ⟨_, rfl, ?_⟩ (h.redis rfl h.lock h.breaker h.probe nofun)
      omega
    | _ => exact hp.elim
  | sql q =>
    cases q with
    | connect => exact ⟨_, _, _, rfl, rfl, h⟩
    | begin =>
      have hread : m.read = true := hp
      refine ⟨_, _, _, rfl, rfl, h.sql ⟨rfl, rfl, rfl⟩ h.only hread h.count fun σ hσ y hy => ?_⟩
      cases Option.some.inj hσ
      cases hy
    | commit =>
      have hread : m.read = true := hp
      refine ⟨_, _, _, rfl, rfl, h.sql ⟨rfl, rfl, rfl⟩ (h.only.giveBack _) hread ?_
        fun σ hσ => by cases hσ⟩
      refine (Db.applyAll_count (e := i.id) (fun y hy => ?_) _ _).trans h.count
      cases hsess : mem.sess with
      | none =>
        rw [hsess] at hy
        cases hy
      | some σ =>
        rw [hsess] at hy
        exact h.writes σ hsess y hy
    | selectForDelivery d' =>
      obtain ⟨rfl, hm⟩ := hp
      obtain ⟨hrow, hsess⟩ := h.row hm
      have hanswer : ((mem.sess.getD ⟨w.now, []⟩).view w.pg.db).forDelivery i.id = some r := by
        rw [hsess]
        exact hrow
      exact ⟨w, mem, _, rfl, congrArg Except.ok hanswer,
        h.sql ⟨rfl, rfl, rfl⟩ h.only rfl h.count h.writes⟩
    | write st =>
      obtain ⟨w', mem', x, hdone, honly⟩ := perform_enabled h.only mem (.response 200 "")
        (e := .sql (.write st)) (by simp)
      obtain ⟨hx, hclear⟩ := h.write hp.1 hp.2 hdone honly
      exact ⟨w', mem', x, hdone, hx, hclear⟩
    | _ => exact hp.elim
  | dateNow => exact ⟨_, _, _, rfl, trivial, h⟩
  | setInterval =>
    exact ⟨_, _, _, rfl, trivial, h.only, h.lock, h.row, h.count, h.writes, h.breaker, h.probe, h.bucket,
      h.beats⟩
  | httpStart req => exact ⟨_, _, _, rfl, trivial, h⟩
  | httpAwait => exact absurd rfl he
  | _ => exact hp.elim

end Call

theorem Approach.next_read {m : Approach} {e : Eff} (he : ∀ d, e ≠ .sql (.selectForDelivery d))
    (x : e.Resp) : (m.next e x).read = m.read := by
  cases e with
  | sql q =>
    cases q with
    | selectForDelivery d => exact absurd rfl (he d)
    | _ => rfl
  | redis c => cases c <;> rfl
  | _ => rfl

theorem step_op {c : Choice} {e : Eff} {k : e.Resp → Code Reply} {w : World} {m : Memory} {x : e.Resp}
    (hlive : s.live? t = some th) (hp : th.prog = .op e k)
    (hdone : perform t s.toWorld th.mem c e = some (w, m, x)) :
    step env s (.op t c) = some ⟨w, s.threads.set t (th.after e x k m)⟩ := by
  simp only [step, State.stepOp, hlive, Option.bind_some, hp, hdone, Option.map_some]
  rfl

/-- The next call of the execution is answered with the response to its request. -/
def State.waitsForResponse (s : State) (t : Tid) : Prop :=
  ∃ th k, s.live? t = some th ∧ th.prog = .op .httpAwait k

/-- **A processor whose way is free** gets to wait for its response. -/
theorem approach_awaits {r : DeliveryForWorker} {m : Approach} (hcap : 0 < env.rlMaxInflight)
    (ht : s.live? t = some th) (hk : th.kind = .deliver job)
    (hsafe : Prog.Safe (approaches env job.text r) m th.prog fun _ _ => False)
    (hclear : Clear env t job.text r m s.toWorld th.mem)
    (hrow : m.read = true → th.facts.row = some r) :
    ∃ ls s' th', Run (step env) (fun v l => l = .op t {} ∧ ¬ v.waitsForResponse t) s ls s' ∧
      s'.live? t = some th' ∧ th'.Awaits s'.pg.db job.deliveryId r ∧ s'.pg.onlyOf t := by
  generalize hp : th.prog = p at hsafe
  induction p generalizing s th m with
  | ret a => exact hsafe.elim
  | raise y => exact hsafe.elim
  | op e k ih =>
    obtain ⟨hperm, hrest⟩ := hsafe
    by_cases he : e = .httpAwait
    · subst he
      refine ⟨[], s, th, .nil s, ht, ⟨⟨job, hk, rfl⟩, ⟨k, hp⟩, hrow hperm, hclear.count,
        hclear.beats.1, ?_⟩, hclear.only⟩
      rw [hclear.beats.2]
      exact nofun
    · obtain ⟨w, mem, x, hdone, hx, hclear'⟩ := hclear.call hcap hperm he
      have hadv : Advance s ⟨w, s.threads.set t (th.after e x k mem)⟩ t {} th e x k w mem :=
        ⟨ht, hp, hdone, rfl⟩
      have hrow' : (m.next e x).read = true → (th.after e x k mem).facts.row = some r := by
        change _ → (th.facts.next e x).row = some r
        by_cases hq : ∃ d', e = .sql (.selectForDelivery d')
        · obtain ⟨d', rfl⟩ := hq
          have hx : x = .ok (some r) := hx
          subst hx
          exact fun _ => rfl
        · have hne : ∀ d', e ≠ .sql (.selectForDelivery d') := fun d' hd => hq ⟨d', hd⟩
          rw [Approach.next_read hne, Facts.next_row x hne]
          exact hrow
      obtain ⟨ls, s', th', hrun, h'⟩ := ih x hadv.live?_self hk hclear' hrow' rfl (hrest x hx)
      refine ⟨_ :: ls, s', th', .cons ⟨rfl, ?_⟩ (step_op ht hp hdone) hrun, h'⟩
      rintro ⟨th₁, k₁, ht₁, hp₁⟩
      rw [ht] at ht₁
      cases ht₁
      rw [hp] at hp₁
      cases hp₁
      exact he rfl

/-! ## The calls of a recovery -/

/-- **What a recovery consists of**: processes die, BullMQ hands their jobs out again, time passes, and
the calls of the new processor are answered, with 200 where its request goes to a URL that `answers`. -/
def Recovers (answers : String → Prop) (s : State) : Label → Prop
  | .crash _ => True
  | .stall _ => True
  | .tick _ => True
  | .pickup _ => True
  | .op t c => c.fault = .none ∧ c.reply = .response 200 "" ∧ ∀ th k, s.live? t = some th →
      th.prog = .op .httpAwait k → ∀ req ∈ th.facts.sent, answers req.url
  | _ => False

variable {answers : String → Prop}

theorem Recovers.noCalls (h : Recovers answers s l) : NoCalls s l := by
  cases l with
  | request k => exact h.elim
  | _ => trivial

variable (answers) in
/-- The execution sends no request, or one to a URL that `answers`. -/
def Thread.Aimed (th : Thread) : Prop :=
  (∀ job, th.kind ≠ .deliver job) ∨ ∃ r, th.facts.row = some r ∧ answers r.endpointUrl

theorem aimed_recovers (hr : Reachable env NoCalls s) (haimed : ∀ th ∈ s.live? t, th.Aimed answers)
    {ls : List Label} (hrun : Run (step env) (fun _ l => l = .op t {}) s ls s') :
    Run (step env) (Recovers answers) s ls s' := by
  induction hrun with
  | nil => exact .nil _
  | @cons s l s₁ ls s' hl hstep hrun ih =>
    subst hl
    refine .cons ⟨rfl, rfl, fun th k ht hp req hreq => ?_⟩ hstep
      (ih (hr.snoc (show NoCalls s (.op t {}) from trivial) hstep) fun th' ht' => ?_)
    · obtain ⟨job, r, nowMs, hk, hrow, rfl⟩ := reachable_sent hr ht hreq
      obtain hkind | ⟨r', hrow', hurl⟩ := haimed th ht
      · exact absurd hk (hkind job)
      · rw [hrow] at hrow'
        cases hrow'
        exact hurl
    · obtain ⟨th, e, x, k, w, m, hadv⟩ := stepOp_cases hstep
      rw [hadv.live?_self] at ht'
      cases ht'
      obtain hkind | ⟨r, hrow, hurl⟩ := haimed th hadv.live
      · exact .inl hkind
      · exact .inr ⟨r, hadv.row_stays (reachable_ok hr) hrow, hurl⟩

/-- **A processor whose way is free delivers**, if the endpoint accepts. -/
theorem clear_delivers {r : DeliveryForWorker} (hr : Reachable env NoCalls s)
    (hcap : 0 < env.rlMaxInflight) (ht : s.live? t = some th) (hk : th.kind = .deliver job)
    (hprog : th.prog = program env t (.deliver job)) (hopen : r.status.terminal = false)
    (hactive : r.endpointActive = true) (hurl : answers r.endpointUrl)
    (hclear : Clear env t job.text r {} s.toWorld th.mem) :
    ∃ ls s', Run (step env) (Recovers answers) s ls s' ∧
      s'.pg.db.status? job.deliveryId = some .delivered := by
  have hsafe : Prog.Safe (approaches env job.text r) {} th.prog fun _ _ => False :=
    hprog ▸ safe_approach rfl hopen hactive t
  obtain ⟨ls₁, s₁, th₁, hrun₁, ht₁, hw, honly⟩ := approach_awaits hcap ht hk hsafe hclear nofun
  have hreach₁ : Reachable env NoCalls s₁ := hr.run (hrun₁.mono fun s l ⟨hl, _⟩ => by subst hl; trivial)
  have hrun₁ : Run (step env) (Recovers answers) s ls₁ s₁ := hrun₁.mono fun v l ⟨hl, hnot⟩ => by
    subst hl
    exact ⟨rfl, rfl, fun th' k ht' hp' => absurd ⟨th', k, ht', hp'⟩ hnot⟩
  obtain ⟨job', hk₁, -⟩ := hw.kind
  obtain ⟨ls₂, s₂, th₂, hrun₂, ht₂, hend⟩ := @processor_ends env s₁ t th₁ job' (.response 200 "")
    (reachable_ok hreach₁) ht₁ hk₁ honly
  have haimed : ∀ th ∈ s₁.live? t, th.Aimed answers := fun th hth => by
    rw [ht₁] at hth
    cases hth
    exact .inr ⟨r, hw.row, hurl⟩
  refine ⟨ls₁ ++ ls₂, s₂, hrun₁.append (aimed_recovers hreach₁ haimed hrun₂), ?_⟩
  have hexclusive : Run (step env) (Exclusive t job.deliveryId 200 "") s₁ ls₂ s₂ := by
    refine hrun₂.mono ?_
    rintro s l rfl
    refine ⟨trivial, ?_⟩
    change if t = t then _ else _
    rw [if_pos rfl]
    exact ⟨rfl, rfl⟩
  have hongoing := (going_run hreach₁ hexclusive (hw.going hreach₁ ht₁)).ongoing th₂ ht₂
  have htext : textOk (some (keptBody env "")) = true := by simp [keptBody, sliceUtf16, textOk]
  exact ((hongoing.ended hend).mpr htext).delivered (Nat.le_refl _) (by decide)

/-! ## The way is cleared -/

/-- Only executions have died. -/
structure Survives (s s' : State) : Prop where
  db : s'.pg.db = s.pg.db
  redis : s'.redis = s.redis
  jobs : s'.jobs = s.jobs
  now : s'.now = s.now
  length : s'.threads.length = s.threads.length

/-- **All processes die.** -/
theorem exists_quiet (s : State) : ∃ ls s', Run (step env) (fun _ l => ∃ t, l = .crash t) s ls s' ∧
    (∀ t, s'.live? t = none) ∧ Survives s s' := by
  have hfirst : ∀ n, ∃ ls s', Run (step env) (fun _ l => ∃ t, l = .crash t) s ls s' ∧
      (∀ t < n, s'.live? t = none) ∧ Survives s s' := by
    intro n
    induction n with
    | zero => exact ⟨[], s, .nil s, nofun, rfl, rfl, rfl, rfl, rfl⟩
    | succ n ih =>
      obtain ⟨ls, s₁, hrun, hdead, hsame⟩ := ih
      cases hn : s₁.live? n with
      | none =>
        refine ⟨ls, s₁, hrun, fun t ht => ?_, hsame⟩
        rcases Nat.lt_succ_iff_lt_or_eq.mp ht with ht | rfl
        · exact hdead t ht
        · exact hn
      | some th =>
        have hstep : step env s₁ (.crash n) =
            some { s₁.put n { th with alive := false, mem := {} } with pg := s₁.pg.giveBack n } := by
          simp only [step, State.crash, hn, Option.map_some]
        refine ⟨ls ++ [.crash n], _, hrun.append (.cons ⟨n, rfl⟩ hstep (.nil _)), fun t ht => ?_, ?_⟩
        · refine (State.live?_set (w := _) hn rfl).trans ?_
          split
          · rfl
          · rename_i hne
            exact hdead t (Nat.lt_of_le_of_ne (Nat.le_of_lt_succ ht) hne)
        · exact ⟨hsame.db, hsame.redis, hsame.jobs, hsame.now, (List.length_set ..).trans hsame.length⟩
  obtain ⟨ls, s', hrun, hdead, hsame⟩ := hfirst s.threads.length
  refine ⟨ls, s', hrun, fun t => ?_, hsame⟩
  by_cases ht : t < s.threads.length
  · exact hdead t ht
  · rw [State.live?, List.getElem?_eq_none (by rw [hsame.length]; exact Nat.le_of_not_lt ht)]
    rfl

theorem quiet_unlocked (h : Reachable env C s) (hdead : ∀ t, s.live? t = none) (key : LockKey) :
    s.pg.locks key = none := by
  cases hl : s.pg.locks key with
  | none => rfl
  | some u =>
    obtain ⟨th, -, hu, -⟩ := (reachable_keyed h).owned key u hl
    rw [hdead u] at hu
    cases hu

/-- The keys of Redis that are in the way have run out. -/
structure Redis.Free (r : Redis) (now : Time) (i : IdText) (ep : EndpointId) : Prop where
  lock : r.lockAt now i = none
  breaker : r.openAt now ep = false
  probe : r.probeAt now ep = false
  bucket : ∀ e ∈ r.bucketEntry now ep, e.2 = none

/-- **All keys run out in time.** -/
theorem Redis.exists_free (r : Redis) (now : Time) (i : IdText) (ep : EndpointId) :
    ∃ ms, r.Free (now + ms) i ep := by
  have hends : ∀ a b c e now : ℕ, ∃ ms, a ≤ now + ms ∧ b ≤ now + ms ∧ c ≤ now + ms ∧ e ≤ now + ms :=
    fun a b c e now => ⟨a + b + c + e, by omega, by omega, by omega, by omega⟩
  obtain ⟨ms, h1, h2, h3, h4⟩ := hends ((r.lock i).elim 0 (·.2)) ((r.opened ep).getD 0)
    ((r.probe ep).getD 0) ((r.bucket ep).elim 0 fun e => e.2.getD 0) now
  refine ⟨ms, ?_, ?_, ?_, ?_⟩
  · unfold Redis.lockAt
    cases hl : r.lock i with
    | none => rfl
    | some e =>
      rw [hl] at h1
      exact if_neg (Nat.not_lt.mpr h1)
  · unfold Redis.openAt
    cases ho : r.opened ep with
    | none => rfl
    | some exp =>
      rw [ho] at h2
      exact decide_eq_false (Nat.not_lt.mpr h2)
  · unfold Redis.probeAt
    cases ho : r.probe ep with
    | none => rfl
    | some exp =>
      rw [ho] at h3
      exact decide_eq_false (Nat.not_lt.mpr h3)
  · intro e he
    obtain ⟨hget, hlater⟩ := Option.filter_eq_some_iff.mp he
    cases hexp : e.2 with
    | none => rfl
    | some exp =>
      rw [hexp, Option.all_some, decide_eq_true_eq] at hlater
      rw [hget, Option.elim_some, hexp] at h4
      exact absurd hlater (Nat.not_lt.mpr h4)

/-! ## Recovery -/

variable (answers) in
/-- A delivery that is open, and its active endpoint with its URL. -/
structure Deliverable (db : Db) (d : DeliveryId) : Prop where
  status : ∃ row e, db.delivery? d = some row ∧ row.status.terminal = false ∧
    db.endpoint? row.endpointId = some e ∧ e.isActive = true ∧ answers e.url

theorem Deliverable.read {db : Db} (h : Deliverable answers db d) (hdb : DbOk db) :
    ∃ r, db.forDelivery d = some r ∧ r.status.terminal = false ∧ r.endpointActive = true ∧
      answers r.endpointUrl ∧ (db.delivery? d).map (·.attemptCount) = some r.attemptCount := by
  obtain ⟨row, e, hrow, hopen, he, hactive, hurl⟩ := h.status
  obtain ⟨ev, hev, hid⟩ := hdb.deliveryEvent row (List.mem_of_find?_eq_some hrow)
  have hev : db.event? row.eventId = some ev := hid ▸ Table.find?_eq_of_mem EventRow.id hdb.eventIds hev
  rw [Db.forDelivery, hrow, Option.bind_some, he, Option.bind_some, hev, Option.map_some]
  exact ⟨_, rfl, hopen, hactive, hurl, rfl⟩

/-- The job can be handed out. -/
def Job.ready (j : Job) : Prop := j.state = .waiting ∨ j.state = .delayed

/-- The job is live, and BullMQ can take it from the worker it may have. -/
def Job.Redeliverable (j : Job) : Prop :=
  j.live = true ∧ (j.state = .active → j.stalledCounter < maxStalledCount)

/-- **A live job whose worker is dead** is handed out again. -/
theorem exists_ready (hjobs : s.jobs.Ok env) {j : Job} (hj : j ∈ s.jobs) (hagain : j.Redeliverable) :
    ∃ ls jobs, ∃ j' : Job, Run (step env) (Recovers answers) s ls { s with jobs := jobs } ∧
      jobs.job? j.id = some j' ∧ j'.deliveryId = j.deliveryId ∧ j'.ready := by
  obtain ⟨hlive, hcount⟩ := hagain
  have hjob := hjobs.job? hj
  cases hst : j.state with
  | waiting => exact ⟨[], s.jobs, j, .nil s, hjob, rfl, Or.inl hst⟩
  | delayed => exact ⟨[], s.jobs, j, .nil s, hjob, rfl, Or.inr hst⟩
  | active =>
    have hcount := hcount hst
    have hstep : step env s (.stall j.id) = some { s with jobs := s.jobs.modify j.id fun j =>
        { j with state := .waiting, owner := none, stalledCounter := j.stalledCounter + 1 } } := by
      simp only [step, hjob, Option.filter_some, hst, hcount, true_and, decide_true, if_true,
        Option.map_some]
    refine ⟨[.stall j.id], _, { j with
      state := .waiting
      owner := none
      stalledCounter := j.stalledCounter + 1 }, .cons trivial hstep (.nil _), ?_, rfl, Or.inl rfl⟩
    have hfind := Table.find?_update Job.id s.jobs (f := fun j =>
      { j with state := .waiting, owner := none, stalledCounter := j.stalledCounter + 1 })
      (fun _ => rfl) j.id j.id
    rw [if_pos rfl] at hfind
    refine hfind.trans ?_
    have hjob : (s.jobs.find? fun r => r.id = j.id) = some j := hjob
    rw [hjob]
    rfl
  | completed => rw [Job.live, hst] at hlive; cases hlive
  | failed => rw [Job.live, hst] at hlive; cases hlive

/-- **Where everybody is dead** a queued delivery can be delivered. -/
theorem quiet_delivers (hr : Reachable env NoCalls s) (hdead : ∀ t, s.live? t = none)
    (hcap : 0 < env.rlMaxInflight) (hd : Deliverable answers s.pg.db d)
    (hjob : ∃ j ∈ s.jobs, j.deliveryId = d ∧ j.Redeliverable) :
    ∃ ls s', Run (step env) (Recovers answers) s ls s' ∧ s'.pg.db.status? d = some .delivered := by
  obtain ⟨j, hj, rfl, hagain⟩ := hjob
  obtain ⟨ls₁, jobs, j', hrun₁, hj', hjd, hready⟩ :=
    @exists_ready env s answers (reachable_jobs hr) j hj hagain
  rw [← hjd] at hd
  obtain ⟨r, hread, hopen, hactive, hurl, hcount⟩ := hd.read (reachable_ok hr).db
  obtain ⟨ms, hfree⟩ := s.redis.exists_free s.now j'.ref.text r.endpointId
  -- the clock goes on, and BullMQ hands the job out
  let s₂ : State := { s with jobs := jobs, now := s.now + ms }
  let s₃ : State := State.spawn env { s₂ with jobs := jobs.modify j.id fun j =>
    { j with state := .active, owner := some s₂.threads.length } } (.deliver j'.ref)
  have hpick : step env s₂ (.pickup j.id) = some s₃ := by
    have hany : decide (j'.state = .waiting ∨ j'.state = .delayed) = true := decide_eq_true hready
    simp only [step, s₂, hj', Option.filter_some, hany, if_true, Option.map_some]
    rfl
  have hrun₃ : Run (step env) (Recovers answers) s (ls₁ ++ [.tick ms, .pickup j.id]) s₃ :=
    hrun₁.append (.cons trivial rfl (.cons trivial hpick (.nil s₃)))
  have hreach₃ : Reachable env NoCalls s₃ := hr.run (hrun₃.mono fun _ _ h => h.noCalls)
  have hth : s₃.live? s.threads.length =
      some { kind := .deliver j'.ref, prog := program env s.threads.length (.deliver j'.ref) } :=
    State.live?_spawn.trans (if_pos rfl)
  have hclear : Clear env s.threads.length j'.ref.text r {} s₃.toWorld {} := by
    refine ⟨fun key u hl => ?_, fun _ => hfree.lock, fun _ => ⟨hread, rfl⟩, hcount,
      fun σ hσ => (by cases hσ), hfree.breaker, fun _ => hfree.probe, fun _ e he => ?_, rfl, rfl⟩
    · have hnone : s.pg.locks key = none := quiet_unlocked hr hdead key
      have hl : s.pg.locks key = some u := hl
      rw [hnone] at hl
      cases hl
    · have hnone := hfree.bucket e he
      obtain ⟨v, exp⟩ := e
      cases hnone
      exact reachable_floored hcap hr r.endpointId v (bucketEntry_stored he)
  obtain ⟨ls₄, s₄, hrun₄, hdone⟩ := clear_delivers hreach₃ hcap hth rfl rfl hopen hactive hurl hclear
  exact ⟨_, s₄, hrun₃.append hrun₄, hjd ▸ hdone⟩

theorem exists_recovery (hr : Reachable env NoCalls s) : ∃ ls s',
    Run (step env) (Recovers answers) s ls s' ∧ Reachable env NoCalls s' ∧
      (∀ t, s'.live? t = none) ∧ Survives s s' := by
  obtain ⟨ls, s', hrun, hdead, hsame⟩ := @exists_quiet env s
  have hrun : Run (step env) (Recovers answers) s ls s' :=
    hrun.mono fun _ l ⟨t, hl⟩ => by subst hl; trivial
  exact ⟨ls, s', hrun, hr.run (hrun.mono fun _ _ h => h.noCalls), hdead, hsame⟩

/-- **No queued delivery is stuck**: from every reachable state, whatever the executions were doing and
whatever was left in Redis, an open delivery can be delivered if it has an active endpoint that answers
and a job that BullMQ hands out again. -/
theorem recoverable (h : Reachable env NoCalls s) (hcap : 0 < env.rlMaxInflight) {row : DeliveryRow}
    (hrow : row ∈ s.pg.db.deliveries) (hopen : row.status.terminal = false) {ep : EndpointRow}
    (hep : s.pg.db.endpoint? row.endpointId = some ep) (hactive : ep.isActive = true)
    (hurl : answers ep.url) (hjob : ∃ j ∈ s.jobs, j.deliveryId = row.id ∧ j.Redeliverable) :
    ∃ ls s', Run (step env) (Recovers answers) s ls s' ∧
      s'.pg.db.status? row.id = some .delivered := by
  obtain ⟨ls, s₁, hrun, hreach, hdead, hsame⟩ := @exists_recovery env s answers h
  have hfind := Table.find?_eq_of_mem DeliveryRow.id (reachable_ok h).db.ids hrow
  have hd : Deliverable answers s₁.pg.db row.id := by
    rw [hsame.db]
    exact ⟨row, ep, hfind, hopen, hep, hactive, hurl⟩
  obtain ⟨ls', s', hrun', hdone⟩ := quiet_delivers hreach hdead hcap hd (hsame.jobs.symm ▸ hjob)
  exact ⟨ls ++ ls', s', hrun.append hrun', hdone⟩

/-- Delivery 2 has an active endpoint and a live job that has not stalled, and execution 1 is on it. -/
def State.interrupted (s : State) : Bool :=
  (s.pg.db.delivery? 2).any (fun row => !row.status.terminal &&
    (s.pg.db.endpoint? row.endpointId).any fun ep => ep.isActive && ep.url = "url") &&
      s.jobs.any (fun j => j.deliveryId = 2 ∧ j.live ∧ j.stalledCounter = 0) && (s.live? 1).isSome

theorem recoverable_interrupted : ∃ s ls s', Reachable sampleEnv NoCalls s ∧ (s.live? 1).isSome = true ∧
    Run (step sampleEnv) (Recovers (· = "url")) s ls s' ∧ s'.pg.db.status? 2 = some .delivered := by
  obtain ⟨s, hreach, hs⟩ := sample_run (C := NoCalls) (sampleIngest ++ .pickup (.delivery 2) :: calls 1 15)
    State.interrupted (by decide +kernel)
  rw [State.interrupted, Bool.and_eq_true, Bool.and_eq_true] at hs
  obtain ⟨⟨hrow, hjob⟩, hlive⟩ := hs
  obtain ⟨row, hrow, hs⟩ := (Option.any_eq_true _ _).mp hrow
  obtain ⟨hopen, hep⟩ := Bool.and_eq_true_iff.mp hs
  obtain ⟨ep, hep, hs⟩ := (Option.any_eq_true _ _).mp hep
  obtain ⟨hactive, hurl⟩ := Bool.and_eq_true_iff.mp hs
  obtain ⟨j, hj, hs⟩ := List.any_eq_true.mp hjob
  obtain ⟨hd, hlivejob, hcount⟩ := of_decide_eq_true hs
  have hid : row.id = 2 := Table.find?_key DeliveryRow.id hrow
  obtain ⟨ls, s', hrun, hdone⟩ := @recoverable sampleEnv s (· = "url") hreach (by decide) row
    (List.mem_of_find?_eq_some hrow) (by simpa using hopen) ep hep hactive (of_decide_eq_true hurl)
    ⟨j, hj, hid ▸ hd, hlivejob, fun _ => by rw [hcount]; decide⟩
  exact ⟨s, ls, s', hreach, hlive, hrun, hid ▸ hdone⟩

/-! ## Out of the dead-letter queue -/

theorem run_alone {x : World × Memory} {r : Except Err Reply} (hlive : s.live? t = some th)
    (hrun : th.prog.run (atOnce t) (s.toWorld, th.mem) = some (x, r)) :
    ∃ ls s', Run (step env) (fun _ l => l = .op t {}) s ls s' ∧ s'.toWorld = x.1 := by
  generalize hp : th.prog = p at hrun
  induction p generalizing s th with
  | ret a =>
    cases hrun
    exact ⟨[], s, .nil s, rfl⟩
  | raise y =>
    cases hrun
    exact ⟨[], s, .nil s, rfl⟩
  | op e k ih =>
    obtain ⟨y, hcall, hrun⟩ := Option.bind_eq_some_iff.mp hrun
    obtain ⟨⟨w, m, a⟩, hdone, rfl⟩ := Option.map_eq_some_iff.mp hcall
    have hadv : Advance s ⟨w, s.threads.set t (th.after e a k m)⟩ t {} th e a k w m :=
      ⟨hlive, hp, hdone, rfl⟩
    obtain ⟨ls, s', hreach, hw⟩ := ih a hadv.live?_self rfl hrun
    exact ⟨_ :: ls, s', .cons rfl (step_op hlive hp hdone) hreach, hw⟩

section Alone

variable {w : World} {pg : Postgres} {τ : Time} {ws : List Write} {st : Stmt}

theorem run_write_alone (honly : pg.onlyOf t) (hv : st.verdict (pg.db.applyAll ws) = .writes) :
    ∃ pg', (sql (.write st)).run (atOnce t) ({ w with pg := pg }, inTx τ ws) = some (({ w with pg := pg' },
        inTx τ (ws ++ [⟨st, (st.draw pg.db).1, τ⟩])), .ok (some (st.draw pg.db).1)) ∧
      pg'.onlyOf t ∧ pg'.db = (st.draw pg.db).2 := by
  have hfree : st.key.all (pg.free t) = true := by
    cases st.key with
    | none => rfl
    | some key => exact honly.free key
  have hexec : st.exec pg t w.now (some ⟨τ, ws⟩) .none = some
      (({ pg with db := (st.draw pg.db).2 } : Postgres).take t st.key.toList,
        some ⟨τ, ws ++ [⟨st, (st.draw pg.db).1, τ⟩]⟩, .ok (some (st.draw pg.db).1)) := by
    simp [Stmt.exec, hfree, Session.view, hv]
  exact ⟨_, @run_sql t { w with pg := pg } _ _ _ _ _ hexec, honly.take _ _, rfl⟩

theorem run_selectStatus {st : Status} (honly : pg.onlyOf t) (hst : pg.db.status? d = some st) :
    ∃ pg', (sql (.selectStatusForUpdate d)).run (atOnce t) ({ w with pg := pg }, inTx τ []) =
        some (({ w with pg := pg' }, inTx τ []), .ok (some st)) ∧ pg'.onlyOf t ∧ pg'.db = pg.db := by
  have hexec : (Sql.selectStatusForUpdate d).exec pg t w.now (some ⟨τ, []⟩) .none [] =
      some (pg.take t [.row d], some ⟨τ, []⟩, .ok (some st)) := by
    simp [Sql.exec, honly.free, Session.view, Db.applyAll, hst]
  exact ⟨_, @run_sql t { w with pg := pg } _ _ _ _ _ hexec, honly.take pg.db _, rfl⟩

theorem run_commit_alone : ∃ pg', (sql .commit).run (atOnce t) ({ w with pg := pg }, inTx τ ws) =
    some (({ w with pg := pg' }, {}), .ok ()) ∧ pg'.db = pg.db.applyAll ws := ⟨_, run_sql rfl, rfl⟩

end Alone

/-- The statements of a redrive. -/
def redrive (db : Db) (d : DeliveryId) (τ : Time) : List Write :=
  [⟨.updateStatus d .pending, 0, τ⟩,
    ⟨.insertTransition d (some .dlq) .pending "manual_retry" .manualRetry, db.transitionSeq, τ⟩]

theorem Db.applyAll_redrive {db : Db} {row : DeliveryRow} {τ : Time} (hrow : db.delivery? d = some row) :
    (db.applyAll (redrive db d τ)).delivery? d = some { row with status := .pending, updatedAt := τ } ∧
      (db.applyAll (redrive db d τ)).endpoints = db.endpoints := by
  refine ⟨?_, rfl⟩
  have hfind := Table.find?_update DeliveryRow.id db.deliveries
    (f := fun r => { r with status := .pending, updatedAt := τ }) (fun _ => rfl) d d
  rw [if_pos rfl] at hfind
  have hrow : (db.deliveries.find? fun r => r.id = d) = some row := hrow
  rw [hrow] at hfind
  exact hfind

theorem verdict_redrive {db : Db} {row : DeliveryRow} {τ : Time} (hrow : db.delivery? d = some row) :
    (Stmt.updateStatus d .pending).verdict (db.applyAll []) = .writes ∧
      (Stmt.insertTransition d (some .dlq) .pending "manual_retry" .manualRetry).verdict
        (db.applyAll ((redrive db d τ).take 1)) = .writes := by
  have hsome := (Db.applyAll_redrive (τ := τ) hrow).1
  constructor
  · simp [Stmt.verdict, Db.applyAll, hrow]
  · change (if ((db.applyAll ((redrive db d τ).take 1)).delivery? d).isSome then _ else _) = _
    have hsome : (db.applyAll ((redrive db d τ).take 1)).delivery? d = _ := hsome
    rw [hsome]
    rfl

theorem run_retryFromDlq {w : World} {row : DeliveryRow} (honly : w.pg.onlyOf t)
    (hrow : w.pg.db.delivery? d = some row) (hdlq : row.status = .dlq) :
    ∃ pg', (retryFromDlq d).run (atOnce t) (w, {}) = some (({ w with pg := pg' }, {}), .ok .ok) ∧
      pg'.db.delivery? d = some { row with status := .pending, updatedAt := w.now } ∧
      pg'.db.endpoints = w.pg.db.endpoints := by
  have hst : w.pg.db.status? d = some .dlq := by rw [Db.status?, hrow, Option.map_some, hdlq]
  obtain ⟨hv₁, hv₂⟩ := verdict_redrive (τ := w.now) hrow
  obtain ⟨hrow', hep'⟩ := Db.applyAll_redrive (τ := w.now) hrow
  obtain ⟨pg₁, h₁, honly₁, hdb₁⟩ := @run_selectStatus t d w w.pg w.now _ honly hst
  obtain ⟨pg₂, h₂, honly₂, hdb₂⟩ := @run_write_alone t w pg₁ w.now [] (.updateStatus d .pending) honly₁
    (by rw [hdb₁]; exact hv₁)
  have hdb₂ : pg₂.db = w.pg.db := hdb₂.trans hdb₁
  obtain ⟨pg₃, h₃, -, hdb₃⟩ := @run_write_alone t w pg₂ w.now ((redrive w.pg.db d w.now).take 1)
    (.insertTransition d (some .dlq) .pending "manual_retry" .manualRetry) honly₂ (by rw [hdb₂]; exact hv₂)
  have hdb₃ : pg₃.db = { w.pg.db with transitionSeq := w.pg.db.transitionSeq + 1 } := by
    rw [hdb₃, hdb₂]
    rfl
  obtain ⟨pg₄, h₄, hdb₄⟩ := @run_commit_alone t w pg₃ w.now (redrive w.pg.db d w.now)
  have h₃ : (sql (.write (.insertTransition d (some .dlq) .pending "manual_retry" .manualRetry))).run
      (atOnce t) ({ w with pg := pg₂ }, inTx w.now ((redrive w.pg.db d w.now).take 1)) =
        some (({ w with pg := pg₃ }, inTx w.now (redrive w.pg.db d w.now)),
          .ok (some w.pg.db.transitionSeq)) := by
    rw [h₃, hdb₂]
    rfl
  refine ⟨pg₄, ?_, ?_, ?_⟩
  · exact Prog.run_bind_ok (run_sql rfl) (Prog.run_tryCatch_ok (Prog.run_bind_ok (run_sql rfl)
      (Prog.run_bind_ok (Prog.run_bind_ok h₁ (Prog.run_bind_ok h₂ (Prog.run_bind_ok h₃ rfl)))
        (Prog.run_bind_ok h₄ rfl))))
  · rw [hdb₄, hdb₃]
    exact hrow'
  · rw [hdb₄, hdb₃]
    exact hep'

/-- **The retry route on its own** sets the delivery back to PENDING and adds a job for it. -/
theorem run_postRetry {w : World} {i : IdText} {row : DeliveryRow} (honly : w.pg.onlyOf t)
    (hrow : w.pg.db.delivery? i.id = some row) (hdlq : row.status = .dlq) :
    ∃ pg', (postRetry i).run (atOnce t) (w, {}) = some (({ w with
        pg := pg', jobs := w.jobs.add (.retry i w.now) i.id }, {}), .ok (.retry i w.now)) ∧
      pg'.db.delivery? i.id = some { row with status := .pending, updatedAt := w.now } ∧
      pg'.db.endpoints = w.pg.db.endpoints := by
  obtain ⟨pg', hrun, h⟩ := run_retryFromDlq honly hrow hdlq
  exact ⟨pg', Prog.run_bind_ok hrun rfl, h⟩

/-- There is a time at which the job of a redrive has a new id. -/
theorem exists_fresh (jobs : Jobs) (i : IdText) (now : Time) :
    ∃ ms, jobs.job? (.retry i (now + ms)) = none := by
  have hinj : Function.Injective fun ms : ℕ => JobId.retry i (now + ms) := fun a b hab => by
    injection hab with _ hab
    exact Nat.add_left_cancel hab
  obtain ⟨_, ⟨ms, rfl⟩, hms⟩ := (Set.infinite_range_of_injective hinj).exists_notMem_finset
    (jobs.map (·.id)).toFinset
  refine ⟨ms, List.find?_eq_none.mpr fun j hj hid => hms ?_⟩
  exact List.mem_toFinset.mpr (List.mem_map.mpr ⟨j, hj, by simpa using hid⟩)

/-- **No exhausted delivery is lost**: from every reachable state, after one
`POST /v1/dlq/:deliveryId/retry` the delivery can be delivered, however the id is spelled, if it has an
active endpoint that answers. -/
theorem retry_recovers (h : Reachable env NoCalls s) (hcap : 0 < env.rlMaxInflight) {row : DeliveryRow}
    (hrow : row ∈ s.pg.db.deliveries) (hdlq : row.status = .dlq) {ep : EndpointRow}
    (hep : s.pg.db.endpoint? row.endpointId = some ep) (hactive : ep.isActive = true)
    (hurl : answers ep.url) (n : ℕ) :
    ∃ ls₁ ls₂ s₁ s₂ s', Run (step env) (Recovers answers) s ls₁ s₁ ∧
      step env s₁ (.request (.postRetry ⟨row.id, n⟩)) = some s₂ ∧
      Run (step env) (Recovers answers) s₂ ls₂ s' ∧ s'.pg.db.status? row.id = some .delivered := by
  obtain ⟨ls, s₀, hrun₀, hreach₀, hdead₀, hsame₀⟩ := @exists_recovery env s answers h
  obtain ⟨ms, hfresh⟩ := exists_fresh s₀.jobs ⟨row.id, n⟩ s₀.now
  -- the request comes, and nobody is in its way
  let s₁ : State := { s₀ with now := s₀.now + ms }
  let s₂ : State := s₁.spawn env (.postRetry ⟨row.id, n⟩)
  have hrun₁ : Run (step env) (Recovers answers) s (ls ++ [.tick ms]) s₁ :=
    hrun₀.append (.cons trivial rfl (.nil s₁))
  have hstep : step env s₁ (.request (.postRetry ⟨row.id, n⟩)) = some s₂ := rfl
  have hreach₂ : Reachable env NoCalls s₂ :=
    (h.run (hrun₁.mono fun _ _ h => h.noCalls)).run
      (.cons (show NoCalls s₁ (.request (.postRetry ⟨row.id, n⟩)) from trivial) hstep (.nil s₂))
  have hrow₂ : s₂.pg.db.delivery? row.id = some row := by
    change s₀.pg.db.delivery? row.id = _
    rw [hsame₀.db]
    exact Table.find?_eq_of_mem DeliveryRow.id (reachable_ok h).db.ids hrow
  have honly : s₂.pg.onlyOf s₁.threads.length := by
    intro key u hl
    have hl : s₀.pg.locks key = some u := hl
    rw [quiet_unlocked hreach₀ hdead₀ key] at hl
    cases hl
  obtain ⟨pg', hanswer, hrow', hep'⟩ :=
    @run_postRetry s₁.threads.length s₂.toWorld ⟨row.id, n⟩ row honly hrow₂ hdlq
  have hlive : s₂.live? s₁.threads.length = _ := State.live?_spawn.trans (if_pos rfl)
  obtain ⟨ls₂, s₃, hrun₃, hw₃⟩ := run_alone hlive (Prog.run_bind_ok hanswer rfl)
  have haimed : ∀ th ∈ s₂.live? s₁.threads.length, th.Aimed answers := fun th hth => by
    rw [hlive] at hth
    cases hth
    exact .inl fun job hk => by cases hk
  have hrun₃ : Run (step env) (Recovers answers) s₂ ls₂ s₃ := aimed_recovers hreach₂ haimed hrun₃
  have hreach₃ : Reachable env NoCalls s₃ := hreach₂.run (hrun₃.mono fun _ _ h => h.noCalls)
  obtain ⟨ls₄, s₄, hrun₄, hreach₄, hdead₄, hsame₄⟩ := @exists_recovery env s₃ answers hreach₃
  have hdb₄ : s₄.pg.db = pg'.db := hsame₄.db.trans (congrArg (fun w : World => w.pg.db) hw₃)
  have hjobs₄ : s₄.jobs = s₀.jobs.add (.retry ⟨row.id, n⟩ (s₀.now + ms)) row.id :=
    hsame₄.jobs.trans (congrArg World.jobs hw₃)
  have hd : Deliverable answers s₄.pg.db row.id := by
    rw [hdb₄]
    refine ⟨_, ep, hrow', rfl, ?_, hactive, hurl⟩
    rw [Db.endpoint?_congr hep']
    change s₀.pg.db.endpoint? row.endpointId = _
    rw [hsame₀.db]
    exact hep
  have hjob : ∃ j ∈ s₄.jobs, j.deliveryId = row.id ∧ j.Redeliverable := by
    rw [hjobs₄, Jobs.add, hfresh]
    exact ⟨_, List.mem_append_right _ List.mem_cons_self, rfl, rfl, fun h => by cases h⟩
  obtain ⟨ls₅, s', hrun₅, hdone⟩ := quiet_delivers hreach₄ hdead₄ hcap hd hjob
  exact ⟨_, _, s₁, s₂, s', hrun₁, hstep, (hrun₃.append hrun₄).append hrun₅, hdone⟩

theorem retry_recovers_exhausted : ∃ s s₁ s₂ s' ls₁ ls₂, Reachable sampleEnv NoCalls s ∧
    s.pg.db.status? 2 = some .dlq ∧ Run (step sampleEnv) (Recovers (· = "url")) s ls₁ s₁ ∧
      step sampleEnv s₁ (.request (.postRetry 2)) = some s₂ ∧
      Run (step sampleEnv) (Recovers (· = "url")) s₂ ls₂ s' ∧ s'.pg.db.status? 2 = some .delivered := by
  obtain ⟨s, hreach, hs⟩ := sample_run (C := NoCalls) sampleDlq (fun s => (s.pg.db.delivery? 2).any
    fun row => row.status = .dlq ∧
      (s.pg.db.endpoint? row.endpointId).any fun ep => ep.isActive ∧ ep.url = "url") (by decide +kernel)
  obtain ⟨row, hrow, hs⟩ := (Option.any_eq_true _ _).mp hs
  obtain ⟨hdlq, hep⟩ := of_decide_eq_true hs
  obtain ⟨ep, hep, hs⟩ := (Option.any_eq_true _ _).mp hep
  obtain ⟨hactive, hurl⟩ := of_decide_eq_true hs
  have hid : row.id = 2 := Table.find?_key DeliveryRow.id hrow
  obtain ⟨ls₁, ls₂, s₁, s₂, s', hrun₁, hstep, hrun₂, hdone⟩ := @retry_recovers sampleEnv s (· = "url")
    hreach (by decide) row (List.mem_of_find?_eq_some hrow) hdlq ep hep hactive hurl 0
  rw [hid] at hstep hdone
  exact ⟨s, s₁, s₂, s', ls₁, ls₂, hreach, by rw [Db.status?, hrow, Option.map_some, hdlq], hrun₁, hstep,
    hrun₂, hdone⟩

end WebhookEngine
