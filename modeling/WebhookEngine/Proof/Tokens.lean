import WebhookEngine.Proof.History
import WebhookEngine.Proof.Plain

set_option autoImplicit false

/-!
# The tokens of a bucket

An execution holds a token of `wh:rl:{ep}` from the answer of `token_bucket.lua` until the answer of
its HINCRBY.

* `tokens env ep`: the monitor of one bucket. Nobody takes a second token, only a holder gives one
  back, and nobody sends the HSET of `release`.
* `safe_tokens`: every program of the system keeps to it and ends without a token.
* `KeepsTokens`: no holder dies, no bucket command fails, and the key stays while a token is held.
* **`token_conservation`**: under `KeepsTokens` the stored count and the tokens held add up to the
  maximum.
-/

namespace WebhookEngine

open EffectProg TransitionSystem

variable {env : Env} {ep : EndpointId}

/-! ## The monitor of a bucket -/

/-- `remaining !== -1`. -/
def granted? (remaining : Int) : Bool := remaining ≠ -1

/-- Whether a token is held after a call. -/
def holdsNext (ep : EndpointId) (held : Bool) : (e : Eff) → e.Resp → Bool
  | .redis (.evalTokenBucket ep' _ _), .ok remaining =>
    if ep' = ep then granted? remaining else held
  | .redis (.hincrbyTokens ep'), .ok _ => if ep' = ep then false else held
  | _, _ => held

def permitsBucket (env : Env) (ep : EndpointId) (held : Bool) : Eff → Prop
  | .redis (.evalTokenBucket ep' max ttl) =>
    ep' = ep → held = false ∧ max = env.rlMaxInflight ∧ ttl = env.rlTtlSeconds
  | .redis (.hincrbyTokens ep') => ep' = ep → held = true
  | .redis (.hsetTokens ep' _) => ep' ≠ ep
  | .redis (.expireTokens ep' ttl) => ep' = ep → ttl = env.rlTtlSeconds
  | _ => True

/-- No bucket command fails, and a token that is given back does not exceed the maximum. -/
def expectsBucket (env : Env) (ep : EndpointId) : (e : Eff) → e.Resp → Prop
  | .redis (.evalTokenBucket ep' _ _), r => ep' = ep → ∃ remaining, r = .ok remaining
  | .redis (.hincrbyTokens ep'), r =>
    ep' = ep → ∃ current : Int, r = .ok current ∧ current ≤ env.rlMaxInflight
  | _, _ => True

def tokens (env : Env) (ep : EndpointId) : Monitor Eff Eff.Resp Bool where
  next := holdsNext ep
  permits := permitsBucket env ep
  expects _ := expectsBucket env ep

/-! ## Calls that leave the bucket alone -/

/-- The call is no command on the bucket of `ep`. -/
def Apart (ep : EndpointId) : Eff → Prop
  | .redis (.evalTokenBucket ep' _ _) => ep' ≠ ep
  | .redis (.hincrbyTokens ep') => ep' ≠ ep
  | .redis (.hsetTokens ep' _) => ep' ≠ ep
  | .redis (.expireTokens ep' _) => ep' ≠ ep
  | _ => True

theorem Plain.apart {e : Eff} (h : Plain e) : Apart ep e := by
  cases e with
  | redis c => cases c <;> first | exact h.elim | trivial
  | _ => trivial

theorem Apart.ignored {e : Eff} (h : Apart ep e) (held : Bool) :
    (tokens env ep).permits held e ∧ ∀ r, (tokens env ep).next held e r = held := by
  cases e with
  | redis c =>
    cases c with
    | evalTokenBucket ep' max ttl =>
      refine ⟨fun heq => absurd heq h, fun r => ?_⟩
      cases r with
      | ok v => exact if_neg h
      | error y => rfl
    | hincrbyTokens ep' =>
      refine ⟨fun heq => absurd heq h, fun r => ?_⟩
      cases r with
      | ok v => exact if_neg h
      | error y => rfl
    | hsetTokens ep' n => exact ⟨h, fun _ => rfl⟩
    | expireTokens ep' ttl => exact ⟨fun heq => absurd heq h, fun _ => rfl⟩
    | _ => exact ⟨trivial, fun _ => rfl⟩
  | _ => exact ⟨trivial, fun _ => rfl⟩

theorem safe_apart {α : Type} {held : Bool} {p : Code α} {Q : Bool → Except Err α → Prop}
    (hp : p.Uses (Apart ep)) (hQ : ∀ r, Q held r) : Prog.Safe (tokens env ep) held p Q :=
  hp.safe (fun _ h => h.ignored held) hQ

theorem safe_plain {α : Type} {held : Bool} {p : Code α} {Q : Bool → Except Err α → Prop}
    (hp : p.Uses Plain) (hQ : ∀ r, Q held r) : Prog.Safe (tokens env ep) held p Q :=
  safe_apart (hp.mono fun _ h => h.apart) hQ

theorem apart_sql (q : Sql) : (sql q).Uses (Apart ep) := uses_sql trivial

theorem apart_ingestTx (p : IngestParams) : (ingestTx p).Uses (Apart ep) := by
  refine (apart_sql _).bind fun _ => Prog.Uses.tryCatch ?_ fun err =>
    (apart_sql _).bind fun _ => trivial
  have hend : ∀ r : IngestResult, ((sql .commit).bind fun _ =>
      (call (.sendIdem (idemRedisKey p.clientId p.idempotencyKey) r.eventId)).bind fun _ =>
        (Prog.ret r : Code IngestResult)).Uses (Apart ep) := fun r =>
    (apart_sql _).bind fun _ => (uses_call (by trivial)).bind fun _ => trivial
  refine (apart_sql _).bind fun _ => (apart_sql _).bind fun inserted => ?_
  match inserted with
  | some ev =>
    refine (apart_sql _).bind fun d => ?_
    match d with
    | some d => exact (apart_sql _).bind fun _ => hend ⟨ev, d, .pending, true⟩
    | none => trivial
  | none =>
    refine (apart_sql _).bind fun existing => ?_
    match existing with
    | some ev =>
      refine (apart_sql _).bind fun d => ?_
      match d with
      | some d => exact hend ⟨ev, d.1, d.2, false⟩
      | none => trivial
    | none => trivial

theorem apart_ingestEvent (p : IngestParams) : (ingestEvent p).Uses (Apart ep) := by
  refine (uses_await (by trivial)).bind fun cached => ?_
  match cached with
  | none => exact apart_ingestTx p
  | some ev =>
    refine (apart_sql _).bind fun d => ?_
    match d with
    | some d => trivial
    | none => exact apart_ingestTx p

theorem apart_postEvent (req : EventRequest) : (postEvent env req).Uses (Apart ep) := by
  refine (uses_await (by trivial)).bind fun overloaded => ?_
  dsimp only
  iterate 6
    split
    · trivial
  refine ((apart_sql _).tryCatch fun _ => by trivial).bind fun endpoint => ?_
  match endpoint with
  | none => trivial
  | some endpoint =>
    change Prog.Uses _ (if ¬ endpoint.isActive then _ else _)
    split
    · trivial
    · refine (apart_ingestEvent _).bind fun result => ?_
      split
      · refine (((plain_enqueueDelivery _).mono fun _ h => h.apart).tryCatch fun _ => ?_).bind
          fun _ => trivial
        trivial
      · trivial

/-! ## The processor -/

theorem safe_redis_tokens {c : RedisCmd} {held : Bool} {Q : Bool → Except Err c.Ret → Prop} :
    Prog.Safe (tokens env ep) held (redis c) Q ↔ permitsBucket env ep held (.redis c) ∧
      ∀ r, expectsBucket env ep (.redis c) r → Q (holdsNext ep held (.redis c) r) r := by
  unfold redis await
  rw [Prog.safe_bind]
  exact and_congr Iff.rfl (forall_congr' fun r => imp_congr Iff.rfl Prog.safe_ofExcept)

/-- **`tryAcquire`.** -/
theorem safe_tryAcquire {ep' : EndpointId} {Q : Bool → Except Err Bool → Prop}
    (hok : ∀ got, Q (decide (ep' = ep) && got) (.ok got)) (herr : ∀ y, Q false (.error y)) :
    Prog.Safe (tokens env ep) false (tryAcquire env ep') Q := by
  by_cases hep : ep' = ep
  · subst hep
    refine Prog.safe_bind.mpr (safe_redis_tokens.mpr ⟨fun _ => ⟨rfl, rfl, rfl⟩, fun r hr => ?_⟩)
    obtain ⟨remaining, rfl⟩ := hr rfl
    have h := hok (granted? remaining)
    rw [decide_eq_true rfl, Bool.true_and] at h
    change Q (if ep' = ep' then granted? remaining else false) (.ok (granted? remaining))
    rw [if_pos rfl]
    exact h
  · refine safe_apart ((uses_await (by exact hep)).bind fun _ => trivial) fun r => ?_
    cases r with
    | error y => exact herr y
    | ok got =>
      have h := hok got
      rw [decide_eq_false hep, Bool.false_and] at h
      exact h

/-- **`release`.** A count within the maximum is not capped. -/
theorem safe_releaseBucketToken {ep' : EndpointId} {Q : Bool → Except Err Unit → Prop}
    (hQ : ∀ r, Q false r) :
    Prog.Safe (tokens env ep) (decide (ep' = ep)) (releaseBucketToken env ep') Q := by
  by_cases hep : ep' = ep
  · subst hep
    rw [decide_eq_true rfl]
    refine Prog.safe_bind.mpr (safe_redis_tokens.mpr ⟨fun _ => rfl, fun r hr => ?_⟩)
    obtain ⟨current, rfl, hle⟩ := hr rfl
    change Prog.Safe _ (if ep' = ep' then false else true)
      (if current > (env.rlMaxInflight : Int) then _ else _) _
    rw [if_pos rfl, if_neg (Int.not_lt.mpr hle)]
    refine Prog.safe_bind.mpr (safe_redis_tokens.mpr ⟨fun _ => rfl, fun r _ => ?_⟩)
    cases r <;> exact hQ _
  · rw [decide_eq_false hep]
    refine safe_apart ((uses_await (by exact hep)).bind fun current => ?_) hQ
    split
    · exact (uses_await (by exact hep)).bind fun _ => (uses_await (by exact hep)).bind fun _ => trivial
    · exact (uses_await (by exact hep)).bind fun _ => trivial

/-- **Every exit path gives the token back.** -/
theorem safe_processDelivery_tokens {job : JobRef} {t : Tid} :
    Prog.Safe (tokens env ep) false (processDelivery env job t) fun held _ => held = false := by
  refine safe_bracket (fun ep' => decide (ep' = ep)) job t (fun _ hp hQ => safe_plain hp hQ)
    (fun ep' Q htrue hfalse herr => ?_) fun ep' Q hQ => safe_releaseBucketToken hQ
  refine safe_tryAcquire (fun got => ?_) herr
  cases got with
  | true =>
    rw [Bool.and_true]
    exact htrue
  | false =>
    rw [Bool.and_false]
    exact hfalse

theorem apart_program (t : Tid) {k : Kind} (h : ∀ job, k ≠ .deliver job) :
    (program env t k).Uses (Apart ep) := by
  have hplain : ∀ {α : Type} {p : Code α} {f : α → Reply}, p.Uses Plain →
      (p.bind fun a => (Prog.ret (f a) : Code Reply)).Uses (Apart ep) := fun hp =>
    (hp.mono fun _ h => h.apart).bind fun _ => trivial
  match k with
  | .deliver job => exact absurd rfl (h job)
  | .failed job => exact hplain (plain_handleFailed job)
  | .postEvent req => exact (apart_postEvent req).bind fun _ => trivial
  | .postRetry d => exact hplain (plain_postRetry d)
  | .sweep => exact hplain (plain_claimUnenqueued _)
  | .repoCall (.transition d f g a r) => exact hplain (plain_transition d f g a r)
  | .repoCall (.recordAttempt input) => exact hplain (plain_recordAttempt input)
  | .repoCall (.retryFromDlq d) => exact hplain (plain_retryFromDlq d)
  | .repoCall (.enqueueDelivery d) => exact hplain (plain_enqueueDelivery d)
  | .repoCall (.claimUnenqueued limit) => exact hplain (plain_claimUnenqueued limit)
  | .repoCall (.ingestEvent p) => exact (apart_ingestEvent p).bind fun _ => trivial

/-- **Every program keeps to the monitor** and ends without a token. -/
theorem safe_tokens (t : Tid) (k : Kind) :
    Prog.Safe (tokens env ep) false (program env t k) fun held _ => held = false := by
  by_cases hk : ∃ job, k = .deliver job
  · obtain ⟨job, rfl⟩ := hk
    refine Prog.safe_bind.mpr (safe_processDelivery_tokens.mono fun held r h => ?_)
    cases r <;> exact h
  · exact safe_apart (apart_program t fun job hj => hk ⟨job, hj⟩) fun _ => rfl

/-! ## Tokens stored and held -/

variable {s s' : State} {t : Tid} {th th' : Thread} {l : Label}

/-- Whether an execution holds a token, from its calls, latest first. -/
def holdsToken (ep : EndpointId) : List Event → Bool
  | [] => false
  | ev :: trace => holdsNext ep (holdsToken ep trace) ev.1 ev.2

/-- The execution has taken a token of `ep` and has not given it back. -/
def Thread.token (th : Thread) (ep : EndpointId) : Bool := holdsToken ep th.trace

/-- The number of executions that hold a token. -/
def State.held (s : State) (ep : EndpointId) : ℕ := s.threads.countP fun th => th.alive && th.token ep

/-- The stored count, `RL_MAX_INFLIGHT` when the key is absent. -/
def State.stored (env : Env) (s : State) (ep : EndpointId) : Int :=
  ((s.redis.bucketEntry s.now ep).map (·.1)).getD env.rlMaxInflight

/-- The next call is the script or the HINCRBY on the bucket of `ep`. -/
def Thread.atBucket (th : Thread) (ep : EndpointId) : Bool :=
  match th.prog with
  | .op (.redis (.evalTokenBucket ep' _ _)) _ => ep' = ep
  | .op (.redis (.hincrbyTokens ep')) _ => ep' = ep
  | _ => false

/-- No execution dies with a token, no bucket command fails, and the key is neither lost nor runs out
while a token is held. -/
def KeepsTokens (ep : EndpointId) (s : State) : Label → Prop
  | .op t c => (s.live? t).any (·.atBucket ep) = true → c.fault = .none
  | .crash t => (s.live? t).any (·.token ep) = false
  | .tick ms => 0 < s.held ep → (s.redis.bucketEntry (s.now + ms) ep).isSome = true
  | .evict (.bucket ep') => ep' = ep → s.held ep = 0
  | .redisLoss => s.held ep = 0
  | _ => True

instance (s : State) : (l : Label) → Decidable (KeepsTokens ep s l)
  | .op _ _ => inferInstanceAs (Decidable (_ → _))
  | .crash _ => inferInstanceAs (Decidable (_ = _))
  | .tick _ => inferInstanceAs (Decidable (_ → _))
  | .evict key => match key with
    | .bucket _ => inferInstanceAs (Decidable (_ → _))
    | .lock _ | .fails _ | .opened _ | .probe _ | .idem _ => inferInstanceAs (Decidable True)
  | .redisLoss => inferInstanceAs (Decidable (_ = _))
  | .settle _ | .extend _ | .extendReply _ | .request _ | .pickup _ | .stall _ | .stallFail _
  | .removeCompleted _ | .operatorAdd _ _ | .idemArrive _ | .createEndpoint _ _ _
  | .patchEndpoint _ _ _ => inferInstanceAs (Decidable True)

theorem held_set (hlive : s.live? t = some th) (th' : Thread) :
    (s.threads.set t th').countP (fun th => th.alive && th.token ep) + (th.token ep).toNat =
      s.held ep + (th'.alive && th'.token ep).toNat := by
  obtain ⟨hget, halive⟩ := State.live?_eq_some.mp hlive
  have h := Table.countP_set_add (fun th => th.alive && th.token ep) hget th'
  rw [halive, Bool.true_and] at h
  exact h

theorem held_put (hlive : s.live? t = some th) (h : (th'.alive && th'.token ep) = th.token ep) :
    (s.threads.set t th').countP (fun th => th.alive && th.token ep) = s.held ep := by
  have := @held_set ep s t th hlive th'
  rw [h] at this
  exact Nat.add_right_cancel this

theorem held_spawn {k : Kind} : (s.spawn env k).held ep = s.held ep := by
  rw [State.held, State.spawn, List.countP_append]
  rfl

theorem Thread.token_after {e : Eff} {r : e.Resp} {k : e.Resp → Code Reply} {m : Memory} :
    (th.after e r k m).token ep = holdsNext ep (th.token ep) e r := rfl

/-! ## What a command does to the bucket -/

theorem RedisCmd.exec_apart {c : RedisCmd} (h : Apart ep (.redis c)) (now : Time) (r : Redis) :
    (c.exec now r).1.bucketEntry now ep = r.bucketEntry now ep := by
  cases c with
  | evalTokenBucket ep' max ttl =>
    have hne : ep ≠ ep' := Ne.symm h
    simp only [RedisCmd.exec]
    split
    · rfl
    · simp [Redis.bucketEntry, hne]
  | hincrbyTokens ep' =>
    have hne : ep ≠ ep' := Ne.symm h
    simp [RedisCmd.exec, Redis.bucketEntry, hne]
  | hsetTokens ep' n =>
    have hne : ep ≠ ep' := Ne.symm h
    simp [RedisCmd.exec, Redis.bucketEntry, hne]
  | expireTokens ep' ttl =>
    have hne : ep ≠ ep' := Ne.symm h
    simp [RedisCmd.exec, Redis.bucketEntry, hne]
  | setLock d token ttl => simp only [RedisCmd.exec]; split <;> rfl
  | evalReleaseLock d token => simp only [RedisCmd.exec]; split <;> rfl
  | setProbe ep' ttl => simp only [RedisCmd.exec]; split <;> rfl
  | _ => rfl

theorem perform_apart {w w' : World} {m m' : Memory} {c : Choice} {e : Eff} {r : e.Resp}
    (hap : Apart ep e) (h : perform t w m c e = some (w', m', r)) :
    w'.now = w.now ∧ w'.redis.bucketEntry w.now ep = w.redis.bucketEntry w.now ep := by
  cases e with
  | sql q =>
    obtain ⟨pg', sess', -, rfl, -⟩ := perform_sql h
    exact ⟨rfl, rfl⟩
  | redis cmd =>
    have hw : w' = { w with redis := (c.fault.run w.redis (cmd.exec w.now w.redis)).1 } := by
      cases h
      rfl
    rw [hw]
    refine ⟨rfl, ?_⟩
    rw [Fault.run]
    split
    · rfl
    · exact RedisCmd.exec_apart hap w.now w.redis
  | moveToDelayed id until_ =>
    simp only [perform, World.moveToDelayed] at h
    split at h <;> cases h <;> exact ⟨rfl, rfl⟩
  | _ =>
    cases h
    exact ⟨rfl, rfl⟩

theorem not_apart {e : Eff} (h : ¬ Apart ep e) :
    (∃ max ttl, e = .redis (.evalTokenBucket ep max ttl)) ∨ e = .redis (.hincrbyTokens ep) ∨
      (∃ n, e = .redis (.hsetTokens ep n)) ∨ ∃ ttl, e = .redis (.expireTokens ep ttl) := by
  cases e with
  | redis c =>
    cases c with
    | evalTokenBucket ep' max ttl =>
      obtain rfl : ep' = ep := not_not.mp h
      exact Or.inl ⟨max, ttl, rfl⟩
    | hincrbyTokens ep' =>
      obtain rfl : ep' = ep := not_not.mp h
      exact Or.inr (Or.inl rfl)
    | hsetTokens ep' n =>
      obtain rfl : ep' = ep := not_not.mp h
      exact Or.inr (Or.inr (Or.inl ⟨n, rfl⟩))
    | expireTokens ep' ttl =>
      obtain rfl : ep' = ep := not_not.mp h
      exact Or.inr (Or.inr (Or.inr ⟨ttl, rfl⟩))
    | _ => exact absurd trivial h
  | _ => exact absurd trivial h

theorem bucketEntry_update {r : Redis} {now : Time} {e : Int × Option Time}
    (h : (e.2.all fun exp => now < exp) = true) :
    ({ r with bucket := Function.update r.bucket ep (some e) } : Redis).bucketEntry now ep =
      some e := by
  simp [Redis.bucketEntry, h]

/-- **`token_bucket.lua`.** -/
theorem exec_evalTokenBucket (max ttl : ℕ) (httl : 0 < ttl) (now : Time) (r : Redis) (n : Int)
    (hn : n = ((r.bucketEntry now ep).map (·.1)).getD (max : Int)) :
    n ≤ 0 ∧ RedisCmd.exec now r (.evalTokenBucket ep max ttl) = (r, (-1 : Int)) ∨
      0 < n ∧ ∃ r', RedisCmd.exec now r (.evalTokenBucket ep max ttl) = (r', n - 1) ∧
        r'.bucketEntry now ep = some (n - 1, some (now + ttl * 1000)) := by
  subst hn
  simp only [RedisCmd.exec]
  split
  · rename_i hle
    exact Or.inl ⟨hle, rfl⟩
  · rename_i hgt
    refine Or.inr ⟨Int.not_le.mp hgt, _, rfl, bucketEntry_update ?_⟩
    have hlt : now < now + ttl * 1000 := Nat.lt_add_of_pos_right (Nat.mul_pos httl (by decide))
    simp [hlt]

theorem exec_hincrbyTokens {now : Time} {r : Redis} {e : Int × Option Time}
    (he : r.bucketEntry now ep = some e) :
    ∃ r', RedisCmd.exec now r (.hincrbyTokens ep) = (r', e.1 + 1) ∧
      r'.bucketEntry now ep = some (e.1 + 1, e.2) := by
  simp only [RedisCmd.exec, he, Option.getD_some]
  exact ⟨_, rfl, bucketEntry_update (e := (e.1 + 1, e.2)) (Option.filter_eq_some_iff.mp he).2⟩

theorem exec_expireTokens {ttl : ℕ} (httl : 0 < ttl) (now : Time) (r : Redis) :
    ((RedisCmd.exec now r (.expireTokens ep ttl)).1.bucketEntry now ep).map (·.1) =
      (r.bucketEntry now ep).map (·.1) := by
  simp only [RedisCmd.exec]
  cases he : r.bucketEntry now ep with
  | none => simp [Redis.bucketEntry]
  | some e =>
    have hlt : now < now + ttl * 1000 := Nat.lt_add_of_pos_right (Nat.mul_pos httl (by decide))
    rw [Option.map_some, bucketEntry_update (by simp [hlt])]
    rfl

theorem perform_redis {w w' : World} {m m' : Memory} {c : Choice} {cmd : RedisCmd}
    {r : Except Err cmd.Ret} (h : perform t w m c (.redis cmd) = some (w', m', r)) :
    w' = { w with redis := (c.fault.run w.redis (cmd.exec w.now w.redis)).1 } ∧
      r = (c.fault.run w.redis (cmd.exec w.now w.redis)).2 := by
  cases h
  exact ⟨rfl, rfl⟩

/-! ## Conservation -/

/-- The tokens add up. -/
structure Balanced (env : Env) (ep : EndpointId) (s : State) : Prop where
  total : s.stored env ep + s.held ep = env.rlMaxInflight
  nonneg : 0 ≤ s.stored env ep

theorem Balanced.of_eq (h : Balanced env ep s) (hs : s'.stored env ep = s.stored env ep)
    (hh : s'.held ep = s.held ep) : Balanced env ep s' where
  total := by rw [hs, hh]; exact h.total
  nonneg := by rw [hs]; exact h.nonneg

/-- When nothing is held, the count is the maximum whether or not it is stored. -/
theorem Balanced.of_full (hs : s'.stored env ep = env.rlMaxInflight) (hh : s'.held ep = 0) :
    Balanced env ep s' where
  total := by rw [hs, hh]; exact Int.add_zero _
  nonneg := by rw [hs]; exact Int.natCast_nonneg _

/-- Every execution keeps to the monitor, and the tokens add up. -/
structure Conserved (env : Env) (ep : EndpointId) (s : State) : Prop where
  threads : ∀ t th, s.live? t = some th →
    Prog.Safe (tokens env ep) (th.token ep) th.prog fun held _ => held = false
  balance : Balanced env ep s

theorem Conserved.init : Conserved env ep {} where
  threads := by simp [State.live?]
  balance := .of_full rfl rfl

theorem Apart.expected {e : Eff} (h : Apart ep e) (r : e.Resp) : expectsBucket env ep e r := by
  cases e with
  | redis c =>
    cases c with
    | evalTokenBucket ep' max ttl => exact fun heq => absurd heq h
    | hincrbyTokens ep' => exact fun heq => absurd heq h
    | _ => trivial
  | _ => trivial

section Call

variable {c : Choice} {e : Eff} {r : e.Resp} {k : e.Resp → Code Reply} {w : World} {m : Memory}

theorem Advance.held (h : Advance s s' t c th e r k w m) (ep : EndpointId) :
    s'.held ep + (th.token ep).toNat = s.held ep + (holdsNext ep (th.token ep) e r).toNat := by
  have halive : (th.after e r k m).alive = true := (State.live?_eq_some.mp h.live).2
  have hset := @held_set ep s t th h.live (th.after e r k m)
  rw [halive, Bool.true_and, Thread.token_after] at hset
  rw [h.state]
  exact hset

theorem Advance.stored (h : Advance s s' t c th e r k w m) (hnow : w.now = s.now) :
    s'.stored env ep = ((w.redis.bucketEntry s.now ep).map (·.1)).getD (env.rlMaxInflight : Int) := by
  rw [State.stored, h.world, hnow]

theorem perform_redis_ok {cmd : RedisCmd} {r : Except Err cmd.Ret} (hfault : c.fault = .none)
    {r' : Redis} {a : cmd.Ret} (hexec : cmd.exec s.now s.redis = (r', a))
    (h : perform t s.toWorld th.mem c (.redis cmd) = some (w, m, r)) :
    r = .ok a ∧ w.now = s.now ∧ w.redis = r' := by
  obtain ⟨rfl, rfl⟩ := perform_redis h
  rw [hfault, hexec]
  exact ⟨rfl, rfl, rfl⟩

end Call

section Bucket

variable {c : Choice} {w : World} {m : Memory}

/-- **The script** takes a token, or answers -1 when all are held. -/
theorem Balanced.takes (httl : 0 < env.rlTtlSeconds) (hB : Balanced env ep s)
    {r : Except Err Int} {k : Except Err Int → Code Reply}
    (h : Advance s s' t c th (.redis (.evalTokenBucket ep env.rlMaxInflight env.rlTtlSeconds)) r k w m)
    (hfault : c.fault = .none) (hnone : th.token ep = false) :
    ∃ remaining : Int, r = .ok remaining ∧ Balanced env ep s' ∧
      (remaining = -1 → s.held ep = env.rlMaxInflight) := by
  have hheld := h.held ep
  rw [hnone] at hheld
  have htotal := hB.total
  have hnonneg := hB.nonneg
  rcases exec_evalTokenBucket env.rlMaxInflight env.rlTtlSeconds httl s.now s.redis (s.stored env ep)
    rfl with ⟨hle, hexec⟩ | ⟨hpos, r', hexec, hentry⟩
  · obtain ⟨rfl, hnow, hredis⟩ := perform_redis_ok hfault hexec h.done
    refine ⟨-1, rfl, hB.of_eq ?_ ?_, fun _ => by omega⟩
    · rw [h.stored hnow, hredis]
      rfl
    · have hnext : holdsNext ep false
          (.redis (.evalTokenBucket ep env.rlMaxInflight env.rlTtlSeconds)) (.ok (-1 : Int)) = false :=
        if_pos rfl
      rw [hnext] at hheld
      exact Nat.add_right_cancel hheld
  · obtain ⟨rfl, hnow, hredis⟩ := perform_redis_ok hfault hexec h.done
    have hstored : s'.stored env ep = s.stored env ep - 1 := by
      rw [h.stored hnow, hredis, hentry]
      rfl
    have hgranted : granted? (s.stored env ep - 1) = true := decide_eq_true (by omega)
    have hnext : holdsNext ep false (.redis (.evalTokenBucket ep env.rlMaxInflight env.rlTtlSeconds))
        (.ok (s.stored env ep - 1 : Int)) = true := (if_pos rfl).trans hgranted
    rw [hnext] at hheld
    have hsucc : s'.held ep = s.held ep + 1 := hheld
    exact ⟨_, rfl, ⟨by omega, by omega⟩, fun hminus => by omega⟩

/-- **The HINCRBY** of a holder stays within the maximum. -/
theorem Balanced.gives (hB : Balanced env ep s) {r : Except Err Int} {k : Except Err Int → Code Reply}
    (h : Advance s s' t c th (.redis (.hincrbyTokens ep)) r k w m) (hfault : c.fault = .none)
    (hholds : th.token ep = true) :
    ∃ current : Int, r = .ok current ∧ current ≤ env.rlMaxInflight ∧ Balanced env ep s' := by
  have hheld := h.held ep
  have htotal := hB.total
  have hnonneg := hB.nonneg
  have hpos : 0 < s.held ep := by
    obtain ⟨hget, halive⟩ := State.live?_eq_some.mp h.live
    exact List.countP_pos_iff.mpr ⟨th, List.mem_of_getElem? hget, by simp [halive, hholds]⟩
  rw [hholds] at hheld
  -- the key is there, as its absence would mean the maximum
  cases hentry : s.redis.bucketEntry s.now ep with
  | none =>
    have hfull : s.stored env ep = env.rlMaxInflight := by rw [State.stored, hentry]; rfl
    omega
  | some e =>
    have hstored : s.stored env ep = e.1 := by rw [State.stored, hentry]; rfl
    obtain ⟨r', hexec, hentry'⟩ := exec_hincrbyTokens hentry
    obtain ⟨rfl, hnow, hredis⟩ := perform_redis_ok hfault hexec h.done
    have hstored' : s'.stored env ep = e.1 + 1 := by
      rw [h.stored hnow, hredis, hentry']
      rfl
    have hnext : holdsNext ep true (.redis (.hincrbyTokens ep)) (.ok (e.1 + 1 : Int)) = false :=
      if_pos rfl
    rw [hnext] at hheld
    have hsucc : s'.held ep + 1 = s.held ep := hheld
    exact ⟨_, rfl, by omega, by omega, by omega⟩

end Bucket

/-- **A call** keeps the balance, and its answer is expected. -/
theorem Conserved.call (httl : 0 < env.rlTtlSeconds) (hI : Conserved env ep s) {c : Choice} {e : Eff}
    {r : e.Resp} {k : e.Resp → Code Reply} {w : World} {m : Memory}
    (h : Advance s s' t c th e r k w m) (hC : KeepsTokens ep s (.op t c)) :
    expectsBucket env ep e r ∧ Balanced env ep s' := by
  have hsafe := hI.threads t th h.live
  rw [h.prog] at hsafe
  have hperm : permitsBucket env ep (th.token ep) e := hsafe.1
  have hheld := h.held ep
  by_cases hap : Apart ep e
  · obtain ⟨hnow, hentry⟩ := perform_apart hap h.done
    have hsame : holdsNext ep (th.token ep) e r = th.token ep := (@Apart.ignored env ep e hap _).2 r
    rw [hsame] at hheld
    refine ⟨hap.expected r, hI.balance.of_eq ?_ (Nat.add_right_cancel hheld)⟩
    rw [h.stored hnow, hentry]
    rfl
  rcases not_apart hap with ⟨max, ttl, rfl⟩ | rfl | ⟨n, rfl⟩ | ⟨ttl, rfl⟩
  · obtain ⟨hnone, rfl, rfl⟩ := hperm rfl
    have hfault : c.fault = .none := hC (by simp [h.live, Thread.atBucket, h.prog])
    obtain ⟨remaining, rfl, hB, -⟩ := hI.balance.takes httl h hfault hnone
    exact ⟨fun _ => ⟨remaining, rfl⟩, hB⟩
  · have hfault : c.fault = .none := hC (by simp [h.live, Thread.atBucket, h.prog])
    obtain ⟨current, rfl, hle, hB⟩ := hI.balance.gives h hfault (hperm rfl)
    exact ⟨fun _ => ⟨current, rfl, hle⟩, hB⟩
  · exact absurd rfl hperm
  · obtain rfl : ttl = env.rlTtlSeconds := hperm rfl
    obtain ⟨hw, -⟩ := perform_redis h.done
    refine ⟨trivial, hI.balance.of_eq ?_ (Nat.add_right_cancel hheld)⟩
    have hnow : w.now = s.now := by rw [hw]
    rw [h.stored hnow, hw]
    change ((Redis.bucketEntry (c.fault.run _ _).1 s.now ep).map (·.1)).getD _ = _
    rw [Fault.run]
    split
    · rfl
    · exact congrArg (Option.getD · _) (exec_expireTokens httl s.now s.redis)

theorem bucketEntry_later (r : Redis) (now ms : ℕ) :
    r.bucketEntry (now + ms) ep = none ∨ r.bucketEntry (now + ms) ep = r.bucketEntry now ep := by
  cases he : r.bucketEntry (now + ms) ep with
  | none => exact Or.inl rfl
  | some e =>
    obtain ⟨hget, hlater⟩ := Option.filter_eq_some_iff.mp he
    refine Or.inr (Option.filter_eq_some_iff.mpr ⟨hget, ?_⟩).symm
    cases hexp : e.2 with
    | none => rfl
    | some exp =>
      rw [hexp, Option.all_some, decide_eq_true_eq] at hlater
      rw [Option.all_some, decide_eq_true_eq]
      exact Nat.lt_of_le_of_lt (Nat.le_add_right now ms) hlater

theorem Conserved.over (hI : Conserved env ep s) (hlive : s.live? t = some th)
    (hend : ∀ e k, th.prog ≠ .op e k) : th.token ep = false := by
  have hsafe := hI.threads t th hlive
  cases hp : th.prog with
  | ret a => rw [hp] at hsafe; exact hsafe
  | raise x => rw [hp] at hsafe; exact hsafe
  | op e k => exact absurd hp (hend e k)

/-- **A step without a call** keeps the tokens held, if whoever it ends held none. -/
theorem idle_held (h : step env s l = some s') (hop : ∀ t c, l ≠ .op t c)
    (hsettle : ∀ t th, l = .settle t → s.live? t = some th → (∀ e k, th.prog ≠ .op e k) →
      th.token ep = false)
    (hcrash : ∀ t th, l = .crash t → s.live? t = some th → th.token ep = false) :
    s'.held ep = s.held ep := by
  cases step_happens h with
  | op => exact absurd rfl (hop _ _)
  | @settle t th _ hlive hend h =>
    have hput := @held_put ep s t th th.over hlive (hsettle t th rfl hlive hend).symm
    cases h with
    | plain => exact hput
    | completes => exact hput
    | fails => exact held_spawn.trans hput
  | crash hlive => exact held_put hlive (hcrash _ _ rfl hlive).symm
  | extend hlive | extendReply hlive =>
    have halive := (State.live?_eq_some.mp hlive).2
    exact held_put hlive (by rw [halive]; rfl)
  | request | pickup | stallFail => exact held_spawn
  | _ => rfl

/-- The steps that can take the key of a bucket away. -/
inductive DropsBucket (ep : EndpointId) : Label → Prop where
  | tick (ms : ℕ) : DropsBucket ep (.tick ms)
  | evict : DropsBucket ep (.evict (.bucket ep))
  | loss : DropsBucket ep .redisLoss

/-- **A step without a call** leaves a bucket as it is, or its key is gone. -/
theorem idle_bucket (h : step env s l = some s') (hop : ∀ t c, l ≠ .op t c) :
    s'.redis.bucketEntry s'.now ep = s.redis.bucketEntry s.now ep ∨
      s'.redis.bucketEntry s'.now ep = none ∧ DropsBucket ep l := by
  cases step_happens h with
  | op => exact absurd rfl (hop _ _)
  | @tick ms =>
    exact (@bucketEntry_later ep s.redis s.now ms).symm.imp_right fun hgone => ⟨hgone, .tick ms⟩
  | settle _ _ h => cases h <;> exact Or.inl rfl
  | extend =>
    refine Or.inl ?_
    change Redis.bucketEntry (s.redis.extendLock _ _ _ _).1 s.now ep = _
    unfold Redis.extendLock
    split <;> rfl
  | @evict key =>
    cases key with
    | bucket ep' =>
      by_cases hep : ep' = ep
      · subst hep
        exact Or.inr ⟨by simp [Redis.bucketEntry, Redis.evict], .evict⟩
      · have hne : ep ≠ ep' := Ne.symm hep
        exact Or.inl (by simp [Redis.bucketEntry, Redis.evict, hne])
    | _ => exact Or.inl rfl
  | redisLoss => exact Or.inr ⟨rfl, .loss⟩
  | _ => exact Or.inl rfl

theorem Balanced.idle (hI : Conserved env ep s) (hC : KeepsTokens ep s l)
    (h : step env s l = some s') (hop : ∀ t c, l ≠ .op t c) : Balanced env ep s' := by
  have hheld : s'.held ep = s.held ep := by
    refine idle_held h hop (fun t th _ hlive hend => hI.over hlive hend) fun t th hl hlive => ?_
    subst hl
    rw [KeepsTokens, hlive] at hC
    exact hC
  rcases @idle_bucket env ep s s' l h hop with hsame | ⟨hgone, hdrops⟩
  · exact hI.balance.of_eq (by rw [State.stored, hsame]; rfl) hheld
  · -- the key goes only while nothing is held
    refine .of_full (by rw [State.stored, hgone]; rfl) (hheld.trans ?_)
    cases hdrops with
    | tick ms =>
      by_contra hpos
      cases h
      have hsome := hC (Nat.pos_of_ne_zero hpos)
      rw [hgone] at hsome
      cases hsome
    | evict => exact hC rfl
    | loss => exact hC

theorem Conserved.step (httl : 0 < env.rlTtlSeconds) (hI : Conserved env ep s)
    (hC : KeepsTokens ep s l) (h : step env s l = some s') : Conserved env ep s' := by
  have hB : Balanced env ep s' := by
    by_cases hop : ∃ t c, l = .op t c
    · obtain ⟨t, c, rfl⟩ := hop
      obtain ⟨th, e, r, k, w, m, h⟩ := stepOp_cases h
      exact (hI.call httl h hC).2
    · exact Balanced.idle hI hC h fun t c heq => hop ⟨t, c, heq⟩
  refine ⟨fun u th' hu => ?_, hB⟩
  cases step_arises h hu with
  | called hl hadv hth =>
    subst hl hth
    have hsafe := hI.threads u _ hadv.live
    rw [hadv.prog] at hsafe
    exact hsafe.2 _ (hI.call httl hadv hC).1
  | @kept th _ hlive hkept =>
    have htok : th'.token ep = th.token ep := congrArg (holdsToken ep) hkept.trace
    rw [htok, hkept.prog]
    exact hI.threads u th hlive
  | fresh hlen hstart hth =>
    subst hth
    exact safe_tokens u _

theorem reachable_conserved (httl : 0 < env.rlTtlSeconds) (h : Reachable env (KeepsTokens ep) s) :
    Conserved env ep s :=
  h.invariant (I := Conserved env ep) .init fun _ _ _ hI hC hstep => hI.step httl hC hstep

/-- **Tokens are conserved.** The stored count and the tokens held add up to the maximum, both between
zero and the maximum; no execution is about to send the capping HSET; and a script that answers -1 finds
every token held. -/
theorem token_conservation (httl : 0 < env.rlTtlSeconds) (h : Reachable env (KeepsTokens ep) s) :
    s.stored env ep + s.held ep = env.rlMaxInflight ∧
      (0 ≤ s.stored env ep ∧ s.stored env ep ≤ env.rlMaxInflight ∧ s.held ep ≤ env.rlMaxInflight) ∧
      (∀ t th n k, s.live? t = some th → th.prog ≠ .op (.redis (.hsetTokens ep n)) k) ∧
      ∀ t c s' th max ttl, KeepsTokens ep s (.op t c) → step env s (.op t c) = some s' →
        s'.live? t = some th →
          th.trace.head? = some ⟨.redis (.evalTokenBucket ep max ttl), .ok (-1 : Int)⟩ →
            s.held ep = env.rlMaxInflight := by
  have hI := reachable_conserved httl h
  have htotal := hI.balance.total
  have hnonneg := hI.balance.nonneg
  refine ⟨htotal, ⟨hnonneg, by omega, by omega⟩, fun t th n k hlive hp => ?_, ?_⟩
  · have hsafe := hI.threads t th hlive
    rw [hp] at hsafe
    exact hsafe.1 rfl
  · intro t c s' th' max ttl hC hstep hlive hhead
    obtain ⟨th, e, r, k, w, m, hadv⟩ := stepOp_cases hstep
    rw [hadv.live?_self] at hlive
    cases hlive
    cases hhead
    have hsafe := hI.threads t th hadv.live
    rw [hadv.prog] at hsafe
    obtain ⟨hnone, rfl, rfl⟩ := hsafe.1 rfl
    have hfault : c.fault = .none := hC (by simp [hadv.live, Thread.atBucket, hadv.prog])
    obtain ⟨remaining, hr, -, hfull⟩ := hI.balance.takes httl hadv hfault hnone
    cases hr
    exact hfull rfl

theorem token_conservation_in_flight : ∃ s, Reachable sampleEnv (KeepsTokens 0) s ∧ s.held 0 = 1 ∧
    s.stored sampleEnv 0 = 49 := by
  obtain ⟨s, hreach, hs⟩ := sample_run (C := KeepsTokens 0)
    (sampleIngest ++ .pickup (.delivery 2) :: calls 1 5) (fun s => s.held 0 = 1) (by decide +kernel)
  have hheld : s.held 0 = 1 := of_decide_eq_true hs
  refine ⟨s, hreach, hheld, ?_⟩
  have htotal : s.stored sampleEnv 0 + (s.held 0 : Int) = 50 :=
    (token_conservation (by decide) hreach).1
  rw [hheld] at htotal
  omega

end WebhookEngine
