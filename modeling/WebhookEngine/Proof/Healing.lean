import WebhookEngine.Proof.Tokens

set_option autoImplicit false

/-!
# Key loss and the bucket

A bucket whose key is gone counts as full for `token_bucket.lua`, while the HINCRBY of `release` counts
it as empty.

* `leases env ep`: the monitor of one bucket when its key may go at any time. A release that finds
  more than the maximum caps the count in its next call.
* `Unfailing`: no holder dies and no bucket command fails; the key may go at any time.
* `FindsKey`: a release finds its key, unless at least the maximum of tokens is held.
* `Healing`: while the key is there, the count and the tokens held are together at least the maximum,
  and a count above the maximum is about to be capped.
* **`bucket_heals`**: under both a bucket nobody uses is full; without `FindsKey` it need not be.
-/

namespace WebhookEngine

open EffectProg TransitionSystem

variable {env : Env} {ep : EndpointId}

/-! ## The monitor -/

/-- `current > RL_MAX_INFLIGHT`. -/
def overfull (env : Env) (current : Int) : Bool := current > env.rlMaxInflight

/-- Whether the HINCRBY of a release was above the maximum and not capped yet. -/
def cappingNext (env : Env) (ep : EndpointId) (capping : Bool) : (e : Eff) → e.Resp → Bool
  | .redis (.hincrbyTokens ep'), .ok current =>
    if ep' = ep then overfull env current else capping
  | .redis (.hsetTokens ep' _), _ => if ep' = ep then false else capping
  | _, _ => capping

/-- The calls that fit whether a token is held and whether a count has to be capped. -/
def permitsLease (env : Env) (ep : EndpointId) (m : Bool × Bool) (e : Eff) : Prop :=
  if m.2 then e = .redis (.hsetTokens ep env.rlMaxInflight) else permitsBucket env ep m.1 e

/-- No command on the bucket fails. -/
def expectsLease (ep : EndpointId) : (e : Eff) → e.Resp → Prop
  | .redis (.evalTokenBucket ep' _ _), r => ep' = ep → ∃ remaining, r = .ok remaining
  | .redis (.hincrbyTokens ep'), r => ep' = ep → ∃ current : Int, r = .ok current
  | _, _ => True

def leases (env : Env) (ep : EndpointId) : Monitor Eff Eff.Resp (Bool × Bool) where
  next m e r := (holdsNext ep m.1 e r, cappingNext env ep m.2 e r)
  permits := permitsLease env ep
  expects _ := expectsLease ep

theorem Apart.kept {e : Eff} (h : Apart ep e) (capping : Bool) (r : e.Resp) :
    cappingNext env ep capping e r = capping := by
  cases e with
  | redis c =>
    cases c with
    | hincrbyTokens ep' =>
      cases r with
      | ok current => exact if_neg h
      | error y => rfl
    | hsetTokens ep' n => exact if_neg h
    | _ => rfl
  | _ => rfl

theorem safe_apart_lease {α : Type} {held : Bool} {p : Code α}
    {Q : Bool × Bool → Except Err α → Prop} (hp : p.Uses (Apart ep))
    (hQ : ∀ r, Q (held, false) r) : Prog.Safe (leases env ep) (held, false) p Q := by
  refine hp.safe (fun e h => ?_) hQ
  obtain ⟨hperm, hnext⟩ := @Apart.ignored env ep e h held
  exact ⟨hperm, fun r => Prod.ext (hnext r) (@Apart.kept env ep e h false r)⟩

theorem safe_redis_lease {c : RedisCmd} {m : Bool × Bool}
    {Q : Bool × Bool → Except Err c.Ret → Prop} :
    Prog.Safe (leases env ep) m (redis c) Q ↔ permitsLease env ep m (.redis c) ∧
      ∀ r, expectsLease ep (.redis c) r → Q ((leases env ep).next m (.redis c) r) r := by
  unfold redis await
  rw [Prog.safe_bind]
  exact and_congr Iff.rfl (forall_congr' fun r => imp_congr Iff.rfl Prog.safe_ofExcept)

theorem safe_tryAcquire_lease (ep' : EndpointId) {Q : Bool × Bool → Except Err Bool → Prop}
    (htrue : Q (decide (ep' = ep), false) (.ok true)) (hfalse : Q (false, false) (.ok false))
    (herr : ∀ y, Q (false, false) (.error y)) :
    Prog.Safe (leases env ep) (false, false) (tryAcquire env ep') Q := by
  by_cases hep : ep' = ep
  · subst hep
    refine Prog.safe_bind.mpr (safe_redis_lease.mpr ⟨fun _ => ⟨rfl, rfl, rfl⟩, fun r hr => ?_⟩)
    obtain ⟨remaining, rfl⟩ := hr rfl
    change Q (if ep' = ep' then granted? remaining else false, false) (.ok (granted? remaining))
    rw [if_pos rfl]
    rw [decide_eq_true rfl] at htrue
    cases granted? remaining with
    | true => exact htrue
    | false => exact hfalse
  · rw [decide_eq_false hep] at htrue
    refine safe_apart_lease ((uses_await (by exact hep)).bind fun _ => trivial) fun r => ?_
    match r with
    | .error y => exact herr y
    | .ok true => exact htrue
    | .ok false => exact hfalse

theorem safe_release_lease (ep' : EndpointId) {Q : Bool × Bool → Except Err Unit → Prop}
    (hQ : ∀ r, Q (false, false) r) :
    Prog.Safe (leases env ep) (decide (ep' = ep), false) (releaseBucketToken env ep') Q := by
  by_cases hep : ep' = ep
  · subst hep
    rw [decide_eq_true rfl]
    have hexpire : Prog.Safe (leases env ep') (false, false)
        ((redis (.expireTokens ep' env.rlTtlSeconds)).bind fun _ => Prog.ret ()) Q := by
      refine Prog.safe_bind.mpr (safe_redis_lease.mpr ⟨fun _ => rfl, fun r _ => ?_⟩)
      cases r <;> exact hQ _
    refine Prog.safe_bind.mpr (safe_redis_lease.mpr ⟨fun _ => rfl, fun r hr => ?_⟩)
    obtain ⟨current, rfl⟩ := hr rfl
    change Prog.Safe _ (if ep' = ep' then false else true,
        if ep' = ep' then overfull env current else false)
      (if current > (env.rlMaxInflight : Int) then _ else _) _
    rw [if_pos rfl, if_pos rfl]
    split
    · rename_i hover
      rw [overfull, decide_eq_true hover]
      refine Prog.safe_bind.mpr (safe_redis_lease.mpr ⟨rfl, fun r _ => ?_⟩)
      have hnext : (leases env ep').next (false, true)
          (.redis (.hsetTokens ep' env.rlMaxInflight)) r = (false, false) :=
        Prod.ext rfl (if_pos rfl)
      rw [hnext]
      cases r with
      | ok _ => exact hexpire
      | error y => exact hQ _
    · rename_i hle
      rw [overfull, decide_eq_false hle]
      exact hexpire
  · rw [decide_eq_false hep]
    refine safe_apart_lease ((uses_await (by exact hep)).bind fun current => ?_) hQ
    split
    · exact (uses_await (by exact hep)).bind fun _ =>
        (uses_await (by exact hep)).bind fun _ => trivial
    · exact (uses_await (by exact hep)).bind fun _ => trivial

/-- **Every program keeps to the monitor** and ends with no token and nothing to cap. -/
theorem safe_leases (t : Tid) (k : Kind) :
    Prog.Safe (leases env ep) (false, false) (program env t k) fun m _ => m = (false, false) := by
  by_cases hk : ∃ job, k = .deliver job
  · obtain ⟨job, rfl⟩ := hk
    have hsafe : Prog.Safe (leases env ep) (false, false) (processDelivery env job t)
        fun m _ => m = (false, false) := by
      refine safe_bracket (fun ep' => (decide (ep' = ep), false)) job t (fun hm hp hQ => ?_)
        safe_tryAcquire_lease safe_release_lease
      rcases hm with rfl | ⟨ep', rfl⟩
      · exact safe_apart_lease (hp.mono fun _ h => h.apart) hQ
      · exact safe_apart_lease (hp.mono fun _ h => h.apart) hQ
    refine Prog.safe_bind.mpr (hsafe.mono fun m r h => ?_)
    cases r <;> exact h
  · exact safe_apart_lease (apart_program t fun job hj => hk ⟨job, hj⟩) fun _ => rfl

/-! ## The system -/

variable {s s' : State} {t : Tid} {th th' : Thread} {l : Label}

/-- Whether a release has a count to cap, from its calls, latest first. -/
def cappingOf (env : Env) (ep : EndpointId) : List Event → Bool
  | [] => false
  | ev :: trace => cappingNext env ep (cappingOf env ep trace) ev.1 ev.2

/-- The execution has found more than the maximum of tokens and has not capped them yet. -/
def Thread.capping (th : Thread) (env : Env) (ep : EndpointId) : Bool := cappingOf env ep th.trace

/-- The next call is one of `release` on the bucket of `ep`. -/
def Thread.releasing (th : Thread) (ep : EndpointId) : Bool :=
  match th.prog with
  | .op (.redis (.hincrbyTokens ep')) _ => ep' = ep
  | .op (.redis (.hsetTokens ep' _)) _ => ep' = ep
  | .op (.redis (.expireTokens ep' _)) _ => ep' = ep
  | _ => false

/-- The next call is a HINCRBY on the bucket of `ep`. -/
def Thread.returning (th : Thread) (ep : EndpointId) : Bool :=
  match th.prog with
  | .op (.redis (.hincrbyTokens ep')) _ => ep' = ep
  | _ => false

/-- No execution dies with a token or a count to cap, and no bucket command fails. The key may be lost
or run out at any time. -/
def Unfailing (env : Env) (ep : EndpointId) (s : State) : Label → Prop
  | .op t c => ((s.live? t).any fun th => th.atBucket ep || th.releasing ep) = true →
      c.fault = .none
  | .crash t => ((s.live? t).any fun th => th.token ep || th.capping env ep) = false
  | _ => True

instance (s : State) : (l : Label) → Decidable (Unfailing env ep s l)
  | .op _ _ => inferInstanceAs (Decidable (_ → _))
  | .crash _ => inferInstanceAs (Decidable (_ = _))
  | .tick _ | .settle _ | .extend _ | .extendReply _ | .request _ | .pickup _ | .stall _
  | .stallFail _ | .removeCompleted _ | .operatorAdd _ _ | .evict _ | .idemArrive _ | .redisLoss
  | .createEndpoint _ _ _ | .patchEndpoint _ _ _ => inferInstanceAs (Decidable True)

/-- A release finds its key, or at least the maximum of tokens is held. -/
def FindsKey (env : Env) (ep : EndpointId) (s : State) : Label → Prop
  | .op t _ => (s.live? t).any (·.returning ep) = true →
      s.redis.bucketEntry s.now ep = none → env.rlMaxInflight ≤ s.held ep
  | _ => True

instance (s : State) : (l : Label) → Decidable (FindsKey env ep s l)
  | .op _ _ => inferInstanceAs (Decidable (_ → _ → _))
  | .crash _ | .tick _ | .settle _ | .extend _ | .extendReply _ | .request _ | .pickup _ | .stall _
  | .stallFail _ | .removeCompleted _ | .operatorAdd _ _ | .evict _ | .idemArrive _ | .redisLoss
  | .createEndpoint _ _ _ | .patchEndpoint _ _ _ => inferInstanceAs (Decidable True)

def Heals (env : Env) (ep : EndpointId) (s : State) (l : Label) : Prop :=
  Unfailing env ep s l ∧ FindsKey env ep s l

instance (s : State) (l : Label) : Decidable (Heals env ep s l) := inferInstanceAs (Decidable (_ ∧ _))

/-- **What is invariant**: the programs keep to the monitor; while the key is there, the count and the
tokens held are together at least the maximum; and a count above the maximum is about to be capped. -/
structure Healing (env : Env) (ep : EndpointId) (s : State) : Prop where
  threads : ∀ t th, s.live? t = some th →
    Prog.Safe (leases env ep) (th.token ep, th.capping env ep) th.prog fun m _ => m = (false, false)
  enough : ∀ e, s.redis.bucketEntry s.now ep = some e → (env.rlMaxInflight : Int) ≤ e.1 + s.held ep
  capped : ∀ e, s.redis.bucketEntry s.now ep = some e → (env.rlMaxInflight : Int) < e.1 →
    ∃ t th, s.live? t = some th ∧ th.capping env ep = true

theorem Healing.init : Healing env ep {} where
  threads := by simp [State.live?]
  enough := nofun
  capped := nofun

theorem Healing.releasing (hI : Healing env ep s) (hlive : s.live? t = some th)
    (hcap : th.capping env ep = true) :
    ∃ k, th.prog = .op (.redis (.hsetTokens ep env.rlMaxInflight)) k := by
  have hsafe := hI.threads t th hlive
  rw [hcap] at hsafe
  cases hp : th.prog with
  | ret a =>
    rw [hp] at hsafe
    cases (Prod.mk.inj hsafe).2
  | raise x =>
    rw [hp] at hsafe
    cases (Prod.mk.inj hsafe).2
  | op e k =>
    rw [hp] at hsafe
    have he : e = .redis (.hsetTokens ep env.rlMaxInflight) := hsafe.1
    subst he
    exact ⟨k, rfl⟩

/-! ## What a command does to a bucket whose key may be gone -/

/-- The entry of one bucket is replaced. -/
abbrev Redis.putBucket (r : Redis) (ep : EndpointId) (e : Option (Int × Option Time)) : Redis :=
  { r with bucket := Function.update r.bucket ep e }

theorem bucketEntry_put {r : Redis} {now : Time} {e e' : Int × Option Time}
    (h : (r.putBucket ep (some e)).bucketEntry now ep = some e') : e' = e := by
  have hget : Function.update r.bucket ep (some e) ep = some e' :=
    (Option.filter_eq_some_iff.mp h).1
  rw [Function.update_self] at hget
  exact (Option.some.inj hget).symm

/-- The count is enough, and if it is above the maximum, `P` holds. -/
def Sufficient (env : Env) (ep : EndpointId) (s : State) (P : Prop) : Prop :=
  ∀ e, s.redis.bucketEntry s.now ep = some e → (env.rlMaxInflight : Int) ≤ e.1 + s.held ep ∧
    ((env.rlMaxInflight : Int) < e.1 → P)

/-- The count was above the maximum. -/
def State.overfull (env : Env) (s : State) (ep : EndpointId) : Prop :=
  ∃ e, s.redis.bucketEntry s.now ep = some e ∧ (env.rlMaxInflight : Int) < e.1

theorem Healing.same (hI : Healing env ep s)
    (hentry : s'.redis.bucketEntry s'.now ep = s.redis.bucketEntry s.now ep)
    (hheld : s'.held ep = s.held ep) : Sufficient env ep s' (s.overfull env ep) := by
  intro e he
  rw [hentry] at he
  rw [hheld]
  exact ⟨hI.enough e he, fun hover => ⟨e, he, hover⟩⟩

section Call

variable {c : Choice} {w : World} {m : Memory}

/-- **The script** takes a token from what is there, or from a full bucket. -/
theorem Healing.takes (hI : Healing env ep s) {r : Except Err Int} {k : Except Err Int → Code Reply}
    {ttl : ℕ} (h : Advance s s' t c th (.redis (.evalTokenBucket ep env.rlMaxInflight ttl)) r k w m)
    (hfault : c.fault = .none) (hnone : th.token ep = false) :
    (∃ remaining : Int, r = .ok remaining) ∧ Sufficient env ep s' (s.overfull env ep) := by
  have hheld := h.held ep
  rw [hnone] at hheld
  let n : Int := ((s.redis.bucketEntry s.now ep).map (·.1)).getD (env.rlMaxInflight : Int)
  by_cases hle : n ≤ 0
  · have hexec : RedisCmd.exec s.now s.redis (.evalTokenBucket ep env.rlMaxInflight ttl) =
        (s.redis, (-1 : Int)) := if_pos hle
    obtain ⟨rfl, hnow, hredis⟩ := perform_redis_ok hfault hexec h.done
    have hnext : holdsNext ep false (.redis (.evalTokenBucket ep env.rlMaxInflight ttl))
        (.ok (-1 : Int)) = false := if_pos rfl
    rw [hnext] at hheld
    refine ⟨⟨-1, rfl⟩, hI.same ?_ (Nat.add_right_cancel hheld)⟩
    rw [h.world, hnow, hredis]
  · have hexec : RedisCmd.exec s.now s.redis (.evalTokenBucket ep env.rlMaxInflight ttl) =
        (s.redis.putBucket ep (some (n - 1, some (s.now + ttl * 1000))), (n - 1 : Int)) :=
      if_neg hle
    obtain ⟨rfl, hnow, hredis⟩ := perform_redis_ok hfault hexec h.done
    have hgranted : granted? (n - 1) = true := decide_eq_true (by omega)
    have hnext : holdsNext ep false (.redis (.evalTokenBucket ep env.rlMaxInflight ttl))
        (.ok (n - 1 : Int)) = true := (if_pos rfl).trans hgranted
    rw [hnext] at hheld
    have hsucc : s'.held ep = s.held ep + 1 := hheld
    refine ⟨⟨n - 1, rfl⟩, fun e he => ?_⟩
    rw [h.world, hnow, hredis] at he
    obtain rfl := bucketEntry_put he
    cases hentry : s.redis.bucketEntry s.now ep with
    | none =>
      have hn : n = env.rlMaxInflight := by simp only [n, hentry]; rfl
      exact ⟨by dsimp only; omega, fun hover => by dsimp only at hover; omega⟩
    | some e₀ =>
      have hn : n = e₀.1 := by simp only [n, hentry]; rfl
      have hold := hI.enough e₀ hentry
      exact ⟨by dsimp only; omega, fun hover => ⟨e₀, hentry, by dsimp only at hover; omega⟩⟩

/-- **The HINCRBY** gives the token back to what is there. -/
theorem Healing.gives (hI : Healing env ep s) {r : Except Err Int} {k : Except Err Int → Code Reply}
    (h : Advance s s' t c th (.redis (.hincrbyTokens ep)) r k w m) (hfault : c.fault = .none)
    (hholds : th.token ep = true)
    (hkey : s.redis.bucketEntry s.now ep = none → env.rlMaxInflight ≤ s.held ep) :
    ∃ current : Int, r = .ok current ∧ Sufficient env ep s' (overfull env current = true) := by
  have hheld := h.held ep
  rw [hholds] at hheld
  let e₀ : Int × Option Time := (s.redis.bucketEntry s.now ep).getD (0, none)
  have hexec : RedisCmd.exec s.now s.redis (.hincrbyTokens ep) =
      (s.redis.putBucket ep (some (e₀.1 + 1, e₀.2)), (e₀.1 + 1 : Int)) := rfl
  obtain ⟨rfl, hnow, hredis⟩ := perform_redis_ok hfault hexec h.done
  have hnext : holdsNext ep true (.redis (.hincrbyTokens ep)) (.ok (e₀.1 + 1 : Int)) = false :=
    if_pos rfl
  rw [hnext] at hheld
  have hsucc : s'.held ep + 1 = s.held ep := hheld
  refine ⟨e₀.1 + 1, rfl, fun e he => ?_⟩
  rw [h.world, hnow, hredis] at he
  obtain rfl := bucketEntry_put he
  refine ⟨?_, fun hover => decide_eq_true hover⟩
  cases hentry : s.redis.bucketEntry s.now ep with
  | none =>
    have hzero : e₀.1 = 0 := by simp only [e₀, hentry]; rfl
    have hmax := hkey hentry
    dsimp only
    omega
  | some e₁ =>
    have hcount : e₀.1 = e₁.1 := by simp only [e₀, hentry]; rfl
    have hold := hI.enough e₁ hentry
    dsimp only
    omega

/-- **The HSET** leaves the maximum. -/
theorem Sufficient.caps {r : Except Err Unit} {k : Except Err Unit → Code Reply}
    (h : Advance s s' t c th (.redis (.hsetTokens ep env.rlMaxInflight)) r k w m)
    (hfault : c.fault = .none) : Sufficient env ep s' False := by
  have hexec : RedisCmd.exec s.now s.redis (.hsetTokens ep env.rlMaxInflight) =
      (s.redis.putBucket ep (some ((env.rlMaxInflight : Int),
        ((s.redis.bucketEntry s.now ep).getD (0, none)).2)), ()) := rfl
  obtain ⟨-, hnow, hredis⟩ := perform_redis_ok hfault hexec h.done
  intro e he
  rw [h.world, hnow, hredis] at he
  obtain rfl := bucketEntry_put he
  exact ⟨by dsimp only; omega, fun hover => by dsimp only at hover; omega⟩

/-- **The EXPIRE** keeps the count, or the key runs out at once. -/
theorem Healing.expires (hI : Healing env ep s) {ttl : ℕ} {r : Except Err Unit}
    {k : Except Err Unit → Code Reply}
    (h : Advance s s' t c th (.redis (.expireTokens ep ttl)) r k w m) :
    Sufficient env ep s' (s.overfull env ep) := by
  have hheld := h.held ep
  have hsame : s'.held ep = s.held ep := Nat.add_right_cancel hheld
  obtain ⟨hw, -⟩ := perform_redis h.done
  intro e he
  rw [h.world, hw] at he
  change Redis.bucketEntry (c.fault.run s.redis _).1 s.now ep = some e at he
  rw [Fault.run] at he
  have hcount : ∃ e₀, s.redis.bucketEntry s.now ep = some e₀ ∧ e₀.1 = e.1 := by
    split at he
    · exact ⟨e, he, rfl⟩
    · have hget : Function.update s.redis.bucket ep ((s.redis.bucketEntry s.now ep).map fun e =>
          (e.1, some (s.now + ttl * 1000))) ep = some e := (Option.filter_eq_some_iff.mp he).1
      rw [Function.update_self] at hget
      obtain ⟨e₀, he₀, rfl⟩ := Option.map_eq_some_iff.mp hget
      exact ⟨e₀, he₀, rfl⟩
  obtain ⟨e₀, he₀, hcount⟩ := hcount
  rw [hsame, ← hcount]
  exact ⟨hI.enough e₀ he₀, fun hover => ⟨e₀, he₀, hover⟩⟩

end Call

/-- Somebody has a count to cap. -/
def Capping (env : Env) (ep : EndpointId) (s : State) : Prop :=
  ∃ t th, s.live? t = some th ∧ th.capping env ep = true

/-- **A call** keeps what is invariant of the bucket, and its answer is expected. -/
theorem Healing.call (hI : Healing env ep s) {c : Choice} {e : Eff} {r : e.Resp}
    {k : e.Resp → Code Reply} {w : World} {m : Memory} (h : Advance s s' t c th e r k w m)
    (hC : Heals env ep s (.op t c)) :
    expectsLease ep e r ∧ Sufficient env ep s' (Capping env ep s') := by
  have hsafe := hI.threads t th h.live
  rw [h.prog] at hsafe
  have hperm : permitsLease env ep (th.token ep, th.capping env ep) e := hsafe.1
  have hop : ∀ {p : Thread → Bool}, p th = true → (s.live? t).any p = true := fun hp => by
    rw [h.live]
    exact hp
  cases hcap : th.capping env ep with
  | true =>
    rw [hcap] at hperm
    obtain rfl : e = .redis (.hsetTokens ep env.rlMaxInflight) := hperm
    have hfault : c.fault = .none := hC.1 (hop (by simp [Thread.releasing, h.prog]))
    exact ⟨trivial, fun e he => (Sufficient.caps h hfault e he).imp_right fun hno hover =>
      (hno hover).elim⟩
  | false =>
    rw [hcap] at hperm
    have hperm : permitsBucket env ep (th.token ep) e := hperm
    -- whoever has to cap is another execution
    have hothers : Sufficient env ep s' (s.overfull env ep) →
        Sufficient env ep s' (Capping env ep s') := by
      intro hsuf e he
      refine (hsuf e he).imp_right fun himp hover => ?_
      obtain ⟨e₀, he₀, hover₀⟩ := himp hover
      obtain ⟨u, thu, hu, hcapu⟩ := hI.capped e₀ he₀ hover₀
      have hut : u ≠ t := by
        rintro rfl
        rw [h.live] at hu
        cases hu
        rw [hcap] at hcapu
        cases hcapu
      exact ⟨u, thu, (h.live?_other hut).trans hu, hcapu⟩
    by_cases hap : Apart ep e
    · obtain ⟨hnow, hentry⟩ := perform_apart hap h.done
      have hheld := h.held ep
      have hsame : holdsNext ep (th.token ep) e r = th.token ep :=
        (@Apart.ignored env ep e hap _).2 r
      rw [hsame] at hheld
      refine ⟨?_, hothers (hI.same ?_ (Nat.add_right_cancel hheld))⟩
      · cases e with
        | redis cmd =>
          cases cmd with
          | evalTokenBucket ep' max ttl => exact fun heq => absurd heq hap
          | hincrbyTokens ep' => exact fun heq => absurd heq hap
          | _ => trivial
        | _ => trivial
      · rw [h.world, hnow]
        exact hentry
    rcases not_apart hap with ⟨max, ttl, rfl⟩ | rfl | ⟨n, rfl⟩ | ⟨ttl, rfl⟩
    · obtain ⟨hnone, rfl, -⟩ := hperm rfl
      have hfault : c.fault = .none := hC.1 (hop (by simp [Thread.atBucket, h.prog]))
      obtain ⟨⟨remaining, rfl⟩, hsuf⟩ := hI.takes h hfault hnone
      exact ⟨fun _ => ⟨remaining, rfl⟩, hothers hsuf⟩
    · have hfault : c.fault = .none := hC.1 (hop (by simp [Thread.releasing, h.prog]))
      obtain ⟨current, rfl, hsuf⟩ := hI.gives h hfault (hperm rfl)
        (hC.2 (hop (by simp [Thread.returning, h.prog])))
      refine ⟨fun _ => ⟨current, rfl⟩, fun e he => (hsuf e he).imp_right fun himp hover => ?_⟩
      refine ⟨t, _, h.live?_self, ?_⟩
      exact (if_pos rfl).trans (himp hover)
    · exact absurd rfl hperm
    · exact ⟨trivial, hothers (hI.expires h)⟩

theorem Healing.over (hI : Healing env ep s) (hlive : s.live? t = some th)
    (hend : ∀ e k, th.prog ≠ .op e k) : th.token ep = false := by
  have hsafe := hI.threads t th hlive
  cases hp : th.prog with
  | ret a => rw [hp] at hsafe; exact (Prod.mk.inj hsafe).1
  | raise x => rw [hp] at hsafe; exact (Prod.mk.inj hsafe).1
  | op e k => exact absurd hp (hend e k)

/-- **A step without a call.** -/
theorem Healing.idle (hI : Healing env ep s) (hC : Heals env ep s l) (h : step env s l = some s')
    (hop : ∀ t c, l ≠ .op t c) : Sufficient env ep s' (Capping env ep s') := by
  have hcrash : ∀ t th, l = .crash t → s.live? t = some th →
      th.token ep = false ∧ th.capping env ep = false := by
    rintro t th rfl hlive
    have hdies := hC.1
    rw [Unfailing, hlive] at hdies
    exact Bool.or_eq_false_iff.mp hdies
  have hheld : s'.held ep = s.held ep :=
    idle_held h hop (fun t th _ hlive hend => hI.over hlive hend) fun t th hl hlive =>
      (hcrash t th hl hlive).1
  intro e he
  rcases @idle_bucket env ep s s' l h hop with hsame | ⟨hgone, -⟩
  · refine (hI.same hsame hheld e he).imp_right fun himp hover => ?_
    obtain ⟨e₀, he₀, hover₀⟩ := himp hover
    obtain ⟨u, th, hu, hcap⟩ := hI.capped e₀ he₀ hover₀
    have hsettle : l ≠ .settle u := by
      rintro rfl
      obtain ⟨th₁, hlive, hend, -⟩ := settle_cases h
      obtain rfl : th₁ = th := Option.some.inj (hlive.symm.trans hu)
      obtain ⟨k, hp⟩ := hI.releasing hu hcap
      exact hend _ k hp
    have halive : l ≠ .crash u := by
      intro hl
      rw [(hcrash u th hl hu).2] at hcap
      cases hcap
    obtain ⟨th', hu', -⟩ := step_survives h hu hsettle halive
    refine ⟨u, th', hu', ?_⟩
    cases step_arises h hu' with
    | called hl => exact absurd hl (hop u _)
    | @kept th₁ _ hlive hkept =>
      obtain rfl : th₁ = th := Option.some.inj (hlive.symm.trans hu)
      rw [Thread.capping, hkept.trace]
      exact hcap
    | fresh hlen => exact absurd (State.live?_lt hu) (Nat.not_lt_of_le hlen)
  · rw [hgone] at he
    cases he

theorem Healing.step (hI : Healing env ep s) (hC : Heals env ep s l)
    (h : step env s l = some s') : Healing env ep s' := by
  have hsuf : Sufficient env ep s' (Capping env ep s') := by
    by_cases hop : ∃ t c, l = .op t c
    · obtain ⟨t, c, rfl⟩ := hop
      obtain ⟨th, e, r, k, w, m, hadv⟩ := stepOp_cases h
      exact (hI.call hadv hC).2
    · exact hI.idle hC h fun t c hl => hop ⟨t, c, hl⟩
  refine ⟨fun u th' hu => ?_, fun e he => (hsuf e he).1, fun e he => (hsuf e he).2⟩
  cases step_arises h hu with
  | called hl hadv hth =>
    subst hl hth
    have hsafe := hI.threads u _ hadv.live
    rw [hadv.prog] at hsafe
    exact hsafe.2 _ (hI.call hadv hC).1
  | @kept th _ hlive hkept =>
    rw [Thread.token, Thread.capping, hkept.trace, hkept.prog]
    exact hI.threads u th hlive
  | fresh hlen hstart hth =>
    subst hth
    exact safe_leases u _

theorem reachable_healing (h : Reachable env (Heals env ep) s) : Healing env ep s :=
  h.invariant (I := Healing env ep) .init fun _ _ _ hI hC hstep => hI.step hC hstep

/-- **The bucket heals.** Whatever happened to its key, a bucket of which no token is held and that
nobody is releasing is full: its key is absent or stores the maximum. -/
theorem bucket_heals (h : Reachable env (Heals env ep) s) (hheld : s.held ep = 0)
    (hidle : ∀ t th, s.live? t = some th → th.releasing ep = false) :
    s.redis.bucketEntry s.now ep = none ∨
      ∃ exp, s.redis.bucketEntry s.now ep = some ((env.rlMaxInflight : Int), exp) := by
  have hI := reachable_healing h
  cases he : s.redis.bucketEntry s.now ep with
  | none => exact Or.inl rfl
  | some e =>
    refine Or.inr ⟨e.2, congrArg some (Prod.ext ?_ rfl)⟩
    have hle := hI.enough e he
    have hge : ¬ (env.rlMaxInflight : Int) < e.1 := by
      intro hover
      obtain ⟨t, th, hlive, hcap⟩ := hI.capped e he hover
      obtain ⟨k, hp⟩ := hI.releasing hlive hcap
      have hnot := hidle t th hlive
      simp [Thread.releasing, hp] at hnot
    dsimp only
    omega

/-- A delivery is under way when the key of its bucket is evicted, and ends after that. -/
def sampleEvicted : List Label :=
  sampleIngest ++ .pickup (.delivery 2) :: calls 1 5 ++ .evict (.bucket 0) :: calls 1 26

/-- Nobody holds a token of the bucket 0 or is releasing one. -/
def State.unused (s : State) : Bool :=
  s.held 0 = 0 ∧ ∀ th ∈ s.threads, th.releasing 0 = false

theorem State.unused_eq_true (h : s.unused = true) : s.held 0 = 0 ∧
    ∀ t th, s.live? t = some th → th.releasing 0 = false := by
  obtain ⟨hheld, hall⟩ := of_decide_eq_true h
  exact ⟨hheld, fun t th hlive =>
    hall th (List.mem_of_getElem? (State.live?_eq_some.mp hlive).1)⟩

theorem bucket_heals_evicted : ∃ s, Reachable narrowEnv (Heals narrowEnv 0) s ∧ s.held 0 = 0 ∧
    (s.redis.bucketEntry s.now 0).isSome ∧ ∃ exp, s.redis.bucketEntry s.now 0 = some (1, exp) := by
  have hcomputed : (runOf (step narrowEnv) (Heals narrowEnv 0) {} sampleEvicted).any
      (fun s => s.unused && (s.redis.bucketEntry s.now 0).isSome) = true := by decide +kernel
  obtain ⟨s, hrun, hs⟩ := exists_run hcomputed
  obtain ⟨hunused, hsome⟩ := Bool.and_eq_true_iff.mp hs
  obtain ⟨hheld, hidle⟩ := State.unused_eq_true hunused
  have hreach : Reachable narrowEnv (Heals narrowEnv 0) s := ⟨_, hrun⟩
  rcases bucket_heals hreach hheld hidle with hnone | hfull
  · rw [hnone] at hsome
    cases hsome
  · exact ⟨s, hreach, hheld, hsome, hfull⟩

/-- The release makes a key with one token out of fifty. -/
theorem bucket_throttled : ¬ ∀ s ep, Reachable sampleEnv (Unfailing sampleEnv ep) s →
    s.held ep = 0 → (∀ t th, s.live? t = some th → th.releasing ep = false) →
      s.redis.bucketEntry s.now ep = none ∨
        ∃ exp, s.redis.bucketEntry s.now ep = some ((sampleEnv.rlMaxInflight : Int), exp) := by
  intro h
  obtain ⟨s, hreach, hs⟩ := sample_run (C := Unfailing sampleEnv 0) sampleEvicted
    (fun s => s.unused && (s.redis.bucketEntry s.now 0).any fun e => e.1 = 1) (by decide +kernel)
  obtain ⟨hunused, hone⟩ := Bool.and_eq_true_iff.mp hs
  obtain ⟨hheld, hidle⟩ := State.unused_eq_true hunused
  obtain ⟨e, he, hone⟩ := (Option.any_eq_true _ _).mp hone
  have hone : e.1 = 1 := of_decide_eq_true hone
  rcases h s 0 hreach hheld hidle with hnone | ⟨exp, hfull⟩
  · cases he.symm.trans hnone
  · obtain rfl := Option.some.inj (he.symm.trans hfull)
    have hone : (50 : Int) = 1 := hone
    exact absurd hone (by decide)

end WebhookEngine
