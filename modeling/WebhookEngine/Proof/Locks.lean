import WebhookEngine.Proof.History

set_option autoImplicit false

/-!
# The lock protocol

The calls of `redis/lock.ts` on their own: any number of workers acquire, extend and release, each
`acquire` with a token nobody has drawn before, and time passes in between.

* `lockAt_setLock`, `lockAt_extendLock`, `lockAt_release`: what one call makes of the stored token.
* `LockState.step`: one call; the log keeps every call with its time and its answer.
* `granted`, `Granted`: the last time a token was set or extended, and that the stored entry is the
  one it left.
* **`lock_exclusive`**: from an `acquire` on no other one succeeds before the holder's release, or
  before the time to live has passed since it last extended; a call with a token that is not stored
  answers false and changes nothing.
-/

namespace WebhookEngine

open TransitionSystem

/-! ## One call -/

namespace Redis

variable {r : Redis} {now : Time} {d x : IdText} {token other : Tid} {ttl : ℕ}

theorem lockAt_eq_some : r.lockAt now d = some token ↔ ∃ exp, r.lock d = some (token, exp) ∧ now < exp := by
  unfold lockAt
  cases h : r.lock d with
  | none => simp
  | some e =>
    obtain ⟨tok, exp⟩ := e
    simp only [Option.bind_some, Option.some.injEq, Prod.mk.injEq]
    split
    · rename_i hlt
      exact ⟨fun he => ⟨exp, ⟨Option.some.inj he, rfl⟩, hlt⟩, fun ⟨_, ⟨he, _⟩, _⟩ => congrArg some he⟩
    · rename_i hlt
      exact ⟨fun he => (nomatch he), fun ⟨_, ⟨_, he⟩, hlt'⟩ => absurd (he ▸ hlt') hlt⟩

/-- The lock entry of one delivery is replaced. -/
abbrev putLock (r : Redis) (d : IdText) (e : Option (Tid × Time)) : Redis :=
  { r with lock := Function.update r.lock d e }

theorem lockAt_putLock_self {e : Tid × Time} (h : now < e.2) :
    (r.putLock d (some e)).lockAt now d = some e.1 := by
  simp [lockAt, h]

theorem lockAt_putLock_other {e : Option (Tid × Time)} (h : x ≠ d) :
    (r.putLock d e).lockAt now x = r.lockAt now x := by
  simp [lockAt, h]

end Redis

/-- A call of `redis/lock.ts`, or time passing. -/
inductive LockCall where
  | tick (ms : ℕ)
  | acquire (d : IdText) (token : Tid)
  | extend (d : IdText) (token : Tid)
  | release (d : IdText) (token : Tid)
  deriving DecidableEq

/-- The call on the server. -/
def LockCall.exec (env : Env) (now : Time) (r : Redis) : LockCall → Redis × Bool
  | .tick _ => (r, true)
  | .acquire d token => RedisCmd.exec now r (.setLock d token env.lockTtlMs)
  | .extend d token => r.extendLock now d token env.lockTtlMs
  | .release d token => RedisCmd.exec now r (.evalReleaseLock d token)

def LockCall.elapsed : LockCall → ℕ
  | .tick ms => ms
  | _ => 0

/-- The call sets or extends the lock, as it finds it. -/
inductive LockCall.Grants (now : Time) (r : Redis) (d : IdText) (token : Tid) : LockCall → Prop where
  | acquire (h : r.lockAt now d = none) : Grants now r d token (.acquire d token)
  | extend (h : r.lockAt now d = some token) : Grants now r d token (.extend d token)

/-- **What a call does**: nothing, or it sets the lock, or it deletes its own. -/
inductive LockCall.Does (env : Env) (now : Time) (r : Redis) : LockCall → Redis × Bool → Prop where
  | tick (ms : ℕ) : Does env now r (.tick ms) (r, true)
  | refused (c : LockCall) : Does env now r c (r, false)
  | granted {c : LockCall} {d : IdText} {token : Tid} (h : c.Grants now r d token) :
      Does env now r c (r.putLock d (some (token, now + env.lockTtlMs)), true)
  | freed {d : IdText} {token : Tid} (h : r.lockAt now d = some token) :
      Does env now r (.release d token) (r.putLock d none, true)

theorem LockCall.does (env : Env) (now : Time) (r : Redis) (c : LockCall) :
    c.Does env now r (c.exec env now r) := by
  cases c with
  | tick ms => exact .tick ms
  | acquire d token =>
    by_cases h : r.lockAt now d = none
    · have he : exec env now r (.acquire d token) =
          (r.putLock d (some (token, now + env.lockTtlMs)), true) := if_pos h
      rw [he]
      exact .granted (.acquire h)
    · have he : exec env now r (.acquire d token) = (r, false) := if_neg h
      rw [he]
      exact .refused _
  | extend d token =>
    by_cases h : r.lockAt now d = some token
    · have he : exec env now r (.extend d token) =
          (r.putLock d (some (token, now + env.lockTtlMs)), true) := if_pos h
      rw [he]
      exact .granted (.extend h)
    · have he : exec env now r (.extend d token) = (r, false) := if_neg h
      rw [he]
      exact .refused _
  | release d token =>
    by_cases h : r.lockAt now d = some token
    · have he : exec env now r (.release d token) =
          (r.putLock d none, true) := if_pos h
      rw [he]
      exact .freed h
    · have he : exec env now r (.release d token) = (r, false) := if_neg h
      rw [he]
      exact .refused _

/-! ## Any number of calls -/

/-- A call with the time it was made at and its answer. -/
structure LockEntry where
  time : Time
  call : LockCall
  answer : Bool
  deriving DecidableEq

/-- The server, and the calls so far, latest first. -/
structure LockState where
  now : Time := 0
  redis : Redis := {}
  log : List LockEntry := []

/-- The token was drawn by an earlier `acquire`. -/
def LockState.drawn (s : LockState) (token : Tid) : Prop := ∃ e ∈ s.log, ∃ d, e.call = .acquire d token

/-- Every `acquire` draws a new token. -/
def LockFresh (s : LockState) : LockCall → Prop
  | .acquire _ token => ¬ s.drawn token
  | _ => True

def LockState.step (env : Env) (s : LockState) (c : LockCall) : Option LockState :=
  some
    { now := s.now + c.elapsed
      redis := (c.exec env s.now s.redis).1
      log := ⟨s.now, c, (c.exec env s.now s.redis).2⟩ :: s.log }

/-- The entry says that the lock was set or extended with the token. -/
def LockEntry.grants (e : LockEntry) (d : IdText) (token : Tid) : Prop :=
  e.answer = true ∧ (e.call = .acquire d token ∨ e.call = .extend d token)

/-- The entry says that the token was released. -/
def LockEntry.frees (e : LockEntry) (d : IdText) (token : Tid) : Prop :=
  e.answer = true ∧ e.call = .release d token

instance (e : LockEntry) (d : IdText) (token : Tid) : Decidable (e.grants d token) :=
  inferInstanceAs (Decidable (_ ∧ _))

instance (e : LockEntry) (d : IdText) (token : Tid) : Decidable (e.frees d token) :=
  inferInstanceAs (Decidable (_ ∧ _))

/-- When the token was last set or extended, if it was not released since. -/
def granted (d : IdText) (token : Tid) : List LockEntry → Option Time
  | [] => none
  | e :: log =>
    if e.grants d token then some e.time else if e.frees d token then none else granted d token log

section Invariant

variable {env : Env} {s s' : LockState} {d : IdText} {token : Tid} {τ : Time} {log : List LockEntry}

theorem granted_cons_other {e : LockEntry} (hg : ¬ e.grants d token) (hf : ¬ e.frees d token) :
    granted d token (e :: log) = granted d token log := by
  rw [granted, if_neg hg, if_neg hf]

theorem granted_cons_refused {e : LockEntry} (h : e.answer = false) :
    granted d token (e :: log) = granted d token log := by
  refine granted_cons_other ?_ ?_ <;> rintro ⟨h', -⟩ <;> exact Bool.false_ne_true (h.symm.trans h')

/-- **What is invariant**: the stored entry is what the last grant left, and a grant is stored until
its time to live has passed. -/
structure Granted (env : Env) (s : LockState) : Prop where
  stored : ∀ d token exp, s.redis.lock d = some (token, exp) →
    ∃ τ, granted d token s.log = some τ ∧ exp = τ + env.lockTtlMs
  held : ∀ d token τ, granted d token s.log = some τ → s.now < τ + env.lockTtlMs →
    s.redis.lockAt s.now d = some token

theorem Granted.unique (hI : Granted env s) {other : Tid}
    (h : s.redis.lockAt s.now d = some other ∨ s.redis.lockAt s.now d = none)
    (hne : token ≠ other) (hg : granted d token s.log = some τ) :
    τ + env.lockTtlMs ≤ s.now := by
  by_contra hlt
  have hheld := hI.held d token τ hg (Nat.lt_of_not_le hlt)
  rcases h with h | h
  · exact hne (Option.some.inj (hheld.symm.trans h))
  · cases hheld.symm.trans h

theorem Granted.wait (hI : Granted env s) {now : Time} (hnow : s.now ≤ now)
    (hsame : ∀ d token, granted d token log = granted d token s.log) :
    Granted env { now := now, redis := s.redis, log := log } where
  stored d token exp hl := by
    rw [hsame]
    exact hI.stored d token exp hl
  held d token τ hg hlt := by
    rw [hsame] at hg
    obtain ⟨exp, hl, -⟩ :=
      Redis.lockAt_eq_some.mp (hI.held d token τ hg (Nat.lt_of_le_of_lt hnow hlt))
    obtain ⟨τ', hg', hexp⟩ := hI.stored d token exp hl
    obtain rfl : τ' = τ := Option.some.inj (hg'.symm.trans hg)
    exact Redis.lockAt_eq_some.mpr ⟨exp, hl, hexp ▸ hlt⟩

/-- The lock is set or extended: every other grant has run out. -/
theorem Granted.grant (hI : Granted env s) {c : LockCall} (h : c.Grants s.now s.redis d token) :
    Granted env
      { now := s.now
        redis := s.redis.putLock d (some (token, s.now + env.lockTtlMs))
        log := ⟨s.now, c, true⟩ :: s.log } := by
  have hlast : granted d token (⟨s.now, c, true⟩ :: s.log) = some s.now := by
    rw [granted, if_pos]
    cases h with
    | acquire h => exact ⟨rfl, Or.inl rfl⟩
    | extend h => exact ⟨rfl, Or.inr rfl⟩
  have hother : ∀ x tok, ¬ (x = d ∧ tok = token) →
      granted x tok (⟨s.now, c, true⟩ :: s.log) = granted x tok s.log := by
    intro x tok hne
    refine granted_cons_other ?_ ?_
    · rintro ⟨-, hc⟩
      cases h <;> rcases hc with hc | hc <;> cases hc <;> exact hne ⟨rfl, rfl⟩
    · rintro ⟨-, hc⟩
      cases h <;> cases hc
  have hfree : s.redis.lockAt s.now d = some token ∨ s.redis.lockAt s.now d = none := by
    cases h with
    | acquire h => exact Or.inr h
    | extend h => exact Or.inl h
  refine ⟨fun x tok exp hl => ?_, fun x tok τ hg hlt => ?_⟩
  · by_cases hx : x = d
    · subst hx
      have hl : Function.update s.redis.lock x _ x = _ := hl
      rw [Function.update_self] at hl
      cases hl
      exact ⟨s.now, hlast, rfl⟩
    · rw [hother x tok fun h => hx h.1]
      have hl : Function.update s.redis.lock d _ x = _ := hl
      rw [Function.update_of_ne hx] at hl
      exact hI.stored x tok exp hl
  · by_cases hx : x = d
    · subst hx
      by_cases htok : tok = token
      · subst htok
        rw [hlast] at hg
        cases hg
        exact Redis.lockAt_putLock_self hlt
      · rw [hother x tok fun h => htok h.2] at hg
        exact absurd (hI.unique hfree htok hg) (Nat.not_le_of_lt hlt)
    · rw [hother x tok fun h => hx h.1] at hg
      exact (Redis.lockAt_putLock_other hx).trans (hI.held x tok τ hg hlt)

/-- The holder releases the lock: every other grant has run out. -/
theorem Granted.free (hI : Granted env s) (h : s.redis.lockAt s.now d = some token) :
    Granted env
      { now := s.now
        redis := s.redis.putLock d none
        log := ⟨s.now, .release d token, true⟩ :: s.log } := by
  have hself : granted d token (⟨s.now, .release d token, true⟩ :: s.log) = none := by
    rw [granted, if_neg, if_pos ⟨rfl, rfl⟩]
    rintro ⟨-, hc | hc⟩ <;> cases hc
  have hother : ∀ x tok, ¬ (x = d ∧ tok = token) →
      granted x tok (⟨s.now, .release d token, true⟩ :: s.log) = granted x tok s.log := by
    intro x tok hne
    refine granted_cons_other ?_ ?_
    · rintro ⟨-, hc | hc⟩ <;> cases hc
    · rintro ⟨-, hc⟩
      cases hc
      exact hne ⟨rfl, rfl⟩
  refine ⟨fun x tok exp hl => ?_, fun x tok τ hg hlt => ?_⟩
  · have hl : Function.update s.redis.lock d none x = _ := hl
    by_cases hx : x = d
    · subst hx
      rw [Function.update_self] at hl
      cases hl
    · rw [hother x tok fun h => hx h.1]
      rw [Function.update_of_ne hx] at hl
      exact hI.stored x tok exp hl
  · by_cases hx : x = d
    · subst hx
      by_cases htok : tok = token
      · subst htok
        rw [hself] at hg
        cases hg
      · rw [hother x tok fun h => htok h.2] at hg
        exact absurd (hI.unique (Or.inl h) htok hg) (Nat.not_le_of_lt hlt)
    · rw [hother x tok fun h => hx h.1] at hg
      exact (Redis.lockAt_putLock_other hx).trans (hI.held x tok τ hg hlt)

theorem Granted.step {c : LockCall} (hI : Granted env s) (h : s.step env c = some s') :
    Granted env s' := by
  cases h
  have hdoes := c.does env s.now s.redis
  generalize c.exec env s.now s.redis = o at hdoes
  cases hdoes with
  | tick ms =>
    exact hI.wait (Nat.le_add_right _ _) fun d token =>
      granted_cons_other (by rintro ⟨-, h | h⟩ <;> cases h) (by rintro ⟨-, h⟩; cases h)
  | refused c => exact hI.wait (Nat.le_add_right _ _) fun d token => granted_cons_refused rfl
  | granted h =>
    have hgrant := hI.grant h
    cases h <;> exact hgrant
  | freed h => exact hI.free h

/-! ## The log -/

/-- The log is in the order of time. -/
structure Dated (s : LockState) : Prop where
  sorted : s.log.Pairwise fun a b => b.time ≤ a.time
  past : ∀ e ∈ s.log, e.time ≤ s.now

theorem Dated.step {c : LockCall} (hI : Dated s) (h : s.step env c = some s') : Dated s' := by
  cases h
  refine ⟨List.pairwise_cons.mpr ⟨fun e he => hI.past e he, hI.sorted⟩, fun e he => ?_⟩
  rcases List.mem_cons.mp he with rfl | he
  · exact Nat.le_add_right _ _
  · exact Nat.le_trans (hI.past e he) (Nat.le_add_right _ _)

/-- A state of the protocol that any number of workers can reach. -/
abbrev LockReachable (env : Env) (s : LockState) : Prop :=
  Reach (LockState.step env) LockFresh {} s

theorem lockReachable_granted (h : LockReachable env s) : Granted env s :=
  h.invariant (I := Granted env) ⟨nofun, nofun⟩ fun _ _ _ hI _ hstep => hI.step hstep

theorem lockReachable_dated (h : LockReachable env s) : Dated s :=
  h.invariant (I := Dated) ⟨.nil, nofun⟩ fun _ _ _ hI _ hstep => hI.step hstep

theorem LockReachable.made (h : LockReachable env s) {later rest : List LockEntry} {e : LockEntry}
    (hlog : s.log = later ++ e :: rest) : ∃ s₁, LockReachable env s₁ ∧ s₁.log = rest ∧
      LockFresh s₁ e.call ∧ e = ⟨s₁.now, e.call, (e.call.exec env s₁.now s₁.redis).2⟩ := by
  have hinv : LockReachable env s ∧ ∀ later rest e, s.log = later ++ e :: rest →
      ∃ s₁, LockReachable env s₁ ∧ s₁.log = rest ∧ LockFresh s₁ e.call ∧
        e = ⟨s₁.now, e.call, (e.call.exec env s₁.now s₁.redis).2⟩ := by
    refine h.invariant (I := fun s => LockReachable env s ∧ ∀ later rest e,
      s.log = later ++ e :: rest → ∃ s₁, LockReachable env s₁ ∧ s₁.log = rest ∧
        LockFresh s₁ e.call ∧ e = ⟨s₁.now, e.call, (e.call.exec env s₁.now s₁.redis).2⟩)
      ⟨.refl _, fun later rest e hlog => ?_⟩ ?_
    · simp at hlog
    · rintro s c s' ⟨hr, hI⟩ hc hstep
      refine ⟨hr.snoc hc hstep, fun later rest e hlog => ?_⟩
      cases hstep
      cases later with
      | nil =>
        obtain ⟨rfl, rfl⟩ := List.cons.inj hlog
        exact ⟨s, hr, rfl, hc, rfl⟩
      | cons e' later => exact hI later rest e (List.cons.inj hlog).2
  exact hinv.2 later rest e hlog

/-- Since its `acquire` the token was last granted at `τ`, and at no later time. -/
theorem granted_since {between earlier : List LockEntry} {t₀ : Time}
    (hsorted : (between ++ ⟨t₀, .acquire d token, true⟩ :: earlier).Pairwise
      fun a b => b.time ≤ a.time)
    (hrel : ∀ e ∈ between, ¬ e.frees d token) :
    ∃ τ, granted d token (between ++ ⟨t₀, .acquire d token, true⟩ :: earlier) = some τ ∧
      t₀ ≤ τ ∧ ∀ e ∈ between, e.grants d token → e.time ≤ τ := by
  induction between with
  | nil => exact ⟨t₀, if_pos ⟨rfl, Or.inl rfl⟩, Nat.le_refl _, nofun⟩
  | cons e between ih =>
    obtain ⟨hhead, htail⟩ := List.pairwise_cons.mp hsorted
    by_cases hg : e.grants d token
    · have hacq := hhead ⟨t₀, .acquire d token, true⟩ (List.mem_append_right _ List.mem_cons_self)
      refine ⟨e.time, if_pos hg, hacq, fun e' he' _ => ?_⟩
      rcases List.mem_cons.mp he' with rfl | he'
      · exact Nat.le_refl _
      · exact hhead e' (List.mem_append_left _ he')
    · obtain ⟨τ, hτ, h₀, hall⟩ := ih htail fun e he => hrel e (List.mem_cons_of_mem _ he)
      refine ⟨τ, ?_, h₀, fun e' he' hg' => ?_⟩
      · exact (granted_cons_other hg (hrel e List.mem_cons_self)).trans hτ
      · rcases List.mem_cons.mp he' with rfl | he'
        · exact absurd hg' hg
        · exact hall e' he' hg'

end Invariant

/-- **The lock is exclusive.** Between an `acquire` of one worker and a later one of another that
succeeds, the first worker released the lock or has not acquired or extended it for the time to live;
and whoever extends or releases with a token that is not stored gets false and changes nothing. -/
theorem lock_exclusive {env : Env} {s : LockState} (h : LockReachable env s) :
    (∀ d v w τ t₀ later between earlier,
      s.log = later ++ ⟨τ, .acquire d v, true⟩ :: between ++ ⟨t₀, .acquire d w, true⟩ :: earlier →
      (∀ e ∈ between, ¬ e.frees d w) →
        v ≠ w ∧ t₀ + env.lockTtlMs ≤ τ ∧
          ∀ e ∈ between, e.grants d w → e.time + env.lockTtlMs ≤ τ) ∧
      ∀ d w, s.redis.lockAt s.now d ≠ some w →
        LockCall.exec env s.now s.redis (.extend d w) = (s.redis, false) ∧
          LockCall.exec env s.now s.redis (.release d w) = (s.redis, false) := by
  refine ⟨fun d v w τ t₀ later between earlier hlog hrel => ?_, fun d w hne => ⟨if_neg hne, if_neg hne⟩⟩
  rw [List.append_assoc, List.cons_append] at hlog
  obtain ⟨s₁, hs₁, hrest, hfresh, he⟩ := h.made hlog
  have hv : v ≠ w := by
    rintro rfl
    refine hfresh ⟨⟨t₀, .acquire d v, true⟩, ?_, d, rfl⟩
    rw [hrest]
    exact List.mem_append_right _ List.mem_cons_self
  have hnow : τ = s₁.now := congrArg LockEntry.time he
  -- the later acquire succeeded, so nothing was stored then
  have hfree : s₁.redis.lockAt s₁.now d = none := by
    by_contra hheld
    have hans : true = false := (congrArg LockEntry.answer he).trans (congrArg Prod.snd (if_neg hheld))
    cases hans
  obtain ⟨τ', hτ', h₀, hall⟩ := granted_since (hrest ▸ (lockReachable_dated hs₁).sorted) hrel
  have hlapsed : τ' + env.lockTtlMs ≤ s₁.now :=
    (lockReachable_granted hs₁).unique (Or.inr hfree) hv.symm (by rw [hrest]; exact hτ')
  refine ⟨hv, ?_, fun e he hg => ?_⟩
  · rw [hnow]
    exact Nat.le_trans (Nat.add_le_add_right h₀ _) hlapsed
  · rw [hnow]
    exact Nat.le_trans (Nat.add_le_add_right (hall e he hg) _) hlapsed

/-- A worker acquires the lock and extends it once; another one acquires it a minute later. -/
def sampleLockCalls : List LockCall :=
  [.acquire 0 0, .tick 20000, .extend 0 0, .acquire 0 1, .tick 60000, .extend 0 0, .acquire 0 2]

instance (s : LockState) (token : Tid) : Decidable (s.drawn token) :=
  decidable_of_iff (∃ e ∈ s.log, (match e.call with
    | .acquire _ tok => decide (tok = token)
    | _ => false) = true) <| by
    refine exists_congr fun e => and_congr Iff.rfl ?_
    cases e.call <;> simp

instance (s : LockState) : (c : LockCall) → Decidable (LockFresh s c)
  | .acquire _ token => inferInstanceAs (Decidable (¬ s.drawn token))
  | .tick _ => inferInstanceAs (Decidable True)
  | .extend _ _ => inferInstanceAs (Decidable True)
  | .release _ _ => inferInstanceAs (Decidable True)

/-- What `sampleLockCalls` leave in the log. -/
def sampleLockLog : List LockEntry :=
  [⟨80000, .acquire 0 2, true⟩, ⟨80000, .extend 0 0, false⟩, ⟨20000, .tick 60000, true⟩,
    ⟨20000, .acquire 0 1, false⟩, ⟨20000, .extend 0 0, true⟩, ⟨0, .tick 20000, true⟩,
    ⟨0, .acquire 0 0, true⟩]

theorem lock_exclusive_expired : ∃ s, LockReachable sampleEnv s ∧ s.log = sampleLockLog ∧
    20000 + sampleEnv.lockTtlMs ≤ 80000 := by
  have hcomputed : (runOf (LockState.step sampleEnv) LockFresh {} sampleLockCalls).any
      (fun s => decide (s.log = sampleLockLog)) = true := by decide +kernel
  obtain ⟨s, hrun, hs⟩ := exists_run hcomputed
  have hlog : s.log = sampleLockLog := of_decide_eq_true hs
  have hreach : LockReachable sampleEnv s := ⟨_, hrun⟩
  refine ⟨s, hreach, hlog, ?_⟩
  exact ((lock_exclusive hreach).1 0 2 0 80000 0 [] [⟨80000, .extend 0 0, false⟩,
    ⟨20000, .tick 60000, true⟩, ⟨20000, .acquire 0 1, false⟩, ⟨20000, .extend 0 0, true⟩,
    ⟨0, .tick 20000, true⟩] [] hlog (by decide)).2.2 ⟨20000, .extend 0 0, true⟩ (by decide) (by decide)

end WebhookEngine
