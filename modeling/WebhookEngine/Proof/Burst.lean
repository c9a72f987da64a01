import WebhookEngine.Proof.Breaker

set_option autoImplicit false

/-!
# Failures counted over a window

`recordFailure` counts by INCR and sets the expiry time of the counter anew each time, so that a counter
lives for as long as no gap between two failures is longer than `CB_WINDOW_SECONDS`.

* `BreakerLog`: the calls with the times of the failures, and for each call the failures its INCR
  counted.
* `KeepsWindow`: no counter, and no call on its way to `:open`, outlives the window of the first failure
  it counts.
* `Counts`: the counter counts the latest failures.
* **`opened_on_burst`**: under `KeepsWindow` the breaker opens only on as many failures within the window
  as the threshold says; a slow drip opens it too otherwise.
-/

namespace WebhookEngine

open EffectProg TransitionSystem

variable {env : Env} {ep : EndpointId}

/-! ## The failures of a run -/

/-- The system with the times of its failures, latest first: a failure is made when its INCR is
executed. -/
structure BreakerLog extends BreakerWorld where
  failures : List Time := []
  counted : ℕ → List Time := fun _ => []

/-- The next command of call `i` is the INCR of `:fails`. -/
def BreakerWorld.counting (s : BreakerWorld) (i : ℕ) : Bool :=
  s.calls[i]?.any fun th =>
    match th.prog with
    | .op (.redis (.incrFails _)) _ => true
    | _ => false

/-- The count at a time; an absent counter counts nothing. -/
def Redis.count (r : Redis) (now : Time) (ep : EndpointId) : ℕ :=
  ((r.failsEntry now ep).map (·.1)).getD 0

def BreakerLog.step (env : Env) (ep : EndpointId) (s : BreakerLog) (l : BreakerLabel) :
    Option BreakerLog :=
  (s.toBreakerWorld.step env ep l).map fun w =>
    match l with
    | .cmd i =>
      if s.counting i then
        { toBreakerWorld := w
          failures := s.now :: s.failures
          counted := Function.update s.counted i
            ((s.now :: s.failures).take (w.redis.count w.now ep)) }
      else { toBreakerWorld := w, failures := s.failures, counted := s.counted }
    | _ => { toBreakerWorld := w, failures := s.failures, counted := s.counted }

/-- The times are at most `CB_WINDOW_SECONDS` ago. -/
def Recent (env : Env) (now : Time) (times : List Time) : Prop :=
  ∀ τ ∈ times, now ≤ τ + env.cbWindowSeconds * 1000

instance (now : Time) (times : List Time) : Decidable (Recent env now times) :=
  inferInstanceAs (Decidable (∀ τ ∈ times, _))

/-- Call `i` is a `recordFailure` between its INCR and its end. -/
def BreakerWorld.deciding (s : BreakerWorld) (i : ℕ) : Bool :=
  s.calls[i]?.any fun th =>
    match th.call, th.prog with
    | .recordFailure, .op (.redis (.expireFails _ _)) _ => true
    | .recordFailure, .op (.redis (.setOpen _ _)) _ => true
    | _, _ => false

/-- When the first failure of a counter is more than `CB_WINDOW_SECONDS` ago, the counter is not there
any more, and no call that counted it up to the threshold is still under way. -/
def KeepsWindow (env : Env) (ep : EndpointId) (s : BreakerLog) : BreakerLabel → Prop
  | .tick ms =>
    Recent env (s.now + ms) (s.failures.take (s.redis.count (s.now + ms) ep)) ∧
      ∀ i < s.calls.length, s.deciding i = true → env.cbFailThreshold ≤ (s.counted i).length →
        Recent env (s.now + ms) (s.counted i)
  | _ => True

instance (s : BreakerLog) : (l : BreakerLabel) → Decidable (KeepsWindow env ep s l)
  | .tick _ => inferInstanceAs (Decidable (_ ∧ _))
  | .start _ => inferInstanceAs (Decidable True)
  | .cmd _ => inferInstanceAs (Decidable True)

/-! ## What the counter counts -/

variable {s s' : BreakerLog} {l : BreakerLabel} {i : ℕ}

/-- What call `i` has counted, by its stage. -/
def Tallied (env : Env) (s : BreakerLog) (i : ℕ) : Stage → Prop
  | .expireFails n => (s.counted i).length = n ∧ (s.counted i).Sublist s.failures ∧
      (env.cbFailThreshold ≤ n → Recent env s.now (s.counted i))
  | .setOpen => env.cbFailThreshold ≤ (s.counted i).length ∧ (s.counted i).Sublist s.failures ∧
      Recent env s.now (s.counted i)
  | _ => True

/-- **What is invariant**: the counter counts the latest failures, all of them within the window. -/
structure Counts (env : Env) (ep : EndpointId) (s : BreakerLog) : Prop where
  past : ∀ τ ∈ s.failures, τ ≤ s.now
  counter : s.redis.count s.now ep ≤ s.failures.length ∧
    Recent env s.now (s.failures.take (s.redis.count s.now ep))
  calls : ∀ (i : ℕ) (th : BreakerThread), s.calls[i]? = some th →
    ∃ st : Stage, th.prog = st.prog env ep ∧ st.of th.call ∧ Tallied env s i st

theorem Counts.init : Counts env ep {} := ⟨nofun, ⟨Nat.le_refl _, nofun⟩, nofun⟩

theorem count_incr {now : Time} {r : Redis} :
    (RedisCmd.exec now r (.incrFails ep)).1.count now ep = r.count now ep + 1 ∧
      (RedisCmd.exec now r (.incrFails ep)).2 = r.count now ep + 1 := by
  let e : ℕ × Option Time := (r.failsEntry now ep).getD (0, none)
  have hcount : e.1 = r.count now ep ∧ (e.2.all fun exp => now < exp) = true := by
    cases he : r.failsEntry now ep with
    | none => simp [e, Redis.count, he]
    | some e₀ =>
      have hvalid := (Option.filter_eq_some_iff.mp he).2
      simpa [e, Redis.count, he] using hvalid
  have hentry : (RedisCmd.exec now r (.incrFails ep)).1.failsEntry now ep = some (e.1 + 1, e.2) :=
    @failsEntry_update ep r now (e.1 + 1, e.2) hcount.2
  refine ⟨?_, congrArg (· + 1) hcount.1⟩
  rw [Redis.count, hentry]
  exact congrArg (· + 1) hcount.1

theorem count_other {st st' : Stage} {now : Time} {r r' : Redis}
    (h : st.run env ep now r = some (r', st')) (hst : st ≠ .incrFails) :
    r'.count now ep = r.count now ep ∨ r'.count now ep = 0 := by
  cases st with
  | incrFails => exact absurd rfl hst
  | expireFails n =>
    cases h
    have hentry : (RedisCmd.exec now r (.expireFails ep env.cbWindowSeconds)).1.failsEntry now ep =
        ((r.failsEntry now ep).map fun e => (e.1, some (now + env.cbWindowSeconds * 1000))).filter
          fun e => e.2.all fun exp => now < exp := by
      simp [RedisCmd.exec, Redis.failsEntry]
    rw [Redis.count, hentry, Redis.count]
    cases r.failsEntry now ep with
    | none => exact Or.inl rfl
    | some e =>
      rw [Option.map_some, Option.filter_some]
      split
      · exact Or.inl rfl
      · exact Or.inr rfl
  | delFailsProbe =>
    cases h
    exact Or.inr (by simp [RedisCmd.exec, Redis.count, Redis.failsEntry])
  | setProbe =>
    cases h
    simp only [RedisCmd.exec]
    split <;> exact Or.inl rfl
  | done a => cases h
  | _ =>
    cases h
    exact Or.inl rfl

theorem count_later (r : Redis) (now ms : ℕ) :
    r.count (now + ms) ep = r.count now ep ∨ r.count (now + ms) ep = 0 := by
  cases he : r.failsEntry (now + ms) ep with
  | none => exact Or.inr (by rw [Redis.count, he]; rfl)
  | some e =>
    obtain ⟨hget, hlater⟩ := Option.filter_eq_some_iff.mp he
    refine Or.inl ?_
    have hnow : r.failsEntry now ep = some e := by
      refine Option.filter_eq_some_iff.mpr ⟨hget, ?_⟩
      cases hexp : e.2 with
      | none => rfl
      | some exp =>
        rw [hexp, Option.all_some, decide_eq_true_eq] at hlater
        rw [Option.all_some, decide_eq_true_eq]
        exact Nat.lt_of_le_of_lt (Nat.le_add_right now ms) hlater
    rw [Redis.count, Redis.count, he, hnow]

theorem deciding_of {c : BreakerCall} {st : Stage} {w : BreakerWorld}
    (hcall : w.calls[i]? = some ⟨c, st.prog env ep⟩) (hof : st.of c)
    (hst : (∃ n, st = .expireFails n) ∨ st = .setOpen) : w.deciding i = true := by
  rw [BreakerWorld.deciding, hcall]
  rcases hst with ⟨n, rfl⟩ | rfl
  · cases c with
    | recordFailure => rfl
    | checkState => exact hof.elim
    | onProbeResult w ok => cases ok <;> exact hof.elim
  · cases c with
    | recordFailure => rfl
    | checkState => exact hof.elim
    | onProbeResult w ok => cases ok <;> exact hof.elim

theorem Counts.tick (hI : Counts env ep s) {ms : ℕ} (hl : KeepsWindow env ep s (.tick ms)) :
    Counts env ep { s with now := s.now + ms } where
  past τ hτ := Nat.le_trans (hI.past τ hτ) (Nat.le_add_right _ _)
  counter := by
    refine ⟨?_, hl.1⟩
    change s.redis.count (s.now + ms) ep ≤ s.failures.length
    rcases @count_later ep s.redis s.now ms with h | h
    · rw [h]
      exact hI.counter.1
    · rw [h]
      exact Nat.zero_le _
  calls i th hth := by
    obtain ⟨st, hprog, hof, htally⟩ := hI.calls i th hth
    have hcall : s.calls[i]? = some ⟨th.call, st.prog env ep⟩ := by
      rw [← hprog]
      exact hth
    have hkept := fun hst => hl.2 i (List.getElem?_eq_some_iff.mp hth).1 (deciding_of hcall hof hst)
    refine ⟨st, hprog, hof, ?_⟩
    cases st with
    | expireFails n =>
      obtain ⟨hlen, hsub, -⟩ := htally
      exact ⟨hlen, hsub, fun hle => hkept (Or.inl ⟨n, rfl⟩) (hlen ▸ hle)⟩
    | setOpen =>
      obtain ⟨hlen, hsub, -⟩ := htally
      exact ⟨hlen, hsub, hkept (Or.inr rfl) hlen⟩
    | _ => trivial

theorem Tallied.mono {st : Stage} (h : Tallied env s i st) (hnow : s'.now = s.now)
    (hcounted : s'.counted i = s.counted i) (hf : s.failures.Sublist s'.failures) :
    Tallied env s' i st := by
  cases st with
  | expireFails n =>
    obtain ⟨hlen, hsub, hrecent⟩ := h
    refine ⟨hcounted ▸ hlen, hcounted ▸ hsub.trans hf, fun hle => ?_⟩
    rw [hcounted, hnow]
    exact hrecent hle
  | setOpen =>
    obtain ⟨hlen, hsub, hrecent⟩ := h
    refine ⟨hcounted ▸ hlen, hcounted ▸ hsub.trans hf, ?_⟩
    rw [hcounted, hnow]
    exact hrecent
  | _ => trivial

theorem Tallied.run {st st' : Stage} {now : Time} {r r' : Redis} (h : Tallied env s i st)
    (hrun : st.run env ep now r = some (r', st')) (hst : st ≠ .incrFails) : Tallied env s i st' := by
  cases st with
  | incrFails => exact absurd rfl hst
  | expireFails n =>
    obtain ⟨hlen, hsub, hrecent⟩ := h
    cases hrun
    split
    · rename_i hle
      exact ⟨hlen ▸ hle, hsub, hrecent hle⟩
    · trivial
  | existsOpen =>
    cases hrun
    split <;> trivial
  | getFails =>
    cases hrun
    split <;> trivial
  | done a => cases hrun
  | _ =>
    cases hrun
    trivial

theorem counting_iff {c : BreakerCall} {st : Stage} {w : BreakerWorld}
    (hcall : w.calls[i]? = some ⟨c, st.prog env ep⟩) : w.counting i = true ↔ st = .incrFails := by
  rw [BreakerWorld.counting, hcall]
  cases st with
  | incrFails => exact ⟨fun _ => rfl, fun _ => rfl⟩
  | _ => exact ⟨nofun, nofun⟩

theorem Counts.others (hI : Counts env ep s) (s₁ : BreakerLog) {c : BreakerCall} {st st' : Stage}
    (hsend : Sends env ep s.toBreakerWorld i c st st' s₁.toBreakerWorld)
    (hcounted : ∀ j, j ≠ i → s₁.counted j = s.counted j) (hf : s.failures.Sublist s₁.failures)
    (hself : Tallied env s₁ i st') (j : ℕ) (th : BreakerThread) (hj : s₁.calls[j]? = some th) :
    ∃ st : Stage, th.prog = st.prog env ep ∧ st.of th.call ∧ Tallied env s₁ j st := by
  by_cases hji : j = i
  · subst hji
    rw [hsend.call_self] at hj
    cases hj
    exact ⟨st', rfl, Stage.of_run hsend.stage hsend.run, hself⟩
  · rw [hsend.call_other hji] at hj
    obtain ⟨st₁, hprog, hof, htally⟩ := hI.calls j th hj
    exact ⟨st₁, hprog, hof, htally.mono hsend.now (hcounted j hji) hf⟩

/-- **A failure is counted.** -/
theorem Counts.incr (hI : Counts env ep s) {c : BreakerCall} {st' : Stage} {w : BreakerWorld}
    (hsend : Sends env ep s.toBreakerWorld i c .incrFails st' w) :
    Counts env ep
      { toBreakerWorld := w
        failures := s.now :: s.failures
        counted := Function.update s.counted i
          ((s.now :: s.failures).take (w.redis.count w.now ep)) } := by
  have hrun := hsend.run
  have hredis : w.redis = (RedisCmd.exec s.now s.redis (.incrFails ep)).1 :=
    (congrArg Prod.fst (Option.some.inj hrun)).symm
  have hst : st' = .expireFails (RedisCmd.exec s.now s.redis (.incrFails ep)).2 :=
    (congrArg Prod.snd (Option.some.inj hrun)).symm
  have hcount : w.redis.count w.now ep = s.redis.count s.now ep + 1 := by
    rw [hsend.now, hredis]
    exact count_incr.1
  rw [count_incr.2] at hst
  obtain ⟨hle, hrecent⟩ := hI.counter
  -- the new failure and those the counter had counted
  have hall : Recent env s.now ((s.now :: s.failures).take (s.redis.count s.now ep + 1)) := by
    intro τ hτ
    rw [List.take_succ_cons] at hτ
    rcases List.mem_cons.mp hτ with rfl | hτ
    · exact Nat.le_add_right _ _
    · exact hrecent τ hτ
  refine ⟨fun τ hτ => ?_, ⟨?_, ?_⟩, hI.others ⟨w, _, _⟩ hsend
    (fun j hj => Function.update_of_ne hj ..) (List.sublist_cons_self _ _) ?_⟩
  · change τ ≤ w.now
    rw [hsend.now]
    rcases List.mem_cons.mp hτ with rfl | hτ
    · exact Nat.le_refl _
    · exact hI.past τ hτ
  · change w.redis.count w.now ep ≤ (s.now :: s.failures).length
    rw [hcount]
    exact Nat.succ_le_succ hle
  · change Recent env w.now ((s.now :: s.failures).take (w.redis.count w.now ep))
    rw [hcount, hsend.now]
    exact hall
  · rw [hst, hcount]
    have hself : Function.update s.counted i
        ((s.now :: s.failures).take (s.redis.count s.now ep + 1)) i = _ := Function.update_self ..
    refine ⟨?_, ?_, fun _ => ?_⟩
    · change (Function.update s.counted i _ i).length = _
      rw [hself, List.length_take, List.length_cons]
      omega
    · change (Function.update s.counted i _ i).Sublist _
      rw [hself]
      exact List.take_sublist _ _
    · change Recent env w.now (Function.update s.counted i _ i)
      rw [hself, hsend.now]
      exact hall

theorem Counts.step (hI : Counts env ep s) (hl : KeepsWindow env ep s l)
    (h : BreakerLog.step env ep s l = some s') : Counts env ep s' := by
  obtain ⟨w, hw, rfl⟩ := Option.map_eq_some_iff.mp h
  cases l with
  | tick ms =>
    cases hw
    exact hI.tick hl
  | start c =>
    cases hw
    refine ⟨hI.past, hI.counter, fun j th hj => ?_⟩
    rcases start_calls hj with hj | ⟨-, rfl⟩
    · exact hI.calls j th hj
    · refine ⟨c.first, rfl, c.first_of, ?_⟩
      cases c with
      | onProbeResult w ok => cases ok <;> trivial
      | _ => trivial
  | cmd i =>
    obtain ⟨th, hth, -⟩ := Option.bind_eq_some_iff.mp hw
    obtain ⟨st, hprog, hof, htally⟩ := hI.calls i th hth
    have hcall : s.calls[i]? = some ⟨th.call, st.prog env ep⟩ := by
      rw [← hprog]
      exact hth
    obtain ⟨st', hsend⟩ := sends_of hcall hof hw
    dsimp only
    by_cases hst : st = .incrFails
    · subst hst
      rw [if_pos ((counting_iff hcall).mpr rfl)]
      exact hI.incr hsend
    · rw [if_neg fun hc => hst ((counting_iff hcall).mp hc)]
      refine ⟨fun τ hτ => ?_, ?_, hI.others ⟨w, _, _⟩ hsend (fun _ _ => rfl)
        (List.Sublist.refl _) ((htally.run hsend.run hst).mono hsend.now rfl (List.Sublist.refl _))⟩
      · change τ ≤ w.now
        rw [hsend.now]
        exact hI.past τ hτ
      · change w.redis.count w.now ep ≤ s.failures.length ∧
          Recent env w.now (s.failures.take (w.redis.count w.now ep))
        rw [hsend.now]
        rcases count_other hsend.run hst with h | h
        · rw [h]
          exact hI.counter
        · rw [h]
          exact ⟨Nat.zero_le _, nofun⟩

theorem reachable_counts (h : Reach (BreakerLog.step env ep) (KeepsWindow env ep) {} s) :
    Counts env ep s :=
  h.invariant (I := Counts env ep) .init fun _ _ _ hI hl hstep => hI.step hl hstep

/-- **The breaker opens only on a burst.** A `recordFailure` that is about to set `:open` finds as many
failures within the last `CB_WINDOW_SECONDS` as the threshold says. -/
theorem opened_on_burst (h : Reach (BreakerLog.step env ep) (KeepsWindow env ep) {} s)
    {th : BreakerThread} (hi : s.calls[i]? = some th) (hcall : th.call = .recordFailure)
    (hopen : s.opening i = true) :
    env.cbFailThreshold ≤ (s.failures.filter fun τ =>
      s.now ≤ τ + env.cbWindowSeconds * 1000 ∧ τ ≤ s.now).length := by
  have hI := reachable_counts h
  obtain ⟨st, hprog, hof, htally⟩ := hI.calls i th hi
  have hst : st = .setOpen := by
    rw [BreakerWorld.opening, hi, Option.any_some, hprog] at hopen
    rw [hcall] at hof
    cases st with
    | setOpen => rfl
    | reopen => exact hof.elim
    | _ => cases hopen
  subst hst
  obtain ⟨hlen, hsub, hrecent⟩ := htally
  calc env.cbFailThreshold ≤ (s.counted i).length := hlen
    _ = ((s.counted i).filter fun τ =>
        s.now ≤ τ + env.cbWindowSeconds * 1000 ∧ τ ≤ s.now).length := by
      rw [List.filter_eq_self.mpr fun τ hτ =>
        decide_eq_true ⟨hrecent τ hτ, hI.past τ (hsub.subset hτ)⟩]
    _ ≤ _ := (hsub.filter _).length_le

/-- `n` failures, `ms` apart, the last of which has only its last command left. -/
def sampleDrip (n ms : ℕ) : List BreakerLabel :=
  (List.range n).flatMap fun i => [.tick ms, .start .recordFailure, .cmd i, .cmd i]

/-- The last of 20 failures is about to set `:open`. -/
def BreakerLog.opens (s : BreakerLog) : Bool :=
  s.opening 19 && s.calls[19]?.any fun th => th.call = .recordFailure

theorem BreakerLog.opens_eq_true (h : s.opens = true) : s.opening 19 = true ∧
    ∃ th, s.calls[19]? = some th ∧ th.call = .recordFailure := by
  obtain ⟨hopen, hcall⟩ := Bool.and_eq_true_iff.mp h
  obtain ⟨th, hth, hcall⟩ := (Option.any_eq_true _ _).mp hcall
  exact ⟨hopen, th, hth, of_decide_eq_true hcall⟩

theorem opened_on_burst_twenty : ∃ s, Reach (BreakerLog.step sampleEnv 0) (KeepsWindow sampleEnv 0) {} s ∧
    s.opening 19 = true ∧
      20 ≤ (s.failures.filter fun τ => s.now ≤ τ + 300 * 1000 ∧ τ ≤ s.now).length := by
  have hcomputed : (runOf (BreakerLog.step sampleEnv 0) (KeepsWindow sampleEnv 0) {}
      (sampleDrip 20 1000)).any BreakerLog.opens = true := by decide +kernel
  obtain ⟨s, hrun, hs⟩ := exists_run hcomputed
  obtain ⟨hopen, th, hth, hcall⟩ := BreakerLog.opens_eq_true hs
  exact ⟨s, ⟨_, hrun⟩, hopen, opened_on_burst ⟨_, hrun⟩ hth hcall hopen⟩

/-- Twenty failures nearly five minutes apart from each other open the breaker. -/
theorem opened_on_drip : ¬ ∀ (s : BreakerLog) (i : ℕ) (th : BreakerThread),
    Reach (BreakerLog.step sampleEnv 0) (fun _ _ => True) {} s → s.calls[i]? = some th →
      th.call = .recordFailure → s.opening i = true →
        sampleEnv.cbFailThreshold ≤ (s.failures.filter fun τ =>
          s.now ≤ τ + sampleEnv.cbWindowSeconds * 1000 ∧ τ ≤ s.now).length := by
  intro h
  have hcomputed : (runOf (BreakerLog.step sampleEnv 0) (fun _ _ => True) {}
      (sampleDrip 20 299000)).any (fun s => s.opens && decide ((s.failures.filter fun τ =>
        s.now ≤ τ + 300 * 1000 ∧ τ ≤ s.now).length = 2)) = true := by decide +kernel
  obtain ⟨s, hrun, hs⟩ := exists_run hcomputed
  obtain ⟨hopens, htwo⟩ := Bool.and_eq_true_iff.mp hs
  obtain ⟨hopen, th, hth, hcall⟩ := BreakerLog.opens_eq_true hopens
  have hle : 20 ≤ (s.failures.filter fun τ => s.now ≤ τ + 300 * 1000 ∧ τ ≤ s.now).length :=
    h s 19 th ⟨_, hrun⟩ hth hcall hopen
  rw [of_decide_eq_true htwo] at hle
  exact absurd hle (by decide)

end WebhookEngine
