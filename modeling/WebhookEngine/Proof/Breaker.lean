import WebhookEngine.Proof.History

set_option autoImplicit false

/-!
# Concurrent use of the circuit breaker

Any number of calls of `recordFailure`, `checkState` and `onProbeResult` for one endpoint, interleaved
command by command, with time passing in between.

* `BreakerWorld.step`: the system; its calls are the programs of `redis/circuitBreaker.ts`.
* `Stage`: where a call stands. `Stage.run` is its next command as a function of the keys, and
  **`cmd_cases`** says that a call of the system is always at one of its stages.
-/

namespace WebhookEngine

open EffectProg TransitionSystem

variable (env : Env) (ep : EndpointId)

/-- A call of `redis/circuitBreaker.ts`. The caller of `onProbeResult` is named by the number of its
`checkState` call. -/
inductive BreakerCall where
  | recordFailure
  | checkState
  | onProbeResult (worker : ℕ) (ok : Bool)
  deriving DecidableEq

/-- The program of a call; `checkState` answers. -/
def BreakerCall.program : BreakerCall → Code (Option BreakerState)
  | .recordFailure => do WebhookEngine.recordFailure env ep; return none
  | .checkState => do return some (← WebhookEngine.checkState env ep)
  | .onProbeResult _ ok => do WebhookEngine.onProbeResult env ep ok; return none

structure BreakerThread where
  call : BreakerCall
  prog : Code (Option BreakerState)

/-- The answer of a `checkState` call that is over. -/
def BreakerThread.answer (th : BreakerThread) : Option BreakerState :=
  match th.prog with
  | .ret a => a
  | _ => none

/-- The keys and all calls so far, numbered by their position. -/
structure BreakerWorld where
  now : Time := 0
  redis : Redis := {}
  calls : List BreakerThread := []

inductive BreakerLabel where
  | tick (ms : ℕ)
  | start (c : BreakerCall)
  | cmd (i : ℕ)

/-- Time passes, a call starts, or the next command of a call is executed. -/
def BreakerWorld.step (s : BreakerWorld) : BreakerLabel → Option BreakerWorld
  | .tick ms => some { s with now := s.now + ms }
  | .start c => some { s with calls := s.calls ++ [⟨c, c.program env ep⟩] }
  | .cmd i => s.calls[i]?.bind fun th =>
    match th.prog with
    | .op (.redis c) k =>
      let (redis, r) := c.exec s.now s.redis
      some { s with redis := redis, calls := s.calls.set i { th with prog := k (.ok r) } }
    | _ => none

/-! ## Stages -/

/-- Where a call stands: the command it is about to send, or its answer. -/
inductive Stage where
  | incrFails
  | expireFails (fails : ℕ)
  | setOpen
  | existsOpen
  | getFails
  | setProbe
  | delFailsProbe
  | reopen
  | delProbe
  | done (answer : Option BreakerState)
  deriving DecidableEq

/-- The rest of the program. -/
def Stage.prog : Stage → Code (Option BreakerState)
  | .incrFails => do recordFailure env ep; return none
  | .expireFails fails => do
    Prog.bind (redis (.expireFails ep env.cbWindowSeconds)) fun _ =>
      if fails ≥ env.cbFailThreshold then do
        let _ ← redis (.setOpen ep env.cbOpenSeconds)
        return ()
      else return ()
    return none
  | .setOpen => do
    Prog.bind (redis (.setOpen ep env.cbOpenSeconds)) fun _ => pure ()
    return none
  | .existsOpen => do return some (← checkState env ep)
  | .getFails => do
    let answer ← Prog.bind (redis (.getFails ep)) fun fails : Option ℕ =>
      if fails.any (fun n => env.cbFailThreshold ≤ n) then do
        let wonProbe : Bool ← redis (.setProbe ep env.cbProbeSeconds)
        return if wonProbe then BreakerState.probe else .opened
      else return .closed
    return some answer
  | .setProbe => do
    let answer ← Prog.bind (redis (.setProbe ep env.cbProbeSeconds)) fun wonProbe : Bool =>
      pure (if wonProbe then BreakerState.probe else .opened)
    return some answer
  | .delFailsProbe => do onProbeResult env ep true; return none
  | .reopen => do onProbeResult env ep false; return none
  | .delProbe => do
    Prog.bind (redis (.delProbe ep)) fun _ => pure ()
    return none
  | .done answer => return answer

/-- The command of a stage and the stage after it. -/
def Stage.run (now : Time) (r : Redis) : Stage → Option (Redis × Stage)
  | .incrFails =>
    let x := RedisCmd.exec now r (.incrFails ep)
    some (x.1, .expireFails x.2)
  | .expireFails fails =>
    some ((RedisCmd.exec now r (.expireFails ep env.cbWindowSeconds)).1,
      if fails ≥ env.cbFailThreshold then .setOpen else .done none)
  | .setOpen => some ((RedisCmd.exec now r (.setOpen ep env.cbOpenSeconds)).1, .done none)
  | .existsOpen => some (r, if r.openAt now ep then .done (some .opened) else .getFails)
  | .getFails =>
    some (r, if ((r.failsEntry now ep).map (·.1)).any (fun n => env.cbFailThreshold ≤ n) then .setProbe
      else .done (some .closed))
  | .setProbe =>
    some ((RedisCmd.exec now r (.setProbe ep env.cbProbeSeconds)).1,
      .done (some (if r.probeAt now ep then .opened else .probe)))
  | .delFailsProbe => some ((RedisCmd.exec now r (.delFailsProbe ep)).1, .done none)
  | .reopen => some ((RedisCmd.exec now r (.setOpen ep env.cbOpenSeconds)).1, .delProbe)
  | .delProbe => some ((RedisCmd.exec now r (.delProbe ep)).1, .done none)
  | .done _ => none

/-- The stages of a call. -/
def Stage.of : BreakerCall → Stage → Prop
  | .recordFailure, .incrFails | .recordFailure, .expireFails _ | .recordFailure, .setOpen
  | .recordFailure, .done none => True
  | .checkState, .existsOpen | .checkState, .getFails | .checkState, .setProbe
  | .checkState, .done (some _) => True
  | .onProbeResult _ true, .delFailsProbe | .onProbeResult _ true, .done none => True
  | .onProbeResult _ false, .reopen | .onProbeResult _ false, .delProbe
  | .onProbeResult _ false, .done none => True
  | _, _ => False

/-- The first stage. -/
def BreakerCall.first : BreakerCall → Stage
  | .recordFailure => .incrFails
  | .checkState => .existsOpen
  | .onProbeResult _ true => .delFailsProbe
  | .onProbeResult _ false => .reopen

variable {env ep}

theorem BreakerCall.first_prog (c : BreakerCall) : c.program env ep = c.first.prog env ep := by
  cases c with
  | onProbeResult w ok => cases ok <;> rfl
  | _ => rfl

theorem BreakerCall.first_of (c : BreakerCall) : c.first.of c := by
  cases c with
  | onProbeResult w ok => cases ok <;> trivial
  | _ => trivial

theorem Stage.of_run {c : BreakerCall} {st st' : Stage} {now : Time} {r r' : Redis} (h : st.of c)
    (hrun : st.run env ep now r = some (r', st')) : st'.of c := by
  cases st <;> cases hrun <;> cases c <;> try exact h.elim
  all_goals try (split <;> trivial)
  all_goals try trivial
  all_goals rename_i ok; cases ok <;> trivial

theorem Stage.prog_run {st : Stage} {c : RedisCmd} {k : Except Err c.Ret → Code (Option BreakerState)}
    (now : Time) (r : Redis) (h : st.prog env ep = .op (.redis c) k) :
    ∃ st', st.run env ep now r = some ((c.exec now r).1, st') ∧
      k (.ok (c.exec now r).2) = st'.prog env ep := by
  cases st with
  | incrFails =>
    cases h
    exact ⟨_, rfl, rfl⟩
  | expireFails n =>
    cases h
    refine ⟨_, rfl, ?_⟩
    change Prog.bind (if n ≥ env.cbFailThreshold then _ else _) _ = _
    split <;> rfl
  | setOpen =>
    cases h
    exact ⟨_, rfl, rfl⟩
  | existsOpen =>
    cases h
    refine ⟨_, rfl, ?_⟩
    change Prog.bind (if r.openAt now ep = true then _ else _) _ = _
    split <;> rfl
  | getFails =>
    cases h
    refine ⟨_, rfl, ?_⟩
    change Prog.bind (if ((r.failsEntry now ep).map (·.1)).any _ = true then _ else _) _ = _
    split <;> rfl
  | setProbe =>
    cases h
    refine ⟨_, rfl, ?_⟩
    cases hp : r.probeAt now ep <;> simp [RedisCmd.exec, hp] <;> rfl
  | delFailsProbe =>
    cases h
    exact ⟨_, rfl, rfl⟩
  | reopen =>
    cases h
    exact ⟨_, rfl, rfl⟩
  | delProbe =>
    cases h
    exact ⟨_, rfl, rfl⟩
  | done answer => cases h

/-- How `checkState` comes to its answers. -/
inductive Stage.Answers (env : Env) (ep : EndpointId) (now : Time) (r : Redis) :
    Stage → Redis → BreakerState → Prop where
  | opened (h : r.openAt now ep = true) : Answers env ep now r .existsOpen r .opened
  | closed (h : ¬ ((r.failsEntry now ep).any fun e => env.cbFailThreshold ≤ e.1) = true) :
      Answers env ep now r .getFails r .closed
  | lost (h : r.probeAt now ep = true) : Answers env ep now r .setProbe r .opened
  | won (h : r.probeAt now ep = false) : Answers env ep now r .setProbe
      { r with probe := Function.update r.probe ep (some (now + env.cbProbeSeconds * 1000)) } .probe

theorem Stage.run_answer {st : Stage} {now : Time} {r r' : Redis} {a : BreakerState}
    (h : st.run env ep now r = some (r', .done (some a))) : Answers env ep now r st r' a := by
  cases st with
  | existsOpen =>
    simp only [Stage.run, Option.some.injEq, Prod.mk.injEq] at h
    obtain ⟨rfl, h⟩ := h
    split at h
    · rename_i ho
      cases h
      exact .opened ho
    · cases h
  | getFails =>
    simp only [Stage.run, Option.some.injEq, Prod.mk.injEq] at h
    obtain ⟨rfl, h⟩ := h
    split at h
    · cases h
    · rename_i hlow
      cases h
      refine .closed ?_
      rw [Option.any_map] at hlow
      exact hlow
  | setProbe =>
    simp only [Stage.run, RedisCmd.exec, Option.some.injEq, Prod.mk.injEq] at h
    cases hp : r.probeAt now ep with
    | true =>
      rw [hp] at h
      obtain ⟨rfl, h⟩ := h
      cases h
      exact .lost hp
    | false =>
      rw [hp] at h
      obtain ⟨rfl, h⟩ := h
      cases h
      exact .won hp
  | expireFails n =>
    simp only [Stage.run, Option.some.injEq, Prod.mk.injEq] at h
    have h := h.2
    split at h <;> cases h
  | done b => cases h
  | _ => cases congrArg (Option.map Prod.snd) h

/-! ## The calls of the system -/

variable {s s' : BreakerWorld} {l : BreakerLabel} {i : ℕ}

/-- Every call is at one of its stages. -/
def Staged (env : Env) (ep : EndpointId) (s : BreakerWorld) : Prop :=
  ∀ (i : ℕ) (th : BreakerThread), s.calls[i]? = some th →
    ∃ st : Stage, th.prog = st.prog env ep ∧ st.of th.call

/-- Call `i`, at the stage `st`, sends its command. -/
structure Sends (env : Env) (ep : EndpointId) (s : BreakerWorld) (i : ℕ) (c : BreakerCall)
    (st st' : Stage) (s' : BreakerWorld) : Prop where
  call : s.calls[i]? = some ⟨c, st.prog env ep⟩
  stage : st.of c
  run : st.run env ep s.now s.redis = some (s'.redis, st')
  now : s'.now = s.now
  calls : s'.calls = s.calls.set i ⟨c, st'.prog env ep⟩

theorem sends_of {c : BreakerCall} {st : Stage} (hcall : s.calls[i]? = some ⟨c, st.prog env ep⟩)
    (hof : st.of c) (h : s.step env ep (.cmd i) = some s') : ∃ st', Sends env ep s i c st st' s' := by
  obtain ⟨th, hth, h⟩ := Option.bind_eq_some_iff.mp h
  obtain rfl := Option.some.inj (hth.symm.trans hcall)
  split at h
  · rename_i cmd k hp
    cases h
    obtain ⟨st', hrun, hnext⟩ := Stage.prog_run s.now s.redis hp
    refine ⟨st', hcall, hof, hrun, rfl, ?_⟩
    change s.calls.set i ⟨c, k (.ok (cmd.exec s.now s.redis).2)⟩ = _
    rw [hnext]
  · cases h

/-- **The next command of a call.** -/
theorem cmd_cases (hI : Staged env ep s) (h : s.step env ep (.cmd i) = some s') :
    ∃ c st st', Sends env ep s i c st st' s' := by
  obtain ⟨th, hth, -⟩ := Option.bind_eq_some_iff.mp h
  obtain ⟨st, hprog, hof⟩ := hI i th hth
  obtain ⟨st', hsend⟩ := sends_of (hth.trans (by rw [← hprog])) hof h
  exact ⟨th.call, st, st', hsend⟩

theorem Sends.call_self {c : BreakerCall} {st st' : Stage} (h : Sends env ep s i c st st' s') :
    s'.calls[i]? = some ⟨c, st'.prog env ep⟩ := by
  rw [h.calls, List.getElem?_set_self (List.getElem?_eq_some_iff.mp h.call).1]

theorem Sends.call_other {c : BreakerCall} {st st' : Stage} (h : Sends env ep s i c st st' s') {j : ℕ}
    (hj : j ≠ i) : s'.calls[j]? = s.calls[j]? := by
  rw [h.calls, List.getElem?_set_ne (Ne.symm hj)]

theorem start_calls {c : BreakerCall} {j : ℕ} {th : BreakerThread}
    (h : (s.calls ++ [⟨c, c.program env ep⟩])[j]? = some th) :
    s.calls[j]? = some th ∨ j = s.calls.length ∧ th = ⟨c, c.first.prog env ep⟩ := by
  rw [List.getElem?_append] at h
  split at h
  · exact Or.inl h
  · rename_i hlt
    have hj : j - s.calls.length = 0 := by
      by_contra hne
      rw [List.getElem?_singleton, if_neg hne] at h
      cases h
    rw [hj] at h
    cases h
    refine Or.inr ⟨Nat.le_antisymm (Nat.le_of_sub_eq_zero hj) (Nat.le_of_not_lt hlt), ?_⟩
    rw [c.first_prog]

theorem Staged.step (hI : Staged env ep s) (h : s.step env ep l = some s') : Staged env ep s' := by
  intro j th hj
  cases l with
  | tick ms =>
    cases h
    exact hI j th hj
  | start c =>
    cases h
    rcases start_calls hj with hj | ⟨-, rfl⟩
    · exact hI j th hj
    · exact ⟨c.first, rfl, c.first_of⟩
  | cmd i =>
    obtain ⟨c, st, st', hsend⟩ := cmd_cases hI h
    by_cases hji : j = i
    · subst hji
      rw [hsend.call_self] at hj
      cases hj
      exact ⟨st', rfl, Stage.of_run hsend.stage hsend.run⟩
    · rw [hsend.call_other hji] at hj
      exact hI j th hj

theorem reachable_staged {C : BreakerWorld → BreakerLabel → Prop}
    (h : Reach (BreakerWorld.step env ep) C {} s) : Staged env ep s :=
  h.invariant (I := Staged env ep) nofun fun _ _ _ hI _ hstep => hI.step hstep

theorem BreakerThread.answer_eq_some {th : BreakerThread} {a : BreakerState} :
    th.answer = some a ↔ th.prog = .ret (some a) := by
  unfold answer
  split
  · rename_i b hp
    rw [hp]
    exact ⟨fun h => congrArg Prog.ret h, fun h => Prog.ret.inj h⟩
  · rename_i hp
    exact ⟨fun h => (nomatch h), fun h => absurd h (hp _)⟩

theorem Stage.eq_done {st : Stage} {a : Option BreakerState} (h : st.prog env ep = .ret a) :
    st = .done a := by
  cases st with
  | done a' =>
    cases h
    rfl
  | _ => cases h

/-! ## Once open -/

/-- The next command of call `i` sets `:open`. -/
def BreakerWorld.opening (s : BreakerWorld) (i : ℕ) : Bool :=
  s.calls[i]?.any fun th =>
    match th.prog with
    | .op (.redis (.setOpen _ _)) _ => true
    | _ => false

/-- Call `i` is an `onProbeResult` of a success, and is over. -/
def BreakerWorld.succeeded (s : BreakerWorld) (i : ℕ) : Prop :=
  ∃ w, s.calls[i]? = some ⟨.onProbeResult w true, .ret none⟩

/-- `:fails` is there and has reached the threshold. -/
def BreakerWorld.tripped (env : Env) (ep : EndpointId) (s : BreakerWorld) : Bool :=
  (s.redis.failsEntry s.now ep).any fun e => env.cbFailThreshold ≤ e.1

/-- A counter that has reached the threshold does not run out, and `:open` is only set while there
is one. -/
def KeepsCount (env : Env) (ep : EndpointId) (s : BreakerWorld) : BreakerLabel → Prop
  | .tick ms => s.tripped env ep = true →
      BreakerWorld.tripped env ep { s with now := s.now + ms } = true
  | .cmd i => s.opening i = true → s.tripped env ep = true
  | .start _ => True

instance (s : BreakerWorld) : (l : BreakerLabel) → Decidable (KeepsCount env ep s l)
  | .tick _ => inferInstanceAs (Decidable (_ → _))
  | .cmd _ => inferInstanceAs (Decidable (_ → _))
  | .start _ => inferInstanceAs (Decidable True)

theorem tripped_iff : s.tripped env ep = true ↔
    ∃ e, s.redis.failsEntry s.now ep = some e ∧ env.cbFailThreshold ≤ e.1 := by
  simp [BreakerWorld.tripped, Option.any_eq_true]

theorem failsEntry_update {r : Redis} {now : Time} {e : ℕ × Option Time}
    (h : (e.2.all fun exp => now < exp) = true) :
    ({ r with fails := Function.update r.fails ep (some e) } : Redis).failsEntry now ep = some e := by
  simp [Redis.failsEntry, h]

theorem Stage.run_fails (hw : 0 < env.cbWindowSeconds) {st st' : Stage} {now : Time} {r r' : Redis}
    (h : st.run env ep now r = some (r', st')) (hst : st ≠ .delFailsProbe) {e : ℕ × Option Time}
    (he : r.failsEntry now ep = some e) : ∃ e', r'.failsEntry now ep = some e' ∧ e.1 ≤ e'.1 := by
  cases st with
  | incrFails =>
    cases h
    refine ⟨(e.1 + 1, e.2), ?_, Nat.le_succ _⟩
    simp only [RedisCmd.exec, he, Option.getD_some]
    exact failsEntry_update (Option.filter_eq_some_iff.mp he).2
  | expireFails n =>
    cases h
    refine ⟨(e.1, some (now + env.cbWindowSeconds * 1000)), ?_, Nat.le_refl _⟩
    simp only [RedisCmd.exec, he, Option.map_some]
    have hlt : now < now + env.cbWindowSeconds * 1000 :=
      Nat.lt_add_of_pos_right (Nat.mul_pos hw (by decide))
    exact failsEntry_update (by simp [hlt])
  | setOpen => cases h; exact ⟨e, he, Nat.le_refl _⟩
  | existsOpen => cases h; exact ⟨e, he, Nat.le_refl _⟩
  | getFails => cases h; exact ⟨e, he, Nat.le_refl _⟩
  | setProbe =>
    cases h
    refine ⟨e, ?_, Nat.le_refl _⟩
    simp only [RedisCmd.exec]
    split <;> exact he
  | delFailsProbe => exact absurd rfl hst
  | reopen => cases h; exact ⟨e, he, Nat.le_refl _⟩
  | delProbe => cases h; exact ⟨e, he, Nat.le_refl _⟩
  | done a => cases h

/-- Only the report of a success deletes the counter, and is over then. -/
theorem Sends.success {c : BreakerCall} {st' : Stage}
    (h : Sends env ep s i c .delFailsProbe st' s') : s'.succeeded i ∧ ¬ s.succeeded i := by
  have hcall : ∃ w, c = .onProbeResult w true := by
    have hof := h.stage
    cases c with
    | onProbeResult w ok => cases ok with
      | true => exact ⟨w, rfl⟩
      | false => exact hof.elim
    | _ => exact hof.elim
  obtain ⟨w, rfl⟩ := hcall
  have hdone : st' = .done none := by
    have hrun := congrArg (Option.map Prod.snd) h.run
    exact (Option.some.inj hrun).symm
  subst hdone
  refine ⟨⟨w, h.call_self⟩, ?_⟩
  rintro ⟨w', hw'⟩
  cases h.call.symm.trans hw'

theorem tripped_step (hw : 0 < env.cbWindowSeconds) (hI : Staged env ep s) (hl : KeepsCount env ep s l)
    (h : s.step env ep l = some s') (hnone : ∀ i, s'.succeeded i → s.succeeded i)
    (ht : s.tripped env ep = true) : s'.tripped env ep = true := by
  cases l with
  | tick ms =>
    cases h
    exact hl ht
  | start c =>
    cases h
    exact ht
  | cmd i =>
    obtain ⟨c, st, st', hsend⟩ := cmd_cases hI h
    have hst : st ≠ .delFailsProbe := by
      rintro rfl
      exact hsend.success.2 (hnone i hsend.success.1)
    obtain ⟨e, he, hle⟩ := tripped_iff.mp ht
    obtain ⟨e', he', hle'⟩ := Stage.run_fails hw hsend.run hst he
    refine tripped_iff.mpr ⟨e', ?_, Nat.le_trans hle hle'⟩
    rw [hsend.now]
    exact he'

theorem succeeded_step (hI : Staged env ep s) (h : s.step env ep l = some s')
    (hi : s.succeeded i) : s'.succeeded i := by
  obtain ⟨w, hw⟩ := hi
  cases l with
  | tick ms =>
    cases h
    exact ⟨w, hw⟩
  | start c =>
    cases h
    exact ⟨w, (List.getElem?_append_left (List.getElem?_eq_some_iff.mp hw).1).trans hw⟩
  | cmd j =>
    obtain ⟨c, st, st', hsend⟩ := cmd_cases hI h
    by_cases hij : i = j
    · subst hij
      have hst : st.prog env ep = .ret none :=
        congrArg BreakerThread.prog (Option.some.inj (hsend.call.symm.trans hw))
      have hrun := hsend.run
      rw [Stage.eq_done hst] at hrun
      cases hrun
    · exact ⟨w, (hsend.call_other hij).trans hw⟩

/-- No call from number `n` on has answered `closed`. -/
def NotClosed (n : ℕ) (s : BreakerWorld) : Prop :=
  ∀ (j : ℕ) (th : BreakerThread), n ≤ j → s.calls[j]? = some th → th.prog ≠ .ret (some .closed)

theorem notClosed_step {n : ℕ} (hI : Staged env ep s) (h : s.step env ep l = some s')
    (ht : s.tripped env ep = true) (hn : NotClosed n s) : NotClosed n s' := by
  intro j th hj hth
  cases l with
  | tick ms =>
    cases h
    exact hn j th hj hth
  | start c =>
    cases h
    rcases start_calls hth with hth | ⟨-, rfl⟩
    · exact hn j th hj hth
    · intro hp
      have hfirst := Stage.eq_done hp
      cases c with
      | onProbeResult w ok => cases ok <;> cases hfirst
      | _ => cases hfirst
  | cmd i =>
    obtain ⟨c, st, st', hsend⟩ := cmd_cases hI h
    by_cases hji : j = i
    · subst hji
      rw [hsend.call_self] at hth
      cases hth
      intro hp
      have hrun := hsend.run
      rw [Stage.eq_done hp] at hrun
      -- the counter was read at the threshold
      generalize s'.redis = r' at hrun
      cases Stage.run_answer hrun with
      | closed hlow => exact hlow ht
    · rw [hsend.call_other hji] at hth
      exact hn j th hj hth

/-- A run in which no probe succeeds, from a state with the counter at the threshold. -/
theorem notClosed_run (hw : 0 < env.cbWindowSeconds) {ls : List BreakerLabel} {n : ℕ}
    (h : Run (BreakerWorld.step env ep) (KeepsCount env ep) s ls s') (hI : Staged env ep s)
    (hnone : ∀ i, s'.succeeded i → s.succeeded i) (ht : s.tripped env ep = true)
    (hn : NotClosed n s) : NotClosed n s' := by
  induction h with
  | nil => exact hn
  | @cons s s₁ s' l ls hC hstep hrun ih =>
    have hI₁ := hI.step hstep
    have hmono : ∀ i, s₁.succeeded i → s'.succeeded i := fun i hi =>
      (hrun.invariant (I := fun x => Staged env ep x ∧ x.succeeded i)
        (fun x l y hx _ hy => ⟨hx.1.step hy, succeeded_step hx.1 hy hx.2⟩) ⟨hI₁, hi⟩).2
    have hnone₁ : ∀ i, s₁.succeeded i → s.succeeded i := fun i hi => hnone i (hmono i hi)
    exact ih hI₁ (fun i hi => succeeded_step hI hstep (hnone i hi))
      (tripped_step hw hI hC hstep hnone₁ ht) (notClosed_step hI hstep ht hn)

/-- **Once open, only probes until one succeeds.** Call `i` sets `:open`, and from then on no report
of a successful probe completes: no `checkState` that starts later answers `closed`. -/
theorem open_until_probe (hw : 0 < env.cbWindowSeconds) {s₀ s₁ : BreakerWorld}
    (h₀ : Reach (BreakerWorld.step env ep) (KeepsCount env ep) {} s₀) (hopen : s₀.opening i = true)
    (hC : KeepsCount env ep s₀ (.cmd i)) (hset : s₀.step env ep (.cmd i) = some s₁)
    {ls : List BreakerLabel} (hrun : Run (BreakerWorld.step env ep) (KeepsCount env ep) s₁ ls s)
    (hnone : ∀ k, s.succeeded k → s₁.succeeded k) {j : ℕ} {th : BreakerThread}
    (hj : s₁.calls.length ≤ j) (hth : s.calls[j]? = some th) : th.answer ≠ some .closed := by
  have hI₀ := reachable_staged h₀
  have hnew : ∀ k, s₁.succeeded k → s₀.succeeded k := by
    rintro k ⟨w, hk⟩
    obtain ⟨c, st, st', hsend⟩ := cmd_cases hI₀ hset
    by_cases hki : k = i
    · subst hki
      -- the call that sets `:open` is no success
      exfalso
      rw [hsend.call_self] at hk
      have hc : c = .onProbeResult w true := congrArg BreakerThread.call (Option.some.inj hk)
      subst hc
      have hof := hsend.stage
      cases st with
      | delFailsProbe =>
        rw [BreakerWorld.opening, hsend.call] at hopen
        cases hopen
      | done a => cases hsend.run
      | _ => exact hof.elim
    · exact ⟨w, (hsend.call_other hki).symm.trans hk⟩
  have ht₁ := tripped_step hw hI₀ hC hset hnew (hC hopen)
  intro hclosed
  refine notClosed_run hw hrun (hI₀.step hset) hnone ht₁ (fun k th hk hth => ?_) j th hj hth
    (BreakerThread.answer_eq_some.mp hclosed)
  have hlt := (List.getElem?_eq_some_iff.mp hth).1
  exact absurd hlt (Nat.not_lt_of_le hk)

/-- As many failures as open the breaker, up to the SET of `:open` by call 19. -/
def sampleFailures : List BreakerLabel :=
  (List.range 20).flatMap fun i => [.start .recordFailure, .cmd i, .cmd i]

/-- A minute later call `i` wins the probe, which fails. -/
def sampleProbe (i : ℕ) : List BreakerLabel :=
  [.tick 60000, .start .checkState, .cmd i, .cmd i, .cmd i, .start (.onProbeResult i false),
    .cmd (i + 1), .cmd (i + 1)]

theorem sample_open {C : BreakerWorld → BreakerLabel → Prop} [∀ s l, Decidable (C s l)]
    (ls : List BreakerLabel) (p : BreakerWorld → Bool)
    (h : ((runOf (BreakerWorld.step sampleEnv 0) C {} sampleFailures).any fun s₀ =>
      s₀.opening 19 ∧ C s₀ (.cmd 19) ∧
        (s₀.step sampleEnv 0 (.cmd 19)).any fun s₁ => s₁.calls.length = 20 ∧
          (runOf (BreakerWorld.step sampleEnv 0) C s₁ ls).any p) = true) :
    ∃ s₀ s₁ s, Reach (BreakerWorld.step sampleEnv 0) C {} s₀ ∧ s₀.opening 19 = true ∧
      C s₀ (.cmd 19) ∧ s₀.step sampleEnv 0 (.cmd 19) = some s₁ ∧ s₁.calls.length = 20 ∧
        Run (BreakerWorld.step sampleEnv 0) C s₁ ls s ∧ p s = true := by
  obtain ⟨s₀, hrun₀, h⟩ := exists_run h
  obtain ⟨hopen, hC, h⟩ := of_decide_eq_true h
  obtain ⟨s₁, hset, h⟩ := (Option.any_eq_true _ _).mp h
  obtain ⟨hlen, h⟩ := of_decide_eq_true h
  obtain ⟨s, hrun, hp⟩ := exists_run h
  exact ⟨s₀, s₁, s, ⟨_, hrun₀⟩, hopen, hC, hset, hlen, hrun, hp⟩

/-- No call of a state reports a success. -/
def BreakerWorld.unreported (s : BreakerWorld) : Bool :=
  s.calls.all fun th =>
    match th.call with
    | .onProbeResult _ true => false
    | _ => true

theorem not_succeeded (h : s.unreported = true) (i : ℕ) : ¬ s.succeeded i := by
  rintro ⟨w, hw⟩
  have := List.all_eq_true.mp h _ (List.mem_of_getElem? hw)
  cases this

theorem open_until_probe_half_open : ∃ s₀ s₁ s th,
    Reach (BreakerWorld.step sampleEnv 0) (KeepsCount sampleEnv 0) {} s₀ ∧ s₀.opening 19 = true ∧
      s₀.step sampleEnv 0 (.cmd 19) = some s₁ ∧
        Run (BreakerWorld.step sampleEnv 0) (KeepsCount sampleEnv 0) s₁ (sampleProbe 20) s ∧
          s.calls[20]? = some th ∧ th.answer = some .probe ∧ th.answer ≠ some .closed := by
  obtain ⟨s₀, s₁, s, hreach, hopen, hC, hset, hlen, hrun, hs⟩ :=
    sample_open (C := KeepsCount sampleEnv 0) (sampleProbe 20)
      (fun s => s.unreported ∧ s.calls[20]?.any fun th => th.answer = some .probe) (by decide +kernel)
  obtain ⟨hnone, hs⟩ := of_decide_eq_true hs
  obtain ⟨th, hth, hans⟩ := (Option.any_eq_true _ _).mp hs
  exact ⟨s₀, s₁, s, th, hreach, hopen, hset, hrun, hth, of_decide_eq_true hans,
    open_until_probe (by decide) hreach hopen hC hset hrun (fun k hk => absurd hk (not_succeeded hnone k))
      (Nat.le_of_eq hlen) hth⟩

/-- Four failed probes set `:open` anew, but not the expiry time of `:fails`: five minutes after the
last counted failure the breaker is closed. -/
theorem closed_without_probe : ¬ ∀ (s₀ s₁ s : BreakerWorld) (i j : ℕ) (ls : List BreakerLabel)
    (th : BreakerThread), Reach (BreakerWorld.step sampleEnv 0) (fun _ _ => True) {} s₀ →
      s₀.opening i = true → s₀.step sampleEnv 0 (.cmd i) = some s₁ →
        Run (BreakerWorld.step sampleEnv 0) (fun _ _ => True) s₁ ls s →
          (∀ k, s.succeeded k → s₁.succeeded k) → s₁.calls.length ≤ j → s.calls[j]? = some th →
            th.answer ≠ some .closed := by
  intro h
  obtain ⟨s₀, s₁, s, hreach, hopen, -, hset, hlen, hrun, hs⟩ :=
    sample_open (C := fun _ _ => True) (sampleProbe 20 ++ sampleProbe 22 ++ sampleProbe 24 ++
      sampleProbe 26 ++ [.tick 60000, .start .checkState, .cmd 28, .cmd 28])
      (fun s => s.unreported ∧ s.calls[28]?.any fun th => th.answer = some .closed) (by decide +kernel)
  obtain ⟨hnone, hs⟩ := of_decide_eq_true hs
  obtain ⟨th, hth, hans⟩ := (Option.any_eq_true _ _).mp hs
  exact h s₀ s₁ s 19 28 _ th hreach hopen hset hrun (fun k hk => absurd hk (not_succeeded hnone k))
    (hlen ▸ by decide) hth (of_decide_eq_true hans)

end WebhookEngine
