import WebhookEngine.Proof.Requests
import WebhookEngine.Proof.Locks
import WebhookEngine.Proof.Pipeline

set_option autoImplicit false

/-!
# The lock at a terminal write

A processor examines `lockLost` once, when its request is over, and writes the terminal status some
calls later.

* `lock_stays`, `lock_came`: what a step makes of the stored lock of a delivery.
* `reachable_extended`: while the lock is stored under its token, every `extend` of a processor has
  answered true.
* `Guards`: the lock is there when a processor with a 2xx answer examines `lockLost`, and is not lost
  between that and its COMMIT.
* **`delivered_under_lock`**: under `Guards` whoever commits DELIVERED holds the lock.
-/

namespace WebhookEngine

open EffectProg TransitionSystem

variable {env : Env} {s s' : State} {l : Label} {t u : Tid} {th th' : Thread} {d : IdText}

/-! ## The stored lock -/

/-- What a call makes of the lock of a delivery. -/
inductive LockTurn (s s' : State) (d : IdText) (e : Eff) : Prop where
  | same (h : s'.redis.lock d = s.redis.lock d)
  | set {token : Tid} {ttl : ℕ} (he : e = .redis (.setLock d token ttl))
      (h : s.redis.lockAt s.now d = none) (h' : s'.redis.lock d = some (token, s.now + ttl))
  | freed {token : Tid} (he : e = .redis (.evalReleaseLock d token))
      (h : s.redis.lockAt s.now d = some token) (h' : s'.redis.lock d = none)

theorem Advance.lock {c : Choice} {e : Eff} {r : e.Resp} {k : e.Resp → Code Reply} {w : World}
    {m : Memory} (h : Advance s s' t c th e r k w m) (d : IdText) :
    s'.now = s.now ∧ LockTurn s s' d e := by
  have hnow : s'.now = s.now := by rw [h.world]; exact (perform_now h.done).1
  refine ⟨hnow, ?_⟩
  by_cases he : ∃ cmd, e = .redis cmd
  · obtain ⟨cmd, rfl⟩ := he
    have hredis : s'.redis = (c.fault.run s.redis (cmd.exec s.now s.redis)).1 := by
      rw [h.world, (perform_redis h.done).1]
    by_cases hfault : c.fault = .before
    · refine .same ?_
      rw [hredis, Fault.run, if_pos hfault]
    rw [Fault.run, if_neg hfault] at hredis
    dsimp only at hredis
    cases cmd with
    | setLock x token ttl =>
      by_cases hx : x = d
      · subst hx
        by_cases hfree : s.redis.lockAt s.now x = none
        · refine .set rfl hfree ?_
          rw [hredis, RedisCmd.exec, if_pos hfree]
          exact Function.update_self ..
        · refine .same ?_
          rw [hredis, RedisCmd.exec, if_neg hfree]
      · refine .same ?_
        rw [hredis, RedisCmd.exec]
        split
        · exact Function.update_of_ne (Ne.symm hx) ..
        · rfl
    | evalReleaseLock x token =>
      by_cases hx : x = d
      · subst hx
        by_cases hown : s.redis.lockAt s.now x = some token
        · refine .freed rfl hown ?_
          rw [hredis, RedisCmd.exec, if_pos hown]
          exact Function.update_self ..
        · refine .same ?_
          rw [hredis, RedisCmd.exec, if_neg hown]
      · refine .same ?_
        rw [hredis, RedisCmd.exec]
        split
        · exact Function.update_of_ne (Ne.symm hx) ..
        · rfl
    | setProbe ep ttl =>
      refine .same ?_
      rw [hredis, RedisCmd.exec]
      split <;> rfl
    | evalTokenBucket ep max ttl =>
      refine .same ?_
      rw [hredis, RedisCmd.exec]
      dsimp only
      split <;> rfl
    | _ => exact .same (by rw [hredis]; rfl)
  · refine .same ?_
    rw [h.world, (perform_now h.done).2 fun cmd hc => he ⟨cmd, hc⟩]

theorem lockAt_congr {r r' : Redis} {now : Time} (h : r'.lock d = r.lock d) :
    r'.lockAt now d = r.lockAt now d := by
  rw [Redis.lockAt, Redis.lockAt, h]

/-- A heartbeat finds the lock or leaves it alone. -/
theorem lockAt_extendLock (r : Redis) (now : Time) (x d : IdText) (token : Tid) (ttl : ℕ) :
    (r.extendLock now x token ttl).2 = decide (r.lockAt now x = some token) ∧
      ((r.extendLock now x token ttl).1.lock d = r.lock d ∨
        x = d ∧ r.lockAt now x = some token ∧
          (r.extendLock now x token ttl).1.lock d = some (token, now + ttl)) := by
  unfold Redis.extendLock
  split
  · rename_i hown
    refine ⟨by rw [hown]; simp, ?_⟩
    by_cases hx : x = d
    · subst hx
      exact Or.inr ⟨rfl, hown, Function.update_self ..⟩
    · exact Or.inl (Function.update_of_ne (Ne.symm hx) ..)
  · rename_i hown
    exact ⟨(decide_eq_false hown).symm, Or.inl rfl⟩

theorem step_lock (h : step env s l = some s') (hop : ∀ t c, l ≠ .op t c)
    (hext : ∀ t, l ≠ .extend t) (hevict : l ≠ .evict (.lock d)) (hloss : l ≠ .redisLoss) :
    s'.redis.lock d = s.redis.lock d ∧ ((∀ ms, l ≠ .tick ms) → s'.now = s.now) := by
  cases step_happens h with
  | op => exact absurd rfl (hop _ _)
  | extend => exact absurd rfl (hext _)
  | redisLoss => exact absurd rfl hloss
  | tick => exact ⟨rfl, fun h => absurd rfl (h _)⟩
  | settle _ _ h => cases h <;> exact ⟨rfl, fun _ => rfl⟩
  | @evict key =>
    refine ⟨?_, fun _ => rfl⟩
    cases key with
    | lock x =>
      have hx : x ≠ d := by
        rintro rfl
        exact hevict rfl
      exact Function.update_of_ne (Ne.symm hx) ..
    | _ => rfl
  | _ => exact ⟨rfl, fun _ => rfl⟩

/-- What can take the lock of a delivery from the execution it is stored for. -/
inductive Frees (s : State) (d : IdText) (u : Tid) : Label → Prop where
  | tick {ms : ℕ} (h : s.redis.lockAt (s.now + ms) d ≠ some u) : Frees s d u (.tick ms)
  | evict : Frees s d u (.evict (.lock d))
  | loss : Frees s d u .redisLoss
  | beat {th : Thread} (h : s.live? u = some th) (hb : th.mem.heartbeat = true) :
      Frees s d u (.extend u)
  | release {c : Choice} {th : Thread} {k : (Eff.redis (.evalReleaseLock d u)).Resp → Code Reply}
      (h : s.live? u = some th) (hp : th.prog = .op (.redis (.evalReleaseLock d u)) k) :
      Frees s d u (.op u c)

theorem lock_stays (hs : s.Ok) (h : step env s l = some s')
    (hown : s.redis.lockAt s.now d = some u) :
    s'.redis.lockAt s'.now d = some u ∨ Frees s d u l := by
  by_cases hop : ∃ t c, l = .op t c
  · obtain ⟨t, c, rfl⟩ := hop
    obtain ⟨th, e, r, k, w, m, hadv⟩ := stepOp_cases h
    obtain ⟨hnow, hturn⟩ := hadv.lock d
    cases hturn with
    | same hsame => exact Or.inl (by rw [hnow, lockAt_congr hsame]; exact hown)
    | set he hfree h' =>
      rw [hown] at hfree
      cases hfree
    | freed he hheld h' =>
      subst he
      obtain rfl := Option.some.inj (hheld.symm.trans hown)
      obtain ⟨-, -, -, rfl, -⟩ := (hs.threads t th hadv.live).permits hadv.prog
      exact Or.inr (.release hadv.live hadv.prog)
  by_cases hext : ∃ t, l = .extend t
  · obtain ⟨t, rfl⟩ := hext
    obtain ⟨th, job, hlive, -, hbeat, hnow, hredis, -⟩ := extend_mem h
    rw [hnow, hredis]
    rcases (lockAt_extendLock s.redis s.now job.text d t env.lockTtlMs).2 with hsame | ⟨rfl, hheld, -⟩
    · exact Or.inl ((lockAt_congr hsame).trans hown)
    · obtain rfl := Option.some.inj (hheld.symm.trans hown)
      exact Or.inr (.beat hlive hbeat)
  by_cases hevict : l = .evict (.lock d)
  · exact Or.inr (hevict ▸ .evict)
  by_cases hloss : l = .redisLoss
  · exact Or.inr (hloss ▸ .loss)
  obtain ⟨hsame, hnow⟩ :=
    step_lock h (fun t c hc => hop ⟨t, c, hc⟩) (fun t ht => hext ⟨t, ht⟩) hevict hloss
  by_cases htick : ∃ ms, l = .tick ms
  · obtain ⟨ms, rfl⟩ := htick
    by_cases hlate : s.redis.lockAt (s.now + ms) d = some u
    · cases h
      exact Or.inl hlate
    · exact Or.inr (.tick hlate)
  · rw [hnow fun ms hms => htick ⟨ms, hms⟩, lockAt_congr hsame]
    exact Or.inl hown

theorem lock_came (hs : s.Ok) (h : step env s l = some s')
    (hown : s'.redis.lockAt s'.now d = some u) :
    s.redis.lockAt s.now d = some u ∨ ∃ c th ttl k, l = .op u c ∧ s.live? u = some th ∧
      th.prog = .op (.redis (.setLock d u ttl)) k := by
  by_cases hop : ∃ t c, l = .op t c
  · obtain ⟨t, c, rfl⟩ := hop
    obtain ⟨th, e, r, k, w, m, hadv⟩ := stepOp_cases h
    obtain ⟨hnow, hturn⟩ := hadv.lock d
    cases hturn with
    | same hsame => exact Or.inl (by rw [← lockAt_congr hsame, ← hnow]; exact hown)
    | set he hfree h' =>
      subst he
      obtain ⟨exp, hl, -⟩ := Redis.lockAt_eq_some.mp hown
      rw [h'] at hl
      cases hl
      obtain ⟨-, -, -, rfl, -⟩ := (hs.threads t th hadv.live).permits hadv.prog
      exact Or.inr ⟨c, th, _, k, rfl, hadv.live, hadv.prog⟩
    | freed he hheld h' =>
      obtain ⟨exp, hl, -⟩ := Redis.lockAt_eq_some.mp hown
      rw [h'] at hl
      cases hl
  refine Or.inl ?_
  by_cases hext : ∃ t, l = .extend t
  · obtain ⟨t, rfl⟩ := hext
    obtain ⟨th, job, -, -, -, hnow, hredis, -⟩ := extend_mem h
    rw [hnow, hredis] at hown
    rcases (lockAt_extendLock s.redis s.now job.text d t env.lockTtlMs).2 with hsame |
      ⟨rfl, hheld, hset⟩
    · rw [← lockAt_congr hsame]
      exact hown
    · obtain ⟨exp, hl, -⟩ := Redis.lockAt_eq_some.mp hown
      rw [hset] at hl
      cases hl
      exact hheld
  by_cases hevict : l = .evict (.lock d)
  · subst hevict
    cases h
    obtain ⟨exp, hl, -⟩ := Redis.lockAt_eq_some.mp hown
    have hl : Function.update s.redis.lock d none d = _ := hl
    rw [Function.update_self] at hl
    cases hl
  by_cases hloss : l = .redisLoss
  · subst hloss
    cases h
    cases hown
  obtain ⟨hsame, hnow⟩ :=
    step_lock h (fun t c hc => hop ⟨t, c, hc⟩) (fun t ht => hext ⟨t, ht⟩) hevict hloss
  rw [lockAt_congr hsame] at hown
  by_cases htick : ∃ ms, l = .tick ms
  · obtain ⟨ms, rfl⟩ := htick
    cases h
    obtain ⟨exp, hl, hlt⟩ := Redis.lockAt_eq_some.mp hown
    exact Redis.lockAt_eq_some.mpr ⟨exp, hl, Nat.lt_of_le_of_lt (Nat.le_add_right _ _) hlt⟩
  · rw [← hnow fun ms hms => htick ⟨ms, hms⟩]
    exact hown

/-! ## The answers of the heartbeat -/

/-- While the lock is stored under its token, no `extend` of a processor has answered false. -/
def Extended (s : State) : Prop :=
  ∀ t th job, s.live? t = some th → th.kind = .deliver job →
    s.redis.lockAt s.now job.text = some t →
      th.mem.lockLost = false ∧ ∀ held ∈ th.mem.extending, held = true

theorem Extended.step (hs : s.Ok) (hst : Passing s) (h : step env s l = some s') (hI : Extended s) :
    Extended s' := by
  intro u th' job hu hk hown
  rcases lock_came hs h hown with hold | ⟨c, th, ttl, k, rfl, hlive, hp⟩
  · cases step_lives h hu with
    | called hl hadv hth =>
      subst hth
      obtain ⟨hlost, hext, -⟩ := perform_mem hadv.done
      refine ⟨hlost.trans ?_, fun held hmem => ?_⟩
      · exact (hI u _ job hadv.live hk hold).1
      · exact (hI u _ job hadv.live hk hold).2 held (hext ▸ hmem)
    | @beat th job' hl hlive hk' hbeat hth =>
      subst hth
      obtain rfl : job' = job := Kind.deliver.inj (hk'.symm.trans hk)
      obtain ⟨hlost, hall⟩ := hI u th job' hlive hk hold
      refine ⟨hlost, fun held hmem => ?_⟩
      rcases List.mem_append.mp hmem with hmem | hmem
      · exact hall held hmem
      · rw [List.mem_singleton.mp hmem]
        rw [(lockAt_extendLock s.redis s.now job'.text job'.text u env.lockTtlMs).1]
        exact decide_eq_true hold
    | @heard th held rest hl hlive hnext hth =>
      subst hth
      obtain ⟨hlost, hall⟩ := hI u th job hlive hk hold
      rw [hnext] at hall
      obtain rfl : held = true := hall held List.mem_cons_self
      refine ⟨?_, fun b hb => hall b (List.mem_cons_of_mem _ hb)⟩
      change (th.mem.lockLost || !true) = false
      rw [hlost]
      rfl
    | @kept th hlive hreply hkept hmem =>
      rw [hmem]
      exact hI u th job hlive (hkept.kind ▸ hk) hold
    | fresh hlen hstart hth =>
      subst hth
      exact ⟨rfl, nofun⟩
  · obtain ⟨th₁, e, r, k₁, w, m, hadv⟩ := stepOp_cases h
    rw [hadv.live?_self] at hu
    cases hu
    obtain rfl : th₁ = th := Option.some.inj (hadv.live.symm.trans hlive)
    have hpassing := hst u th₁ job hlive hk
    have hsafe := hpassing.safe
    rw [hp] at hsafe
    obtain ⟨-, hlost, hext⟩ := hpassing.before hsafe.1.2.1
    obtain ⟨hlost', hext', -⟩ := perform_mem hadv.done
    change m.lockLost = false ∧ ∀ held ∈ m.extending, held = true
    rw [hlost', hext', hlost, hext]
    exact ⟨rfl, nofun⟩

theorem reachable_extended {C : State → Label → Prop} (h : Reachable env C s) : Extended s := by
  have hinv : Reachable env C s ∧ Extended s := by
    obtain ⟨ls, h⟩ := h
    refine h.invariant (I := fun s => Reachable env C s ∧ Extended s) ?_ ⟨.refl _, ?_⟩
    · rintro s l s' ⟨hr, hI⟩ hC hstep
      exact ⟨hr.snoc hC hstep, hI.step (reachable_ok hr) (reachable_passing hr) hstep⟩
    · intro t th job h
      simp [State.live?] at h
  exact hinv.2

/-! ## From the look at `lockLost` to the COMMIT -/

/-- The request was answered with a 2xx status. -/
def Facts.answered (m : Facts) : Bool :=
  match m.reply with
  | some (.response status _) => 200 ≤ status ∧ status < 300
  | _ => false

/-- The lock of the delivery that the execution goes on to commit as DELIVERED: it has a 2xx answer and
has read `lockLost` as false. -/
def Thread.guarding (th : Thread) : Option IdText :=
  match th.kind with
  | .deliver job =>
    if th.facts.holds ∧ th.facts.spent = false ∧ th.facts.lost = some false ∧ th.facts.answered then
      some job.text
    else none
  | _ => none

/-- The lock of the execution if it is about to read `lockLost` as false, with a 2xx answer. -/
def Thread.examining (th : Thread) : Option IdText :=
  match th.kind, th.prog with
  | .deliver job, .op .readLockLost _ =>
    if th.mem.lockLost = false ∧ th.facts.answered then some job.text else none
  | _, _ => none

/-- The lock is there when a processor with a 2xx answer reads `lockLost` as false, and neither time
nor a loss of the key takes it between that and its COMMIT. -/
def Guards (s : State) : Label → Prop
  | .op t _ => ∀ d ∈ (s.live? t).bind Thread.examining, s.redis.lockAt s.now d = some t
  | .tick ms => ∀ t < s.threads.length, ∀ d ∈ (s.live? t).bind Thread.guarding,
      s.redis.lockAt (s.now + ms) d = some t
  | .evict (.lock d) => ∀ t < s.threads.length, (s.live? t).bind Thread.guarding ≠ some d
  | .redisLoss => ∀ t < s.threads.length, (s.live? t).bind Thread.guarding = none
  | _ => True

instance (s : State) : (l : Label) → Decidable (Guards s l)
  | .op t _ => (inferInstance :
      Decidable (∀ d ∈ (s.live? t).bind Thread.examining, s.redis.lockAt s.now d = some t))
  | .tick ms => (inferInstance : Decidable (∀ t < s.threads.length,
      ∀ d ∈ (s.live? t).bind Thread.guarding, s.redis.lockAt (s.now + ms) d = some t))
  | .evict key => match key with
    | .lock d => (inferInstance :
        Decidable (∀ t < s.threads.length, (s.live? t).bind Thread.guarding ≠ some d))
    | .fails _ | .opened _ | .probe _ | .bucket _ | .idem _ => .isTrue trivial
  | .redisLoss => (inferInstance :
      Decidable (∀ t < s.threads.length, (s.live? t).bind Thread.guarding = none))
  | .settle _ | .crash _ | .extend _ | .extendReply _ | .request _ | .pickup _ | .stall _
  | .stallFail _ | .removeCompleted _ | .operatorAdd _ _ | .idemArrive _
  | .createEndpoint _ _ _ | .patchEndpoint _ _ _ => .isTrue trivial

theorem Thread.guarding_eq_some : th.guarding = some d ↔ ∃ job, th.kind = .deliver job ∧
    job.text = d ∧ th.facts.holds = true ∧ th.facts.spent = false ∧
      th.facts.lost = some false ∧ th.facts.answered = true := by
  unfold Thread.guarding
  split
  · rename_i job hk
    rw [Option.ite_none_right_eq_some]
    constructor
    · rintro ⟨⟨hh, hsp, hl, ha⟩, heq⟩
      exact ⟨job, hk, Option.some.inj heq, hh, hsp, hl, ha⟩
    · rintro ⟨job', hk', hd, hh, hsp, hl, ha⟩
      obtain rfl := Kind.deliver.inj (hk.symm.trans hk')
      exact ⟨⟨hh, hsp, hl, ha⟩, congrArg some hd⟩
  · rename_i hk
    refine ⟨nofun, fun ⟨job, hk', _⟩ => absurd hk' (hk job)⟩

theorem passage_lost (tr : List Event) : (passage tr).lost = (facts tr).lost := by
  induction tr with
  | nil => rfl
  | cons ev tr ih =>
    obtain ⟨e, r⟩ := ev
    cases hb : e.beats with
    | false =>
      rcases @Facts.next_lost (facts tr) e r with hsame | ⟨b, hev, -⟩
      · exact ((passage tr).next_still r hb).2.2.trans (ih.trans hsame.symm)
      · cases hev
        cases hb
    | true =>
      cases e with
      | setInterval => exact ih
      | clearInterval => exact ih
      | readLockLost => rfl
      | _ => cases hb

/-- Whoever goes on to commit DELIVERED has the lock. -/
def Guarded (s : State) : Prop :=
  ∀ t th d, s.live? t = some th → th.guarding = some d → s.redis.lockAt s.now d = some t

/-- A call makes its execution guard the delivery only if it reads `lockLost`. -/
theorem Advance.guarding {c : Choice} {e : Eff} {r : e.Resp} {k : e.Resp → Code Reply} {w : World}
    {m : Memory} (h : Advance s s' t c th e r k w m) (hs : s.Ok) (hst : Passing s)
    (hlaw : Lawful t th.kind th.trace) (hg : (th.after e r k m).guarding = some d) :
    th.guarding = some d ∨ th.examining = some d := by
  obtain ⟨job, hk, hd, hh, hsp, hl, ha⟩ := Thread.guarding_eq_some.mp hg
  change th.kind = .deliver job at hk
  have hpermit := (hs.threads t th h.live).permits h.prog
  rw [Thread.facts_after] at hh hsp hl ha
  have hspent : th.facts.spent = false := by
    by_contra hne
    rw [Facts.next_spent r (by simpa using hne)] at hsp
    cases hsp
  rcases Facts.next_lost r with hlost | ⟨b, hev, hnew⟩
  · have hl₀ : th.facts.lost = some false := hlost.symm.trans hl
    have hreply : (th.facts.next e r).reply = th.facts.reply := by
      rcases Facts.next_reply r with hreply | ⟨x, hev, -⟩
      · exact hreply
      · -- the answer came before `lockLost` was read
        cases hev
        obtain ⟨-, -, -, -, -, hsome, -⟩ := lawful_lost hlaw hl₀
        have hnone : (facts th.trace).reply = none := hpermit.2
        rw [hnone] at hsome
        cases hsome
    rcases Facts.next_holds r hh with hholds | ⟨x, token, ttl, rfl⟩
    · refine Or.inl (Thread.guarding_eq_some.mpr ⟨job, hk, hd, hholds, hspent, hl₀, ?_⟩)
      rw [← ha, Facts.answered, Facts.answered, hreply]
    · have hsafe := (hst t th job h.live hk).safe
      rw [h.prog] at hsafe
      have hnone : th.passage.lost = none := hsafe.1.2.2
      rw [show th.passage.lost = th.facts.lost from passage_lost th.trace, hl₀] at hnone
      cases hnone
  · cases hev
    have hdone := h.done
    cases hdone
    have hfalse : th.mem.lockLost = false := Option.some.inj (hnew.symm.trans hl)
    have ha : th.facts.answered = true := ha
    refine Or.inr ?_
    rw [Thread.examining, hk, h.prog]
    exact (if_pos ⟨hfalse, ha⟩).trans (congrArg some hd)

theorem Guarded.step (hs : s.Ok) (hst : Passing s)
    (hlaw : ∀ t th, s.live? t = some th → Lawful t th.kind th.trace) (hl : Guards s l)
    (h : step env s l = some s') (hI : Guarded s) : Guarded s' := by
  intro u th' d hu hg
  by_cases hop : ∃ c, l = .op u c
  · obtain ⟨c, rfl⟩ := hop
    obtain ⟨th, e, r, k, w, m, hadv⟩ := stepOp_cases h
    rw [hadv.live?_self] at hu
    cases hu
    have hown : s.redis.lockAt s.now d = some u := by
      rcases hadv.guarding hs hst (hlaw u th hadv.live) hg with hold | hexam
      · exact hI u th d hadv.live hold
      · refine hl d ?_
        rw [hadv.live]
        exact hexam
    rcases lock_stays hs h hown with hstays | hfrees
    · exact hstays
    · cases hfrees with
      | release hlive hp =>
        obtain ⟨job, -, -, hh, -⟩ := Thread.guarding_eq_some.mp hg
        obtain rfl : th = _ := Option.some.inj (hadv.live.symm.trans hlive)
        have hprog := hadv.prog
        rw [hp] at hprog
        cases hprog
        exact absurd hh Bool.false_ne_true
  -- other steps leave what the execution knows as it was
  have hcame : ∃ th, s.live? u = some th ∧ th.guarding = some d := by
    cases step_arises h hu with
    | called hl => exact absurd ⟨_, hl⟩ hop
    | @kept th _ hlive hkept =>
      have hf : th'.facts = th.facts := congrArg WebhookEngine.facts hkept.trace
      refine ⟨th, hlive, ?_⟩
      rw [Thread.guarding, ← hf, ← hkept.kind]
      exact hg
    | fresh hlen hstart hth =>
      subst hth
      obtain ⟨job, -, -, hh, -⟩ := Thread.guarding_eq_some.mp hg
      exact absurd hh Bool.false_ne_true
  obtain ⟨th, hlive, hold⟩ := hcame
  have hbound : (s.live? u).bind Thread.guarding = some d := by
    rw [hlive]
    exact hold
  rcases lock_stays hs h (hI u th d hlive hold) with hstays | hfrees
  · exact hstays
  · cases hfrees with
    | tick hlate => exact absurd (hl u (State.live?_lt hlive) d hbound) hlate
    | evict => exact absurd hbound (hl u (State.live?_lt hlive))
    | loss =>
      have hnone := hl u (State.live?_lt hlive)
      rw [hbound] at hnone
      cases hnone
    | beat hlive' hbeat =>
      -- the heartbeat has stopped before `lockLost` was read
      obtain rfl : th = _ := Option.some.inj (hlive.symm.trans hlive')
      obtain ⟨job, hk, -, -, -, hlost, -⟩ := Thread.guarding_eq_some.mp hold
      have hpassing := hst u th job hlive hk
      have hquiet := hpassing.quiet (by
        rw [show th.passage.lost = th.facts.lost from passage_lost th.trace, hlost]
        rfl)
      rw [← hpassing.beat, hbeat] at hquiet
      cases hquiet
    | release => exact absurd ⟨_, rfl⟩ hop

theorem reachable_guarded (h : Reachable env Guards s) : Guarded s := by
  have hinv : Reachable env Guards s ∧ Guarded s := by
    obtain ⟨ls, h⟩ := h
    refine h.invariant (I := fun s => Reachable env Guards s ∧ Guarded s) ?_ ⟨.refl _, ?_⟩
    · rintro s l s' ⟨hr, hI⟩ hl hstep
      exact ⟨hr.snoc hl hstep,
        hI.step (reachable_ok hr) (reachable_passing hr) (reachable_lawfulTrace hr) hl hstep⟩
    · intro t th d h
      simp [State.live?] at h
  exact hinv.2

/-- **Whoever commits DELIVERED holds the lock**, and no `extend` of it has answered false. -/
theorem delivered_under_lock (h : Reachable env Guards s) (ht : s.live? t = some th) {job : JobRef}
    (hk : th.kind = .deliver job) {c : Choice} (hstep : step env s (.op t c) = some s')
    {d : DeliveryId} {tr : TransitionRow} (hnew : tr ∈ s'.pg.db.log d) (hold : tr ∉ s.pg.db.log d)
    (hto : tr.toStatus = .delivered) :
    job.deliveryId = d ∧ s.redis.lockAt s.now job.text = some t ∧ th.mem.lockLost = false ∧
      ∀ held ∈ th.mem.extending, held = true := by
  have hcommit : job.deliveryId = d ∧ th.guarding = some job.text := by
    obtain ⟨t', c', th', r, k, w, m, hl, hadv, hlog⟩ :=
      story_entry (reachable_ok h) hstep hnew hold
    cases hl
    obtain rfl : th' = th := Option.some.inj (hadv.live.symm.trans ht)
    have hcall : ∀ c, th'.kind ≠ .repoCall c := fun c hc => by
      rw [hk] at hc
      cases hc
    generalize hkind : th'.kind = kd at hlog
    cases hlog with
    | created hk' id τ => cases hto
    | moved hmv id x reason τ => exact absurd hto (hmv.to (hkind ▸ hcall)).1
    | @recorded a _ _ _ hrec ha id x reason τ =>
      cases hrec with
      | circuit => cases hto
      | @outcome job' _ row _ _ hw hm hd hn ho hnext =>
        have hsucc : a.outcome = .success := by
          by_contra hne
          have hto : a.outcome.toStatus = .delivered := hto
          rw [AttemptOutcome.toStatus, if_neg hne] at hto
          cases hto
        obtain ⟨-, ⟨status, text, hreply, hlo, hhi⟩, hlost⟩ := ho hsucc
        cases hk.symm.trans hkind
        refine ⟨hd.symm.trans ha,
          Thread.guarding_eq_some.mpr ⟨job, hk, rfl, hw.holds, hw.unspent, hlost, ?_⟩⟩
        rw [Facts.answered, hreply]
        exact decide_eq_true ⟨hlo, hhi⟩
      | call => exact absurd hkind (hcall _)
  have hown := reachable_guarded h t th job.text ht hcommit.2
  exact ⟨hcommit.1, hown, reachable_extended h t th job ht hk hown⟩

/-- Execution `t` picks up the delivery and goes on until it reads `lockLost`; after some time it
goes on to its last COMMIT. -/
def sampleLate (t : Tid) (ms : ℕ) : List Label :=
  .pickup (.delivery 2) :: calls t 20 ++ .tick ms :: calls t 7

/-- The next call of execution 1 moves the delivery 2 to DELIVERED. -/
def State.delivers (s : State) : Bool :=
  (step sampleEnv s (.op 1 {})).any fun s' => (s'.pg.db.log 2).any fun tr =>
    tr ∉ s.pg.db.log 2 ∧ tr.toStatus = .delivered

theorem State.exists_of_delivers (hs : s.delivers = true) : ∃ s' tr,
    step sampleEnv s (.op 1 {}) = some s' ∧ tr ∈ s'.pg.db.log 2 ∧ tr ∉ s.pg.db.log 2 ∧
      tr.toStatus = .delivered := by
  obtain ⟨s', hstep, hany⟩ := (Option.any_eq_true _ _).mp hs
  obtain ⟨tr, htr, hcond⟩ := List.any_eq_true.mp hany
  exact ⟨s', tr, hstep, htr, of_decide_eq_true hcond⟩

/-- The execution is the processor of a job. -/
def Thread.job? (th : Thread) : Option JobRef :=
  match th.kind with
  | .deliver job => some job
  | _ => none

theorem Thread.kind_of_job? {job : JobRef} (h : th.job? = some job) : th.kind = .deliver job := by
  unfold Thread.job? at h
  split at h
  · rename_i hk
    cases h
    exact hk
  · cases h

theorem delivered_under_lock_late : ∃ s s' tr, Reachable sampleEnv Guards s ∧
    step sampleEnv s (.op 1 {}) = some s' ∧ tr ∈ s'.pg.db.log 2 ∧ tr ∉ s.pg.db.log 2 ∧
      tr.toStatus = .delivered ∧ s.redis.lockAt s.now 2 = some 1 := by
  obtain ⟨s, hreach, hs⟩ := sample_run (C := Guards) (sampleIngest ++ sampleLate 1 59999)
    (fun s => s.delivers ∧ ((s.live? 1).bind Thread.job?).any fun job => job.text = 2)
    (by decide +kernel)
  obtain ⟨hdel, hjob⟩ := of_decide_eq_true hs
  obtain ⟨s', tr, hstep, htr, hnew, hto⟩ := State.exists_of_delivers hdel
  obtain ⟨job, hjob, htext⟩ := (Option.any_eq_true _ _).mp hjob
  obtain ⟨th, hlive, hjob⟩ := Option.bind_eq_some_iff.mp hjob
  have hown := (delivered_under_lock hreach hlive (Thread.kind_of_job? hjob) hstep htr hnew hto).2.1
  rw [of_decide_eq_true htext] at hown
  exact ⟨s, s', tr, hreach, hstep, htr, hnew, hto, hown⟩

/-- The lock expires between the look at `lockLost` and the COMMIT. -/
theorem delivered_without_lock : ¬ ∀ s s' t th job c d tr,
    Reachable sampleEnv (fun _ _ => True) s → s.live? t = some th → th.kind = .deliver job →
      step sampleEnv s (.op t c) = some s' → tr ∈ s'.pg.db.log d → tr ∉ s.pg.db.log d →
        tr.toStatus = .delivered → job.deliveryId = d ∧ s.redis.lockAt s.now job.text = some t ∧
          th.mem.lockLost = false ∧ ∀ held ∈ th.mem.extending, held = true := by
  intro h
  obtain ⟨s, hreach, hs⟩ := sample_run (C := fun _ _ => True) (sampleIngest ++ sampleLate 1 60000)
    (fun s => s.delivers ∧ ((s.live? 1).bind Thread.job?).any fun job =>
      s.redis.lockAt s.now job.text = none) (by decide +kernel)
  obtain ⟨hdel, hjob⟩ := of_decide_eq_true hs
  obtain ⟨s', tr, hstep, htr, hnew, hto⟩ := State.exists_of_delivers hdel
  obtain ⟨job, hjob, hnone⟩ := (Option.any_eq_true _ _).mp hjob
  obtain ⟨th, hlive, hjob⟩ := Option.bind_eq_some_iff.mp hjob
  have hown := (h s s' 1 th job {} 2 tr hreach hlive (Thread.kind_of_job? hjob) hstep htr hnew hto).2.1
  rw [of_decide_eq_true hnone] at hown
  cases hown

end WebhookEngine
