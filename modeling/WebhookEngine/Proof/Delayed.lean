import WebhookEngine.Proof.TerminalLock
import WebhookEngine.Proof.Reports

set_option autoImplicit false

/-!
# Delayed pickups

Lock contention, an inactive endpoint and an exhausted bucket end a processor with BullMQ's
`DelayedError`, each at another depth of what it has acquired.

* `Passage.Unused.back`, `Advance.inert`: a processor that is unused at its end was so all along, and
  a call that leaves it unused leaves the tables, the breaker and the buckets as they are.
* `Leased`, `reachable_leased`: a lock is stored for a processor only while its passage says so.
* **`delayed_inert`**: an execution that ends delayed has done nothing to the delivery, its endpoint or
  the locks and tokens of others, and holds nothing.
-/

namespace WebhookEngine

open EffectProg TransitionSystem

variable {env : Env} {C : State → Label → Prop} {s s' v : State} {l : Label} {t u : Tid}
  {th th' : Thread} {job : JobRef} {d : IdText}

/-! ## Calls of an unused processor -/

theorem Passage.Unused.back {m : Passage} {e : Eff} {r : e.Resp} (h : (m.next e r).Unused) :
    m.Unused := by
  obtain ⟨hbegun, htook, hgave, hwrote, hsent, hnoted⟩ := h
  cases e with
  | sql q =>
    cases q with
    | selectForDelivery d => exact ⟨hbegun, htook, hgave, hwrote, hsent, hnoted⟩
    | commit => cases r <;> cases hwrote
    | _ => cases hwrote
  | redis c =>
    cases c with
    | setLock d token ttl => cases r <;> exact ⟨hbegun, htook, hgave, hwrote, hsent, hnoted⟩
    | evalReleaseLock d token =>
      cases r <;> exact ⟨hbegun, htook, hgave, hwrote, hsent, hnoted⟩
    | setProbe ep ttl => cases r <;> exact ⟨hbegun, htook, hgave, hwrote, hsent, hnoted⟩
    | evalTokenBucket ep max ttl =>
      cases r with
      | ok remaining =>
        exact ⟨hbegun, (Bool.or_eq_false_iff.mp htook).1, hgave, hwrote, hsent, hnoted⟩
      | error y => cases htook
    | hincrbyTokens ep => cases hgave
    | hsetTokens ep n => cases hgave
    | expireTokens ep ttl => cases hgave
    | incrFails ep => cases hnoted
    | expireFails ep ttl => cases hnoted
    | setOpen ep ttl => cases hnoted
    | delFailsProbe ep => cases hnoted
    | _ => exact ⟨hbegun, htook, hgave, hwrote, hsent, hnoted⟩
  | setInterval => cases hbegun
  | httpStart req => cases hsent
  | _ => exact ⟨hbegun, htook, hgave, hwrote, hsent, hnoted⟩

theorem unused_suffix {tr tr' : List Event} (h : tr <:+ tr') (hu : (passage tr').Unused) :
    (passage tr).Unused := by
  obtain ⟨new, rfl⟩ := h
  induction new with
  | nil => exact hu
  | cons ev new ih => exact ih hu.back

theorem unused_token {tr : List Event} (h : (passage tr).Unused) (ep : EndpointId) :
    holdsToken ep tr = false := by
  induction tr with
  | nil => rfl
  | cons ev tr ih =>
    obtain ⟨e, r⟩ := ev
    have hold : holdsToken ep tr = false := ih h.back
    by_cases hap : Apart ep e
    · exact ((@Apart.ignored sampleEnv ep e hap _).2 r).trans hold
    · have htook := h.took
      have hgave := h.gave
      rcases not_apart hap with ⟨max, ttl, rfl⟩ | rfl | ⟨n, rfl⟩ | ⟨ttl, rfl⟩
      · cases r with
        | error y => exact hold
        | ok remaining => exact (if_pos rfl).trans (Bool.or_eq_false_iff.mp htook).2
      · cases hgave
      · cases hgave
      · cases hgave

section Call

variable {c : Choice} {e : Eff} {r : e.Resp} {k : e.Resp → Code Reply} {w : World} {m : Memory}

theorem exec_exhausted {ep : EndpointId} {max ttl : ℕ} {now : Time} {r : Redis}
    (h : granted? (RedisCmd.exec now r (.evalTokenBucket ep max ttl)).2 = false) :
    (RedisCmd.exec now r (.evalTokenBucket ep max ttl)).1 = r := by
  simp only [RedisCmd.exec] at h ⊢
  split at h
  · rename_i hle
    rw [if_pos hle]
  · rename_i hgt
    have hne : ((r.bucketEntry now ep).map (·.1)).getD (max : Int) - 1 ≠ -1 := by omega
    rw [granted?, decide_eq_true hne] at h
    cases h

theorem Advance.bucket {cmd : RedisCmd} {r : Except Err cmd.Ret} {k : Except Err cmd.Ret → Code Reply}
    (h : Advance s s' t c th (.redis cmd) r k w m)
    (hu : (th.passage.next (.redis cmd) r).Unused) : s'.redis.bucket = s.redis.bucket := by
  obtain ⟨hw, hr⟩ := perform_redis h.done
  rw [h.world, hw]
  change Redis.bucket (c.fault.run s.redis _).1 = _
  rw [Fault.run] at hr ⊢
  split
  · rfl
  rename_i hfault
  rw [if_neg hfault] at hr
  have htook := hu.took
  have hgave := hu.gave
  cases cmd with
  | setLock d token ttl => simp only [RedisCmd.exec]; split <;> rfl
  | evalReleaseLock d token => simp only [RedisCmd.exec]; split <;> rfl
  | setProbe ep ttl => simp only [RedisCmd.exec]; split <;> rfl
  | evalTokenBucket ep max ttl =>
    rw [hr, Fault.answer] at htook
    split at htook
    · exact congrArg Redis.bucket (exec_exhausted (Bool.or_eq_false_iff.mp htook).2)
    · cases htook
  | hincrbyTokens ep => cases hgave
  | hsetTokens ep n => cases hgave
  | expireTokens ep ttl => cases hgave
  | _ => rfl

/-- **A call that leaves its processor unused** leaves the database, the breaker and the buckets as
they are. -/
theorem Advance.inert (h : Advance s s' t c th e r k w m)
    (hu : (th.passage.next e r).Unused) :
    s'.pg = s.pg ∧ s'.redis.fails = s.redis.fails ∧ s'.redis.opened = s.redis.opened ∧
      s'.redis.bucket = s.redis.bucket := by
  have hnotes : e.writesBreaker = false := by
    have hnoted := hu.noted
    rw [(th.passage.next_counts r).2.2] at hnoted
    exact (Bool.or_eq_false_iff.mp hnoted).1
  obtain ⟨hfails, hopened⟩ := h.breaker hnotes
  have hrest : s'.pg = s.pg ∧ s'.redis.bucket = s.redis.bucket := by
    by_cases hredis : ∃ cmd, e = .redis cmd
    · obtain ⟨cmd, rfl⟩ := hredis
      refine ⟨?_, h.bucket hu⟩
      rw [h.world, (perform_redis h.done).1]
    refine ⟨?_, by rw [h.world, (perform_now h.done).2 fun cmd hc => hredis ⟨cmd, hc⟩]⟩
    by_cases hsql : ∃ q, e = .sql q
    · obtain ⟨q, rfl⟩ := hsql
      obtain ⟨pg', sess', hex, hw, -⟩ := perform_sql h.done
      rw [h.world, hw]
      have hwrote := hu.wrote
      cases q with
      | selectForDelivery d =>
        cases hex
        rfl
      | commit => cases r <;> cases hwrote
      | _ => cases hwrote
    · rw [h.world, (perform_other (fun q hq => hsql ⟨q, hq⟩) h.done).1]
  exact ⟨hrest.1, hfails, hopened, hrest.2⟩

end Call

/-! ## Who may hold a lock -/

/-- A lock is stored for an execution that there is, and for a processor only of its own delivery and
while its passage says so. -/
def Leased (s : State) : Prop :=
  ∀ d u, s.redis.lockAt s.now d = some u → u < s.threads.length ∧
    ∀ th, s.live? u = some th → ∃ job, th.kind = .deliver job ∧ d = job.text ∧
      th.passage.mayHold = true

/-- A SET that stored the lock says so, or was not answered. -/
theorem mayHold_setLock {w : World} {m : Memory} {c : Choice} {ttl : ℕ} {r : Except Err Bool}
    {k : Except Err Bool → Code Reply}
    (h : Advance s s' t c th (.redis (.setLock d t ttl)) r k w m)
    (hold : s.redis.lockAt s.now d ≠ some t) (hnew : s'.redis.lockAt s'.now d = some t) :
    (th.passage.next (.redis (.setLock d t ttl)) r).mayHold = true := by
  obtain ⟨hnow, hturn⟩ := h.lock d
  cases hturn with
  | same hsame =>
    rw [hnow, lockAt_congr hsame] at hnew
    exact absurd hnew hold
  | set he hfree h' =>
    have hr := (perform_redis h.done).2
    have hexec : (RedisCmd.exec s.now s.redis (.setLock d t ttl)).2 = true := by
      rw [RedisCmd.exec, if_pos hfree]
    rw [Fault.run] at hr
    split at hr
    · rw [hr]
      rfl
    · rw [hr, Fault.answer]
      split
      · exact hexec
      · rfl
  | freed he => cases he

theorem lockAt_released {w : World} {m : Memory} {c : Choice} {r : Bool}
    {k : Except Err Bool → Code Reply}
    (h : Advance s s' t c th (.redis (.evalReleaseLock d t)) (.ok r) k w m) :
    s'.redis.lockAt s'.now d ≠ some t := by
  obtain ⟨hw, hr⟩ := perform_redis h.done
  have hfault : c.fault ≠ .before := by
    intro hb
    rw [Fault.run, if_pos hb] at hr
    cases hr
  rw [h.world, hw]
  change Redis.lockAt (c.fault.run s.redis _).1 s.now d ≠ some t
  rw [Fault.run, if_neg hfault, RedisCmd.exec]
  split
  · intro hown
    obtain ⟨exp, hl, -⟩ := Redis.lockAt_eq_some.mp hown
    have hl : Function.update s.redis.lock d none d = _ := hl
    rw [Function.update_self] at hl
    cases hl
  · assumption

/-- Only the calls of the lock change what a passage says about it. -/
theorem Passage.next_mayHold {m : Passage} {e : Eff} (r : e.Resp) :
    (m.next e r).mayHold = m.mayHold ∨ (∃ d token ttl, e = .redis (.setLock d token ttl)) ∨
      ∃ d token b, (⟨e, r⟩ : Event) = ⟨.redis (.evalReleaseLock d token), .ok b⟩ := by
  cases e with
  | sql q =>
    cases q with
    | selectForDelivery d => exact Or.inl rfl
    | commit => cases r <;> exact Or.inl rfl
    | _ => exact Or.inl rfl
  | redis c =>
    cases c with
    | setLock d token ttl => exact Or.inr (Or.inl ⟨d, token, ttl, rfl⟩)
    | evalReleaseLock d token =>
      cases r with
      | ok b => exact Or.inr (Or.inr ⟨d, token, b, rfl⟩)
      | error y => exact Or.inl rfl
    | setProbe ep ttl => cases r <;> exact Or.inl rfl
    | evalTokenBucket ep max ttl => cases r <;> exact Or.inl rfl
    | _ => exact Or.inl rfl
  | _ => exact Or.inl rfl

theorem Leased.step (hs : s.Ok) (hpass : Passing s) (h : step env s l = some s') (hI : Leased s) :
    Leased s' := by
  intro d u hown
  have hlen : ∀ x < s.threads.length, x < s'.threads.length := by
    intro x hx
    obtain ⟨th', hth', -⟩ := step_continues h x _ (List.getElem?_eq_getElem hx)
    exact (List.getElem?_eq_some_iff.mp hth').1
  rcases lock_came hs h hown with hold | ⟨c, th, ttl, k, rfl, hlive, hp⟩
  · obtain ⟨hlt, hpassage⟩ := hI d u hold
    refine ⟨hlen u hlt, fun th' hu => ?_⟩
    cases step_arises h hu with
    | @called c th e r k w m hl hadv hth =>
      subst hl hth
      obtain ⟨job, hk, hd, hmay⟩ := hpassage th hadv.live
      refine ⟨job, hk, hd, ?_⟩
      change (th.passage.next e r).mayHold = true
      rcases Passage.next_mayHold r with hsame | ⟨d', token, ttl, rfl⟩ | ⟨d', token, b, hev⟩
      · exact hsame.trans hmay
      · have hsafe := (hpass u th job hadv.live hk).safe
        rw [hadv.prog] at hsafe
        exact absurd (hsafe.1.1.symm.trans hmay) Bool.false_ne_true
      · cases hev
        obtain ⟨job', hk', hd', rfl, -⟩ := (hs.threads u th hadv.live).permits hadv.prog
        obtain rfl := Kind.deliver.inj (hk.symm.trans hk')
        rw [← hd'] at hd
        subst hd
        exact absurd hown (lockAt_released hadv)
    | @kept th _ hlive hkept =>
      obtain ⟨job, hk, hd, hmay⟩ := hpassage th hlive
      refine ⟨job, hkept.kind.trans hk, hd, ?_⟩
      rw [show th'.passage = th.passage from congrArg passage hkept.trace]
      exact hmay
    | fresh hge => exact absurd hlt (Nat.not_lt_of_le hge)
  · refine ⟨hlen u (State.live?_lt hlive), fun th' hu => ?_⟩
    obtain ⟨th₁, e, r, k₁, w, m, hadv⟩ := stepOp_cases h
    rw [hadv.live?_self] at hu
    cases hu
    obtain rfl : th₁ = th := Option.some.inj (hadv.live.symm.trans hlive)
    have hprog := hadv.prog
    rw [hp] at hprog
    cases hprog
    obtain ⟨job, hk, hd, -⟩ := (hs.threads u th₁ hlive).permits hp
    have hsafe := (hpass u th₁ job hlive hk).safe
    rw [hp] at hsafe
    refine ⟨job, hk, hd, mayHold_setLock hadv (fun hold => ?_) hown⟩
    obtain ⟨-, -, -, hmay⟩ := (hI d u hold).2 th₁ hlive
    exact absurd (hsafe.1.1.symm.trans hmay) Bool.false_ne_true

theorem reachable_leased (h : Reachable env C s) : Leased s := by
  have hinv : Reachable env C s ∧ Leased s := by
    obtain ⟨ls, h⟩ := h
    refine h.invariant (I := fun s => Reachable env C s ∧ Leased s) ?_ ⟨.refl _, nofun⟩
    rintro s l s' ⟨hr, hI⟩ hC hstep
    exact ⟨hr.snoc hC hstep, hI.step (reachable_ok hr) (reachable_passing hr) hstep⟩
  exact hinv.2

/-! ## Delayed executions -/

/-- The steps of execution `t`: its calls and its heartbeat. -/
inductive Label.Of (t : Tid) : Label → Prop where
  | op (c : Choice) : Of t (.op t c)
  | extend : Of t (.extend t)
  | extendReply : Of t (.extendReply t)

/-- **A delayed pickup is no delivery event.** An execution that ends with BullMQ's `DelayedError` has
sent no request and holds neither a lock nor a token; and none of its steps changed the database, the
breaker's counters, a bucket or a lock of another execution. -/
theorem delayed_inert (h : Reachable env C v) (ht : v.live? t = some th)
    (hk : th.kind = .deliver job) (hp : th.prog = .raise .delayed) :
    (∀ ev ∈ th.trace, ev.1.isRequest = false) ∧ (∀ d, v.redis.lockAt v.now d ≠ some t) ∧
      (∀ ep, th.token ep = false) ∧
        ∀ s s' l ls, Reachable env C s → Label.Of t l → step env s l = some s' →
          Run (step env) C s' ls v →
            s'.pg = s.pg ∧ s'.redis.fails = s.redis.fails ∧ s'.redis.opened = s.redis.opened ∧
              s'.redis.bucket = s.redis.bucket ∧
                ∀ d u, u ≠ t → s.redis.lockAt s.now d = some u →
                  s'.redis.lockAt s'.now d = some u := by
  have hend : ∀ e k, th.prog ≠ .op e k := fun e k hop => by cases hp.symm.trans hop
  obtain ⟨hunused, hmay⟩ := ((reachable_passing h).ends ht hk hend).2 hp
  refine ⟨fun ev hev => ?_, fun d hown => ?_, unused_token hunused, ?_⟩
  · have hzero := (passage_counts th.trace).1.symm.trans hunused.sent
    simpa using List.countP_eq_zero.mp hzero ev hev
  · obtain ⟨-, -, -, hholds⟩ := (reachable_leased h d t hown).2 th ht
    exact absurd (hmay.symm.trans hholds) Bool.false_ne_true
  · intro s s' l ls hr hof hstep hrun
    -- the heartbeat of an unused execution has not begun
    have hquiet : ∀ th₁ th₂, s.live? t = some th₁ → s'.live? t = some th₂ → th₂.kind = th₁.kind →
        th₂.trace = th₁.trace → th₁.mem.heartbeat = false ∧ th₁.mem.extending = [] := by
      intro th₁ th₂ hlive hlive' hkind htrace
      obtain ⟨hk₂, hsuf⟩ := run_trace hrun hlive' ht
      have hpass := reachable_passing hr t th₁ job hlive (hkind.symm.trans (hk₂.symm.trans hk))
      obtain ⟨hbeat, -, hext⟩ := hpass.before (unused_suffix (htrace ▸ hsuf) hunused).begun
      exact ⟨hpass.beat.trans hbeat, hext⟩
    cases hof with
    | op c =>
      obtain ⟨th₁, e, r, k, w, m, hadv⟩ := stepOp_cases hstep
      obtain ⟨hpg, hfails, hopened, hbucket⟩ :=
        hadv.inert (unused_suffix (hadv.in_trace hrun ht) hunused)
      refine ⟨hpg, hfails, hopened, hbucket, fun d u hut hown => ?_⟩
      rcases lock_stays (reachable_ok hr) hstep hown with hstays | hfrees
      · exact hstays
      · cases hfrees
        exact absurd rfl hut
    | extend =>
      obtain ⟨th₁, job₁, hlive, -, hbeat, -, -, hth⟩ := extend_mem hstep
      have hnot := (hquiet th₁ _ hlive ((hth t).trans (if_pos rfl)) rfl rfl).1
      exact absurd (hnot.symm.trans hbeat) Bool.false_ne_true
    | extendReply =>
      obtain ⟨th₁, held, rest, hlive, hnext, -, hth⟩ := extendReply_mem hstep
      have hnone := (hquiet th₁ _ hlive ((hth t).trans (if_pos rfl)) rfl rfl).2
      cases hnext.symm.trans hnone

/-- The execution is a processor that has ended with BullMQ's `DelayedError`. -/
def Thread.delayed (th : Thread) : Bool :=
  match th.kind, th.prog with
  | .deliver _, .raise .delayed => true
  | _, _ => false

theorem Thread.delayed_eq_true (h : th.delayed = true) :
    ∃ job, th.kind = .deliver job ∧ th.prog = .raise .delayed := by
  unfold Thread.delayed at h
  split at h
  · rename_i job hk hp
    exact ⟨job, hk, hp⟩
  · cases h

theorem delayed_inert_inactive : ∃ v th, Reachable sampleEnv (fun _ _ => True) v ∧
    v.live? 1 = some th ∧ th.prog = .raise .delayed ∧ v.redis.lockAt v.now 2 ≠ some 1 ∧
      th.token 0 = false ∧ ∀ ev ∈ th.trace, ev.1.isRequest = false := by
  obtain ⟨v, hreach, hv⟩ := sample_run (C := fun _ _ => True)
    (sampleIngest ++ .patchEndpoint 0 (some false) none :: .pickup (.delivery 2) :: calls 1 5)
    (fun v => (v.live? 1).any Thread.delayed) (by decide +kernel)
  obtain ⟨th, ht, hth⟩ := (Option.any_eq_true _ _).mp hv
  obtain ⟨job, hk, hp⟩ := Thread.delayed_eq_true hth
  obtain ⟨hnone, hlock, htoken, -⟩ := delayed_inert hreach ht hk hp
  exact ⟨v, th, hreach, ht, hp, hlock 2, htoken 0, hnone⟩

end WebhookEngine
