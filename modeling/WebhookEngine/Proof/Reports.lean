import WebhookEngine.Proof.Pipeline

set_option autoImplicit false

/-!
# What a processor tells the breaker

`checkState` hands out the probe before the bucket step and the transition to DELIVERING, and the
bookkeeping after the request goes by its verdict.

* `passage_counts`: the counters of a passage, from the calls.
* `run_trace`: every call of an execution is in its trace later on.
* **`probe_reported_iff`**: who won the probe sends one request and reports it exactly if it got a
  token and its transition was committed.
* **`lock_lost_spares_iff`**: who found its lock lost has left the breaker's counters alone exactly if
  it had not won the probe.
-/

namespace WebhookEngine

open EffectProg TransitionSystem

variable {env : Env} {C : State → Label → Prop} {s s' v : State} {l : Label} {t : Tid}
  {th th' : Thread} {job : JobRef}

/-! ## Calls counted -/

def Eff.isRequest : Eff → Bool
  | .httpStart _ => true
  | _ => false

/-- The first command of `onProbeResult`; in an execution that won the probe nothing else sends it. -/
def Eff.isReport : Eff → Bool
  | .redis (.setOpen _ _) => true
  | .redis (.delFailsProbe _) => true
  | _ => false

/-- The commands that write `:fails` or `:open`. -/
def Eff.writesBreaker : Eff → Bool
  | .redis (.incrFails _) => true
  | .redis (.expireFails _ _) => true
  | .redis (.setOpen _ _) => true
  | .redis (.delFailsProbe _) => true
  | _ => false

theorem Passage.next_counts (m : Passage) {e : Eff} (r : e.Resp) :
    (m.next e r).sent = m.sent + e.isRequest.toNat ∧
      (m.next e r).reports = m.reports + e.isReport.toNat ∧
        (m.next e r).noted = (e.writesBreaker || m.noted) := by
  cases e with
  | sql q =>
    cases q with
    | selectForDelivery d => exact ⟨rfl, rfl, rfl⟩
    | commit => cases r <;> exact ⟨rfl, rfl, rfl⟩
    | _ => exact ⟨rfl, rfl, rfl⟩
  | redis c =>
    cases c with
    | setLock d token ttl => cases r <;> exact ⟨rfl, rfl, rfl⟩
    | evalReleaseLock d token => cases r <;> exact ⟨rfl, rfl, rfl⟩
    | setProbe ep ttl => cases r <;> exact ⟨rfl, rfl, rfl⟩
    | evalTokenBucket ep max ttl => cases r <;> exact ⟨rfl, rfl, rfl⟩
    | _ => exact ⟨rfl, rfl, rfl⟩
  | _ => exact ⟨rfl, rfl, rfl⟩

theorem passage_counts (tr : List Event) :
    (passage tr).sent = tr.countP (·.1.isRequest) ∧ (passage tr).reports = tr.countP (·.1.isReport) ∧
      (passage tr).noted = tr.any (·.1.writesBreaker) := by
  induction tr with
  | nil => exact ⟨rfl, rfl, rfl⟩
  | cons ev tr ih =>
    obtain ⟨hsent, hreports, hnoted⟩ := (passage tr).next_counts ev.2
    refine ⟨?_, ?_, ?_⟩
    · rw [passage, hsent, ih.1, List.countP_cons]
      cases ev.1.isRequest <;> rfl
    · rw [passage, hreports, ih.2.1, List.countP_cons]
      cases ev.1.isReport <;> rfl
    · rw [passage, hnoted, ih.2.2, List.any_cons]

theorem Passing.ends (hI : Passing s) (ht : s.live? t = some th) (hk : th.kind = .deliver job)
    (hend : ∀ e k, th.prog ≠ .op e k) : th.passage.Told ∧
      (th.prog = .raise .delayed → th.passage.Unused ∧ th.passage.mayHold = false) := by
  have hsafe := (hI t th job ht hk).safe
  cases hp : th.prog with
  | ret a =>
    rw [hp] at hsafe
    exact ⟨hsafe.told, nofun⟩
  | raise x =>
    rw [hp] at hsafe
    exact ⟨hsafe.told, fun hx => hsafe.delayed (congrArg _ (Prog.raise.inj hx))⟩
  | op e k => exact absurd hp (hend e k)

/-- **Every probe won is used and reported, if a token was granted and the transition committed**:
exactly then the processor sends one request and calls `onProbeResult` once before it ends. -/
theorem probe_reported_iff (h : Reachable env C s) (ht : s.live? t = some th)
    (hk : th.kind = .deliver job) (hend : ∀ e k, th.prog ≠ .op e k)
    (hwon : th.passage.won = true) :
    (th.trace.countP (·.1.isRequest) = 1 ∧ th.trace.countP (·.1.isReport) = 1) ↔
      th.passage.granted = true ∧ th.passage.marked = true := by
  obtain ⟨htold, -⟩ := (reachable_passing h).ends ht hk hend
  obtain ⟨hsent, hreports, -⟩ := passage_counts th.trace
  rw [← hsent, ← hreports]
  have hprobe := htold.probe hwon
  constructor
  · rintro ⟨hone, -⟩
    by_contra hnot
    rw [if_neg hnot] at hprobe
    exact absurd (hprobe.symm.trans hone) (by decide)
  · intro hready
    rw [if_pos hready] at hprobe
    exact hprobe

theorem touchy_run (ls : List Label) (p : State → Bool)
    (h : (runOf (step touchyEnv) (fun _ _ => True) {} ls).any p = true) :
    ∃ s, Reachable touchyEnv (fun _ _ => True) s ∧ p s = true := computed_run touchyEnv ls p h

/-- A delivery gets the answer 500, which opens the breaker; when it is no longer open, execution 3
picks the delivery up and wins the probe. -/
def sampleTrial : List Label :=
  sampleIngest ++ .pickup (.delivery 2) :: calls 1 34 { reply := .response 500 "" } ++
    [.settle 1, .tick 60000, .pickup (.delivery 2)] ++ calls 3 5

/-- The execution is a processor that has ended and had won the probe. -/
def Thread.probed (th : Thread) : Bool :=
  match th.kind, th.prog with
  | .deliver _, .ret _ => th.passage.won
  | .deliver _, .raise _ => th.passage.won
  | _, _ => false

theorem Thread.probed_eq_true (h : th.probed = true) : ∃ job, th.kind = .deliver job ∧
    (∀ e k, th.prog ≠ .op e k) ∧ th.passage.won = true := by
  unfold Thread.probed at h
  split at h
  · rename_i job a hk hp
    refine ⟨job, hk, fun e k hop => ?_, h⟩
    cases hp.symm.trans hop
  · rename_i job x hk hp
    refine ⟨job, hk, fun e k hop => ?_, h⟩
    cases hp.symm.trans hop
  · cases h

theorem probe_reported_success : ∃ s th, Reachable touchyEnv (fun _ _ => True) s ∧
    s.live? 3 = some th ∧ th.passage.won = true ∧ th.trace.countP (·.1.isRequest) = 1 ∧
      th.trace.countP (·.1.isReport) = 1 := by
  obtain ⟨s, hreach, hs⟩ := touchy_run (sampleTrial ++ calls 3 28)
    (fun s => (s.live? 3).any fun th => th.probed && (th.passage.granted && th.passage.marked))
    (by decide +kernel)
  obtain ⟨th, ht, hth⟩ := (Option.any_eq_true _ _).mp hs
  obtain ⟨hprobed, hready⟩ := Bool.and_eq_true_iff.mp hth
  obtain ⟨job, hk, hend, hwon⟩ := Thread.probed_eq_true hprobed
  exact ⟨s, th, hreach, ht, hwon,
    (probe_reported_iff hreach ht hk hend hwon).mpr (Bool.and_eq_true_iff.mp hready)⟩

/-- The bucket script is not answered, and the probe is neither used nor reported. -/
theorem probe_wasted : ¬ ∀ s t th job, Reachable touchyEnv (fun _ _ => True) s →
    s.live? t = some th → th.kind = .deliver job → (∀ e k, th.prog ≠ .op e k) →
      th.passage.won = true →
        th.trace.countP (·.1.isRequest) = 1 ∧ th.trace.countP (·.1.isReport) = 1 := by
  intro h
  obtain ⟨s, hreach, hs⟩ := touchy_run (sampleTrial ++ .op 3 { fault := .before } :: calls 3 1)
    (fun s => (s.live? 3).any fun th => th.probed && th.trace.countP (·.1.isRequest) = 0)
    (by decide +kernel)
  obtain ⟨th, ht, hth⟩ := (Option.any_eq_true _ _).mp hs
  obtain ⟨hprobed, hnone⟩ := Bool.and_eq_true_iff.mp hth
  obtain ⟨job, hk, hend, hwon⟩ := Thread.probed_eq_true hprobed
  have hone := (h s 3 th job hreach ht hk hend hwon).1
  rw [of_decide_eq_true hnone] at hone
  cases hone

/-! ## A lost lock -/

theorem Advance.breaker {c : Choice} {e : Eff} {r : e.Resp} {k : e.Resp → Code Reply} {w : World}
    {m : Memory} (h : Advance s s' t c th e r k w m) (he : e.writesBreaker = false) :
    s'.redis.fails = s.redis.fails ∧ s'.redis.opened = s.redis.opened := by
  rw [h.world]
  by_cases hr : ∃ cmd, e = .redis cmd
  · obtain ⟨cmd, rfl⟩ := hr
    rw [(perform_redis h.done).1]
    change Redis.fails (c.fault.run _ _).1 = _ ∧ Redis.opened (c.fault.run _ _).1 = _
    rw [Fault.run]
    split
    · exact ⟨rfl, rfl⟩
    · cases cmd with
      | setLock d token ttl => simp only [RedisCmd.exec]; split <;> exact ⟨rfl, rfl⟩
      | evalReleaseLock d token => simp only [RedisCmd.exec]; split <;> exact ⟨rfl, rfl⟩
      | setProbe ep ttl => simp only [RedisCmd.exec]; split <;> exact ⟨rfl, rfl⟩
      | evalTokenBucket ep max ttl => simp only [RedisCmd.exec]; split <;> exact ⟨rfl, rfl⟩
      | incrFails ep => cases he
      | expireFails ep ttl => cases he
      | setOpen ep ttl => cases he
      | delFailsProbe ep => cases he
      | _ => exact ⟨rfl, rfl⟩
  · have hsame : w.redis = s.redis := (perform_now h.done).2 fun cmd hc => hr ⟨cmd, hc⟩
    exact ⟨by rw [hsame], by rw [hsame]⟩

/-- Along a run the trace of an execution grows at its front. -/
theorem run_trace {ls : List Label} (h : Run (step env) C s ls v) (ht : s.live? t = some th)
    (hv : v.live? t = some th') : th'.kind = th.kind ∧ th.trace <:+ th'.trace := by
  have hgrow : Continues s.threads v.threads := by
    clear ht hv
    induction h with
    | nil => exact .refl _
    | cons hC hstep _ ih =>
      intro u th hu
      obtain ⟨th₁, hu₁, hk₁, hsuf₁⟩ := step_continues hstep u th hu
      obtain ⟨th₂, hu₂, hk₂, hsuf₂⟩ := ih u th₁ hu₁
      exact ⟨th₂, hu₂, hk₂.trans hk₁, hsuf₁.trans hsuf₂⟩
  obtain ⟨th₁, ht₁, hk, hsuf⟩ := hgrow t th (State.live?_eq_some.mp ht).1
  obtain rfl := Option.some.inj (ht₁.symm.trans (State.live?_eq_some.mp hv).1)
  exact ⟨hk, hsuf⟩

theorem Advance.in_trace {c : Choice} {e : Eff} {r : e.Resp} {k : e.Resp → Code Reply} {w : World}
    {m : Memory} (h : Advance s s' t c th e r k w m) {ls : List Label}
    (hrun : Run (step env) C s' ls v) (hv : v.live? t = some th') :
    (⟨e, r⟩ :: th.trace : List Event) <:+ th'.trace :=
  (run_trace hrun h.live?_self hv).2

/-- **Who found its lock lost has not written the breaker's counters, if it had not won the probe**:
exactly then it has sent no command that writes `:fails` or `:open`, and none of its steps changed
them. -/
theorem lock_lost_spares_iff (h : Reachable env C s) (ht : s.live? t = some th)
    (hk : th.kind = .deliver job) (hend : ∀ e k, th.prog ≠ .op e k)
    (hlost : th.passage.lost = some true) :
    ((∀ ev ∈ th.trace, ev.1.writesBreaker = false) ↔ th.passage.won = false) ∧
      (th.passage.won = false → ∀ s₁ s₂ c ls, step env s₁ (.op t c) = some s₂ →
        Run (step env) C s₂ ls s →
          s₂.redis.fails = s₁.redis.fails ∧ s₂.redis.opened = s₁.redis.opened) := by
  obtain ⟨htold, -⟩ := (reachable_passing h).ends ht hk hend
  have hnoted : th.trace.any (·.1.writesBreaker) = th.passage.won :=
    (passage_counts th.trace).2.2.symm.trans (htold.lost hlost)
  have hiff : (∀ ev ∈ th.trace, ev.1.writesBreaker = false) ↔ th.passage.won = false := by
    rw [← hnoted, List.any_eq_false]
    exact forall₂_congr fun ev _ => (Bool.not_eq_true _).symm.to_iff
  refine ⟨hiff, fun hwon s₁ s₂ c ls hstep hrun => ?_⟩
  obtain ⟨th₁, e, r, k, w, m, hadv⟩ := stepOp_cases hstep
  exact hadv.breaker (hiff.mpr hwon ⟨e, r⟩ ((hadv.in_trace hrun ht).mem List.mem_cons_self))

/-- The execution is a processor that has ended and had found its lock lost. -/
def Thread.dropped (th : Thread) : Bool :=
  match th.kind, th.prog with
  | .deliver _, .raise _ => th.passage.lost = some true
  | _, _ => false

theorem Thread.dropped_eq_true (h : th.dropped = true) : ∃ job, th.kind = .deliver job ∧
    (∀ e k, th.prog ≠ .op e k) ∧ th.passage.lost = some true := by
  unfold Thread.dropped at h
  split at h
  · rename_i job x hk hp
    refine ⟨job, hk, fun e k hop => ?_, of_decide_eq_true h⟩
    cases hp.symm.trans hop
  · cases h

/-- Execution `t` goes on from `n` calls to the end; its lock is lost while the heartbeat runs. -/
def sampleDropped (t : Tid) (n : ℕ) : List Label :=
  calls t 9 ++ [.evict (.lock 2), .extend t, .extendReply t] ++ calls t n

theorem lock_lost_spares_closed : ∃ s th, Reachable touchyEnv (fun _ _ => True) s ∧
    s.live? 1 = some th ∧ th.passage.lost = some true ∧
      ∀ ev ∈ th.trace, ev.1.writesBreaker = false := by
  obtain ⟨s, hreach, hs⟩ := touchy_run
    (sampleIngest ++ .pickup (.delivery 2) :: calls 1 4 ++ sampleDropped 1 18)
    (fun s => (s.live? 1).any fun th => th.dropped && !th.passage.won) (by decide +kernel)
  obtain ⟨th, ht, hth⟩ := (Option.any_eq_true _ _).mp hs
  obtain ⟨hdropped, hwon⟩ := Bool.and_eq_true_iff.mp hth
  obtain ⟨job, hk, hend, hlost⟩ := Thread.dropped_eq_true hdropped
  exact ⟨s, th, hreach, ht, hlost,
    (lock_lost_spares_iff hreach ht hk hend hlost).1.mpr (by simpa using hwon)⟩

/-- The lock of the prober is lost, and the breaker opens again. -/
theorem lock_lost_opens : ¬ ∀ s t th job, Reachable touchyEnv (fun _ _ => True) s →
    s.live? t = some th → th.kind = .deliver job → (∀ e k, th.prog ≠ .op e k) →
      th.passage.lost = some true → ∀ ev ∈ th.trace, ev.1.writesBreaker = false := by
  intro h
  obtain ⟨s, hreach, hs⟩ := touchy_run (sampleTrial ++ sampleDropped 3 20)
    (fun s => (s.live? 3).any fun th => th.dropped && th.trace.any (·.1.writesBreaker))
    (by decide +kernel)
  obtain ⟨th, ht, hth⟩ := (Option.any_eq_true _ _).mp hs
  obtain ⟨hdropped, hwrote⟩ := Bool.and_eq_true_iff.mp hth
  obtain ⟨job, hk, hend, hlost⟩ := Thread.dropped_eq_true hdropped
  obtain ⟨ev, hev, hwrites⟩ := List.any_eq_true.mp hwrote
  rw [h s 3 th job hreach ht hk hend hlost ev hev] at hwrites
  cases hwrites

end WebhookEngine
