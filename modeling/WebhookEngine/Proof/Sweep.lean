import WebhookEngine.Proof.History
import WebhookEngine.Proof.Queue

set_option autoImplicit false

/-!
# The reconciler sweep

`claimUnenqueued` adds a job under the id of the delivery for every row it selected. Whether the `add`
makes a job depends on what the queue remembers under that id.

* `Adds`, `Spares`, `SweepsWell`: no sweep adds under the id of a job that is over while the delivery
  has no live job, and no step ends the last live job of a delivery between the `add` for it and the
  COMMIT of the sweep.
* `Swept`, `reachable_swept`: under `SweepsWell` what an open sweep has added has a live job.
* **`sweep_recovers`**: the sweep then recovers all that it claims.
* **`sweep_not_recovered`**: a job that failed for good and whose handler could not write DLQ leaves a
  PENDING delivery that the sweep claims in vain.
-/

namespace WebhookEngine

open EffectProg TransitionSystem

variable {env : Env} {s s' : State} {l : Label} {t u : Tid} {th th' : Thread} {d : DeliveryId}

instance (k : Kind) : Decidable k.claims :=
  match k with
  | .sweep => .isTrue (Or.inl rfl)
  | .repoCall (.claimUnenqueued limit) => .isTrue (Or.inr ⟨limit, rfl⟩)
  | .deliver _ | .failed _ | .postEvent _ | .postRetry _ | .repoCall (.transition _ _ _ _ _)
  | .repoCall (.recordAttempt _) | .repoCall (.retryFromDlq _) | .repoCall (.enqueueDelivery _)
  | .repoCall (.ingestEvent _) => .isFalse (by rintro (h | ⟨_, h⟩) <;> cases h)

/-- The `add` that is the next call of a sweep. -/
def Thread.adding (th : Thread) : Option (JobId × DeliveryId) :=
  match th.prog with
  | .op (.queueAdd id d) _ => if th.kind.claims then some (id, d) else none
  | _ => none

/-- What a sweep has added in the transaction that is open. -/
def Thread.sweeping (th : Thread) : List DeliveryId :=
  if th.kind.claims ∧ th.facts.tx.isSome then th.facts.added else []

/-- An `add` of a sweep makes a job, or the delivery has a live one. -/
def Adds (s : State) : Label → Prop
  | .op t _ => ∀ x ∈ (s.live? t).bind Thread.adding,
      s.jobs.job? x.1 = none ∨ s.jobs.hasLive x.2 = true
  | _ => True

instance (s : State) : (l : Label) → Decidable (Adds s l)
  | .op t _ => inferInstanceAs (Decidable (∀ x ∈ (s.live? t).bind Thread.adding, _))
  | .tick _ | .settle _ | .crash _ | .extend _ | .extendReply _ | .request _ | .pickup _ | .stall _
  | .stallFail _ | .removeCompleted _ | .operatorAdd _ _ | .evict _ | .idemArrive _ | .redisLoss
  | .createEndpoint _ _ _ | .patchEndpoint _ _ _ => inferInstanceAs (Decidable True)

/-- The job that ends is not the last live one of a delivery an open sweep has added. -/
def Spares (env : Env) (s : State) (l : Label) : Prop :=
  ∀ id ∈ s.ending env l, ∀ u < s.threads.length, ∀ th ∈ s.live? u, ∀ d ∈ th.sweeping,
    ∃ j ∈ s.jobs, j.live = true ∧ j.deliveryId = d ∧ j.id ≠ id

instance (env : Env) (s : State) (l : Label) : Decidable (Spares env s l) :=
  inferInstanceAs (Decidable (∀ id ∈ s.ending env l, ∀ u < s.threads.length, _))

/-- Redis is not lost. -/
def NoLoss (_ : State) : Label → Prop
  | .redisLoss => False
  | _ => True

instance (s : State) : (l : Label) → Decidable (NoLoss s l)
  | .redisLoss => inferInstanceAs (Decidable False)
  | .tick _ | .op _ _ | .settle _ | .crash _ | .extend _ | .extendReply _ | .request _ | .pickup _
  | .stall _ | .stallFail _ | .removeCompleted _ | .operatorAdd _ _ | .evict _ | .idemArrive _
  | .createEndpoint _ _ _ | .patchEndpoint _ _ _ => inferInstanceAs (Decidable True)

theorem NoLoss.ne (h : NoLoss s l) : l ≠ .redisLoss := by
  rintro rfl
  exact h

/-- Redis is not lost, the adds of the sweeps do something, and what they added is spared. -/
def SweepsWell (env : Env) (s : State) (l : Label) : Prop := NoLoss s l ∧ Adds s l ∧ Spares env s l

instance (env : Env) (s : State) (l : Label) : Decidable (SweepsWell env s l) :=
  inferInstanceAs (Decidable (_ ∧ _ ∧ _))

/-! ## What an open sweep has added -/

theorem Thread.mem_sweeping :
    d ∈ th.sweeping ↔ th.kind.claims ∧ th.facts.tx.isSome ∧ d ∈ th.facts.added := by
  unfold Thread.sweeping
  split
  · rename_i h
    exact ⟨fun hd => ⟨h.1, h.2, hd⟩, fun hd => hd.2.2⟩
  · rename_i h
    exact ⟨nofun, fun hd => absurd ⟨hd.1, hd.2.1⟩ h⟩

theorem Thread.mem_adding {id : JobId} {k : Except Err Unit → Code Reply}
    (hp : th.prog = .op (.queueAdd id d) k) (hk : th.kind.claims) : th.adding = some (id, d) := by
  rw [Thread.adding, hp]
  exact if_pos hk

/-- The deliveries of open sweeps have live jobs. -/
def Swept (s : State) : Prop :=
  ∀ u th, s.live? u = some th → ∀ d ∈ th.sweeping, s.jobs.hasLive d = true

theorem Swept.hasLive (hI : Swept s) (hjobs : s.jobs.Ok env) (hl : SweepsWell env s l)
    (h : step env s l = some s') (hu : s.live? u = some th) (hd : d ∈ th.sweeping) :
    s'.jobs.hasLive d = true := by
  obtain ⟨j, hj, hjd, hlive⟩ := Jobs.hasLive_iff.mp (hI u th hu d hd)
  by_cases he : Ends env s l j
  · obtain ⟨j', hj', hlive', hjd', hne⟩ :=
      hl.2.2 j.id he.ending u (State.live?_lt hu) th hu d hd
    refine hasLive_step hjobs h hj' hlive' hjd' (fun he' => hne ?_) hl.1.ne
    exact Option.some.inj (he'.ending.symm.trans he.ending)
  · exact hasLive_step hjobs h hj hlive hjd he hl.1.ne

theorem Jobs.hasLive_add {js : Jobs} {id : JobId} (h : js.job? id = none ∨ js.hasLive d = true) :
    (js.add id d).hasLive d = true := by
  rcases h with h | h
  · refine Jobs.hasLive_iff.mpr ⟨{ id := id, deliveryId := d }, ?_, rfl, rfl⟩
    rw [Jobs.add, h]
    exact List.mem_append_right _ List.mem_cons_self
  · obtain ⟨j, hj, hd, hlive⟩ := Jobs.hasLive_iff.mp h
    exact Jobs.hasLive_iff.mpr ⟨j, Jobs.mem_add_of_mem hj, hd, hlive⟩

/-- A sweep adds to an open transaction, whose BEGIN found nothing added. -/
theorem Facts.added_next {m : Facts} {e : Eff} {r : e.Resp} {k : Kind} (hp : permitsCall t k m e)
    (htx : (m.next e r).tx.isSome) (hd : d ∈ (m.next e r).added) :
    m.tx.isSome ∧ (d ∈ m.added ∨ ∃ id, e = .queueAdd id d) := by
  cases e with
  | queueAdd id d' =>
    cases r with
    | error x => exact ⟨htx, Or.inl hd⟩
    | ok a =>
      rcases List.mem_cons.mp hd with rfl | hd
      · exact ⟨htx, Or.inr ⟨id, rfl⟩⟩
      · exact ⟨htx, Or.inl hd⟩
  | sql q =>
    cases q with
    | begin =>
      cases r with
      | error x => exact ⟨htx, Or.inl hd⟩
      | ok a =>
        have hnil : m.added = [] := hp.added
        have hd : d ∈ m.added := hd
        rw [hnil] at hd
        cases hd
    | commit => cases r <;> cases htx
    | rollback => cases htx
    | write st =>
      match r with
      | .error x => exact ⟨htx, Or.inl hd⟩
      | .ok none => exact ⟨htx, Or.inl hd⟩
      | .ok (some g) => exact ⟨by simpa [Facts.next, Facts.nextSql] using htx, Or.inl hd⟩
    | _ => cases r <;> exact ⟨htx, Or.inl hd⟩
  | redis c =>
    cases c with
    | setLock d' token ttl => cases r <;> exact ⟨htx, Or.inl hd⟩
    | _ => exact ⟨htx, Or.inl hd⟩
  | _ => exact ⟨htx, Or.inl hd⟩

theorem Advance.hasLive {c : Choice} {id : JobId} {r : Except Err Unit}
    {k : Except Err Unit → Code Reply} {w : World} {m : Memory}
    (h : Advance s s' t c th (.queueAdd id d) r k w m) (hr : r = .ok ()) (hk : th.kind.claims)
    (hl : Adds s (.op t c)) : s'.jobs.hasLive d = true := by
  have hadd : s.jobs.job? id = none ∨ s.jobs.hasLive d = true := by
    refine hl (id, d) ?_
    rw [h.live, Option.bind_some, Thread.mem_adding h.prog hk]
    rfl
  have hjobs : w.jobs = s.jobs.add id d := by
    have hdone := h.done
    simp only [perform, Fault.run] at hdone
    split at hdone <;> cases hdone
    · cases hr
    · rfl
  rw [h.world, hjobs]
  exact Jobs.hasLive_add hadd

/-- **One step.** -/
theorem Swept.step (hI : Swept s) (hs : s.Ok) (hjobs : s.jobs.Ok env) (hl : SweepsWell env s l)
    (h : step env s l = some s') : Swept s' := by
  intro u th' hu d hd
  have hold : ∀ {th}, s.live? u = some th → d ∈ th.sweeping → s'.jobs.hasLive d = true :=
    fun hth hd => hI.hasLive hjobs hl h hth hd
  obtain ⟨hk, htx, hadded⟩ := Thread.mem_sweeping.mp hd
  cases step_arises h hu with
  | @called c th e r k w m hl' hadv hth =>
    subst hl' hth
    have hperm := (hs.threads u th hadv.live).permits hadv.prog
    obtain ⟨htx₀, hd₀ | ⟨id, rfl⟩⟩ := Facts.added_next hperm htx hadded
    · exact hold hadv.live (Thread.mem_sweeping.mpr ⟨hk, htx₀, hd₀⟩)
    · cases hr : r with
      | error x =>
        subst hr
        exact hold hadv.live (Thread.mem_sweeping.mpr ⟨hk, htx₀, hadded⟩)
      | ok a => exact hadv.hasLive hr hk hl.2.1
  | @kept th _ hlive hkept =>
    refine hold hlive (Thread.mem_sweeping.mpr ?_)
    have hf : th'.facts = th.facts := congrArg facts hkept.trace
    rw [← hkept.kind, ← hf]
    exact ⟨hk, htx, hadded⟩
  | fresh hlen hstart hth =>
    subst hth
    cases htx

theorem reachable_swept (h : Reachable env (SweepsWell env) s) : Swept s := by
  have hinv : Reachable env (SweepsWell env) s ∧ Swept s := by
    refine h.invariant (I := fun s => Reachable env (SweepsWell env) s ∧ Swept s)
      ⟨.refl _, fun u th hu => ?_⟩ ?_
    · simp [State.live?] at hu
    · rintro s l s' ⟨hr, hI⟩ hl hstep
      exact ⟨hr.snoc hl hstep, hI.step (reachable_ok hr) (reachable_jobs hr) hl hstep⟩
  exact hinv.2

/-- **The sweep recovers what it claims**: when it commits, every delivery that its SELECT answered
has a live job. -/
theorem sweep_recovers (h : Reachable env (SweepsWell env) s) (hth : Committing s t th)
    (hk : th.kind.claims) {c : Choice} (hstep : step env s (.op t c) = some s') :
    ∀ d ∈ th.facts.claimed, s'.jobs.hasLive d = true := by
  intro d hd
  have hs := reachable_ok h
  obtain ⟨k, hp⟩ := hth.prog
  obtain ⟨tx, htx, -, hall⟩ := (hs.threads t th hth.live).permits hp
  have hopen : th.facts.tx.isSome := hth.open_ hs
  obtain ⟨j, hj, hjd, hlive⟩ := Jobs.hasLive_iff.mp
    (reachable_swept h t th hth.live d (Thread.mem_sweeping.mpr ⟨hk, hopen, hall hk d hd⟩))
  exact hasLive_step (reachable_jobs h) hstep hj hlive hjd (fun he => nomatch he.ending) nofun

/-- The next call is a COMMIT. -/
def Thread.committing (th : Thread) : Bool :=
  match th.prog with
  | .op (.sql .commit) _ => true
  | _ => false

theorem Thread.committing_iff : th.committing = true ↔ ∃ k, th.prog = .op (.sql .commit) k := by
  unfold Thread.committing
  split
  · rename_i k hp
    exact ⟨fun _ => ⟨k, hp⟩, fun _ => rfl⟩
  · rename_i hp
    exact ⟨nofun, fun ⟨k, hk⟩ => absurd hk (hp k)⟩

/-- Execution `t` is a sweep that claimed the delivery 2 and is about to COMMIT. -/
def State.sweptBy (s : State) (t : Tid) : Bool :=
  (s.live? t).any fun th => th.committing ∧ th.kind.claims ∧ 2 ∈ th.facts.claimed

theorem State.sweptBy_iff : s.sweptBy t = true ↔
    ∃ th, Committing s t th ∧ th.kind.claims ∧ 2 ∈ th.facts.claimed := by
  rw [State.sweptBy, Option.any_eq_true]
  constructor
  · rintro ⟨th, hlive, hth⟩
    obtain ⟨hc, hk, hd⟩ := of_decide_eq_true hth
    exact ⟨th, ⟨hlive, Thread.committing_iff.mp hc⟩, hk, hd⟩
  · rintro ⟨th, hth, hk, hd⟩
    exact ⟨th, hth.live, decide_eq_true ⟨Thread.committing_iff.mpr hth.prog, hk, hd⟩⟩

/-- A sweep of execution `t`, up to its COMMIT, that finds the delivery 2 after more than a minute. -/
def sampleSweep (t : Tid) : List Label :=
  [.tick 60001, .request .sweep] ++ calls t 2 ++ [.op t { rows := [2] }] ++ calls t 2

/-- The `add` of the API failed and the sweep makes up for it. -/
theorem sweep_recovers_unenqueued : ∃ s s' th, Reachable sampleEnv (SweepsWell sampleEnv) s ∧
    Committing s 1 th ∧ th.kind.claims ∧ step sampleEnv s (.op 1 {}) = some s' ∧
      2 ∈ th.facts.claimed ∧ s'.jobs.hasLive 2 = true := by
  obtain ⟨s, hreach, hs⟩ := sample_run (C := SweepsWell sampleEnv)
    ([.createEndpoint "client" "url" "secret",
      .request (.postEvent ⟨some "key", 0, 0, "type", "payload"⟩)] ++ calls 0 10 ++
        [.op 0 { fault := .before }, .settle 0] ++ sampleSweep 1)
    (fun s => s.sweptBy 1 && (step sampleEnv s (.op 1 {})).isSome) (by decide +kernel)
  obtain ⟨hswept, hstep⟩ := Bool.and_eq_true_iff.mp hs
  obtain ⟨th, hth, hk, hd⟩ := State.sweptBy_iff.mp hswept
  obtain ⟨s', hstep⟩ := Option.isSome_iff_exists.mp hstep
  exact ⟨s, s', th, hreach, hth, hk, hstep, hd, sweep_recovers hreach hth hk hstep 2 hd⟩

/-- The engine alone, and Redis is not lost. -/
def Lossless (s : State) (l : Label) : Prop := NoCalls s l ∧ NoLoss s l

instance (s : State) (l : Label) : Decidable (Lossless s l) := inferInstanceAs (Decidable (_ ∧ _))

/-- Execution `t` picks the job up, and Redis does not answer its first call. -/
def sampleFailure (t : Tid) : List Label :=
  [.pickup (.delivery 2), .op t { fault := .before }, .settle t]

/-- The job fails for good before any worker could mark the delivery, the database call of its
handler throws, and the sweep finds the PENDING delivery. -/
def sampleExhausted : List Label :=
  sampleIngest ++ sampleFailure 1 ++ sampleFailure 3 ++ sampleFailure 5 ++ sampleFailure 7 ++
    sampleFailure 9 ++ [.op 10 { fault := .before }, .settle 10] ++ sampleSweep 11

theorem sweep_not_recovered : ¬ ∀ s s' t th c, Reachable sampleEnv Lossless s → Committing s t th →
    th.kind.claims → step sampleEnv s (.op t c) = some s' →
      ∀ d ∈ th.facts.claimed, s'.jobs.hasLive d = true := by
  intro h
  obtain ⟨s, hreach, hs⟩ := sample_run (C := Lossless) sampleExhausted
    (fun s => s.sweptBy 11 && (step sampleEnv s (.op 11 {})).any fun s' => !s'.jobs.hasLive 2)
    (by decide +kernel)
  obtain ⟨hswept, hstep⟩ := Bool.and_eq_true_iff.mp hs
  obtain ⟨th, hth, hk, hd⟩ := State.sweptBy_iff.mp hswept
  obtain ⟨s', hstep, hnone⟩ := (Option.any_eq_true _ _).mp hstep
  have hlive := h s s' 11 th {} hreach hth hk hstep 2 hd
  rw [hlive] at hnone
  cases hnone

end WebhookEngine
