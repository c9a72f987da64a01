import WebhookEngine.Proof.LiveJobs

set_option autoImplicit false

/-!
# What becomes of one job

* `Turns`: a job that a step leaves alone, hands out, takes back or ends, with everything that is known
  about the execution whose doing it is; `JobsTurn`, **`step_turns`**: what a step makes of the queue.
* `JobsTurn.back`, `JobsTurn.forward`: where a job comes from and where it goes.
* `reachable_owned`: the owner of a job is a processor that was started for it.
-/

namespace WebhookEngine

open EffectProg TransitionSystem

variable {env : Env} {s s' : State} {l : Label} {t u : Tid} {th th' : Thread} {j j' : Job}
  {js' : Jobs}

/-- **What a step makes of a job.** -/
inductive Turns (env : Env) (s : State) (l : Label) (j : Job) : Job → Prop where
  | same : Turns env s l j j
  | pickup (hl : l = .pickup j.id) (hst : j.state = .waiting ∨ j.state = .delayed) :
      Turns env s l j { j with state := .active, owner := some s.threads.length }
  | stall (hl : l = .stall j.id) (hst : j.state = .active) :
      Turns env s l j { j with
        state := .waiting
        owner := none
        stalledCounter := j.stalledCounter + 1 }
  | stallFail (hl : l = .stallFail j.id) (hst : j.state = .active) :
      Turns env s l j { j with state := .failed, owner := none }
  | parked {t : Tid} {c : Choice} {th : Thread} {u : Time} {k : Except Err Unit → Code Reply}
      (hl : l = .op t c) (hlive : s.live? t = some th)
      (hp : th.prog = .op (.moveToDelayed j.id u) k) (ho : j.owner = some t) :
      Turns env s l j { j with state := .delayed, owner := none }
  | completes {t : Tid} {th : Thread} {a : Reply} (hl : l = .settle t) (hlive : s.live? t = some th)
      (hp : th.prog = .ret a) (ho : j.owner = some t) :
      Turns env s l j { j with state := .completed, owner := none }
  | fails {t : Tid} {th : Thread} {err : Err} (hl : l = .settle t) (hlive : s.live? t = some th)
      (hp : th.prog = .raise err) (hne : err ≠ .delayed) (ho : j.owner = some t) :
      Turns env s l j
        { j with
          state := if env.maxAttempts ≤ j.attemptsMade + 1 then .failed else .delayed
          attemptsMade := j.attemptsMade + 1
          owner := none }

/-- The step adds a job. -/
inductive Adds? (s : State) (l : Label) (id : JobId) (d : DeliveryId) : Prop where
  | call {t : Tid} {c : Choice} {th : Thread} {k : Except Err Unit → Code Reply} (hl : l = .op t c)
      (hlive : s.live? t = some th) (hp : th.prog = .op (.queueAdd id d) k)
  | operator (hl : l = .operatorAdd id d)

/-- **What a step makes of the queue.** -/
inductive JobsTurn (env : Env) (s : State) (l : Label) : Jobs → Prop where
  | turned {f : Job → Job} (h : ∀ j ∈ s.jobs, Turns env s l j (f j)) :
      JobsTurn env s l (s.jobs.map f)
  | added {id : JobId} {d : DeliveryId} (h : Adds? s l id d) (hnone : s.jobs.job? id = none) :
      JobsTurn env s l (s.jobs ++ [{ id := id, deliveryId := d }])
  | removed {id : JobId} (hl : l = .removeCompleted id)
      (hst : ∀ j ∈ s.jobs, j.id = id → j.state = .completed) : JobsTurn env s l (s.jobs.remove id)
  | lost (hl : l = .redisLoss) : JobsTurn env s l []

theorem JobsTurn.same : JobsTurn env s l s.jobs := by
  have h : JobsTurn env s l (s.jobs.map id) := .turned fun j _ => .same
  rwa [List.map_id] at h

theorem JobsTurn.modify {id : JobId} {f : Job → Job} (hjobs : s.jobs.Ok env)
    (hj : s.jobs.job? id = some j) (h : Turns env s l j (f j)) :
    JobsTurn env s l (s.jobs.modify id f) := by
  refine .turned fun j' hj' => ?_
  obtain ⟨hmem, rfl⟩ := Jobs.mem_of_job? hj
  split
  · rename_i hid
    rw [hjobs.eq_of_id hj' hmem hid]
    exact h
  · exact .same

theorem JobsTurn.add {id : JobId} {d : DeliveryId} (h : Adds? s l id d) :
    JobsTurn env s l (s.jobs.add id d) := by
  unfold Jobs.add
  split
  · exact .same
  · rename_i hnone
    exact .added h (by simpa using hnone)

theorem Advance.turns {c : Choice} {e : Eff} {r : e.Resp} {k : e.Resp → Code Reply} {w : World}
    {m : Memory} (h : Advance s s' t c th e r k w m) (hjobs : s.jobs.Ok env) :
    JobsTurn env s (.op t c) s'.jobs := by
  have hw : s'.jobs = w.jobs := by rw [h.world]
  have hdone := h.done
  have hp := h.prog
  rw [hw]
  cases e with
  | queueAdd id d =>
    simp only [perform, Fault.run] at hdone
    split at hdone <;> cases hdone
    · exact .same
    · exact .add (.call rfl h.live hp)
  | moveToDelayed id until_ =>
    simp only [perform, World.moveToDelayed] at hdone
    split at hdone <;> cases hdone
    · rename_i hcond
      obtain ⟨j, hj, hst⟩ := (Option.any_eq_true _ _).mp hcond.2
      obtain ⟨-, ho⟩ : j.state = .active ∧ j.owner = some t := by simpa using hst
      obtain ⟨-, rfl⟩ := Jobs.mem_of_job? hj
      exact .modify hjobs hj (.parked rfl h.live hp ho)
    · exact .same
  | sql q =>
    obtain ⟨x, -, hx⟩ := Option.map_eq_some_iff.mp hdone
    cases hx
    exact .same
  | redis cmd =>
    cases hdone
    exact .same
  | _ =>
    cases hdone
    exact .same

/-- **Every step turns the queue.** -/
theorem step_turns (hjobs : s.jobs.Ok env) (h : step env s l = some s') :
    JobsTurn env s l s'.jobs := by
  cases step_happens h with
  | op h => exact h.turns hjobs
  | settle hlive _ h =>
    cases h with
    | plain => exact .same
    | completes hp hk hj ho =>
      exact .modify hjobs hj (.completes rfl hlive hp ho)
    | @fails job j err hp hne hk hj ho =>
      have hid : j.id = job.id := (Jobs.mem_of_job? hj).2
      exact .modify hjobs (hid ▸ hj) (.fails rfl hlive hp hne ho)
  | pickup hj hst =>
    obtain ⟨-, rfl⟩ := Jobs.mem_of_job? hj
    exact .modify hjobs hj (.pickup rfl hst)
  | stall hj hst _ =>
    obtain ⟨-, rfl⟩ := Jobs.mem_of_job? hj
    exact .modify hjobs hj (.stall rfl hst)
  | stallFail hj hst _ =>
    obtain ⟨-, rfl⟩ := Jobs.mem_of_job? hj
    exact .modify hjobs hj (.stallFail rfl hst)
  | removeCompleted hj hst =>
    refine .removed rfl fun j' hj' hid => ?_
    obtain ⟨hmem, hid'⟩ := Jobs.mem_of_job? hj
    rw [hjobs.eq_of_id hj' hmem (hid.trans hid'.symm)]
    exact hst
  | operatorAdd => exact .add (.operator rfl)
  | redisLoss => exact .lost rfl
  | _ => exact .same

theorem JobsTurn.back (h : JobsTurn env s l js') (hj' : j' ∈ js') :
    (∃ j ∈ s.jobs, Turns env s l j j') ∨
      Adds? s l j'.id j'.deliveryId ∧ s.jobs.job? j'.id = none ∧
        j' = { id := j'.id, deliveryId := j'.deliveryId } := by
  cases h with
  | turned h =>
    obtain ⟨j, hj, rfl⟩ := List.mem_map.mp hj'
    exact Or.inl ⟨j, hj, h j hj⟩
  | added h hnone =>
    rcases List.mem_append.mp hj' with hj | hj
    · exact Or.inl ⟨j', hj, .same⟩
    · obtain rfl := List.mem_singleton.mp hj
      exact Or.inr ⟨h, hnone, rfl⟩
  | removed hl hst => exact Or.inl ⟨j', (List.mem_filter.mp hj').1, .same⟩
  | lost => cases hj'

theorem JobsTurn.forward (h : JobsTurn env s l js') (hj : j ∈ s.jobs) (hl : l ≠ .redisLoss) :
    (∃ j' ∈ js', Turns env s l j j') ∨ l = .removeCompleted j.id ∧ j.state = .completed := by
  cases h with
  | turned h => exact Or.inl ⟨_, List.mem_map_of_mem hj, h j hj⟩
  | added h hnone => exact Or.inl ⟨j, List.mem_append_left _ hj, .same⟩
  | @removed id hl hst =>
    by_cases hid : j.id = id
    · exact Or.inr ⟨hid ▸ hl, hst j hj hid⟩
    · exact Or.inl ⟨j, List.mem_filter.mpr ⟨hj, by simpa using hid⟩, .same⟩
  | lost h => exact absurd h hl

theorem Turns.id (h : Turns env s l j j') : j'.id = j.id ∧ j'.deliveryId = j.deliveryId := by
  cases h <;> exact ⟨rfl, rfl⟩

theorem Turns.owner (h : Turns env s l j j') (ho : j'.owner = some t) :
    j' = j ∨ l = .pickup j.id ∧ t = s.threads.length ∧ j'.attemptsMade = j.attemptsMade := by
  cases h with
  | same => exact Or.inl rfl
  | pickup hl hst => exact Or.inr ⟨hl, (Option.some.inj ho).symm, rfl⟩
  | _ => cases ho

/-! ## Owners -/

/-- The processor `th` was started for the job. -/
def Thread.runs (th : Thread) (j : Job) : Prop :=
  ∃ job : JobRef, th.kind = .deliver job ∧ job.id = j.id ∧ job.deliveryId = j.deliveryId

/-- Owners are processors that were started for their jobs. -/
def Owned (s : State) : Prop :=
  ∀ j ∈ s.jobs, ∀ t, j.owner = some t → ∃ th, s.threads[t]? = some th ∧ th.runs j

theorem Thread.runs_congr (h : th.runs j) (hk : th'.kind = th.kind) (hid : j'.id = j.id)
    (hd : j'.deliveryId = j.deliveryId) : th'.runs j' := by
  obtain ⟨job, hkind, hj, hjd⟩ := h
  exact ⟨job, hk.trans hkind, hj.trans hid.symm, hjd.trans hd.symm⟩

theorem Owned.step (hjobs : s.jobs.Ok env) (h : step env s l = some s') (hI : Owned s) :
    Owned s' := by
  intro j' hj' t ho
  rcases (step_turns hjobs h).back hj' with ⟨j, hj, hturn⟩ | ⟨-, -, hnew⟩
  · obtain ⟨hid, hd⟩ := hturn.id
    rcases hturn.owner ho with rfl | ⟨rfl, rfl, -⟩
    · obtain ⟨th, ht, hr⟩ := hI j' hj t ho
      obtain ⟨th', ht', hk, -⟩ := step_continues h t th ht
      exact ⟨th', ht', Thread.runs_congr hr hk rfl rfl⟩
    · obtain ⟨j₀, hj₀, rfl⟩ := Option.map_eq_some_iff.mp h
      obtain ⟨hj₀, -⟩ := Option.filter_eq_some_iff.mp hj₀
      rw [hjobs.job? hj] at hj₀
      cases hj₀
      refine ⟨{ kind := .deliver j.ref, prog := program env s.threads.length (.deliver j.ref) }, ?_,
        j.ref, rfl, hid.symm, hd.symm⟩
      simp [State.spawn]
  · rw [hnew] at ho
    cases ho

theorem reachable_owned {C : State → Label → Prop} (h : Reachable env C s) : Owned s := by
  have hinv : Reachable env C s ∧ Owned s := by
    refine h.invariant (I := fun s => Reachable env C s ∧ Owned s) ⟨.refl _, nofun⟩ ?_
    rintro s l s' ⟨hr, hI⟩ hl hstep
    exact ⟨hr.snoc hl hstep, hI.step (reachable_jobs hr) hstep⟩
  exact hinv.2

end WebhookEngine
