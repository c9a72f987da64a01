import WebhookEngine.Proof.Steps
import WebhookEngine.Lib.Table

set_option autoImplicit false

/-!
# The jobs

* `Jobs.Ok`: job ids are unique, a live job has attempts left, and only active jobs have an owner.
* `JobsStep`, **`step_jobs`**: what a step does to the queue: nothing, an `add`, a live job that stays
  live, a job that ends, the removal of a completed job, the loss of everything.
* `live_back`, `live_forward`, `failed_stays`: where live jobs come from, where they go, and that
  failed jobs are kept.
-/

namespace WebhookEngine

open EffectProg

variable {env : Env} {s s' : State} {l : Label} {t : Tid} {th : Thread} {js : Jobs} {id : JobId}
  {d : DeliveryId} {f : Job → Job}

/-- The job an execution runs. -/
def Thread.running (th : Thread) : Option JobId :=
  match th.kind with
  | .deliver job => some job.id
  | _ => none

/-- The job that fails for good when the outcome of `t` is taken. -/
def State.exhausting (env : Env) (s : State) (t : Tid) : Option JobId :=
  (s.live? t).bind fun th =>
    match th.prog, th.kind with
    | .raise err, .deliver job =>
      if err ≠ .delayed ∧ (s.jobs.job? job.id).any (fun j =>
          j.owner = some t ∧ env.maxAttempts ≤ j.attemptsMade + 1) then some job.id
      else none
    | _, _ => none

theorem State.exhausting_eq {job : JobRef} {j : Job} {err : Err} (hlive : s.live? t = some th)
    (hp : th.prog = .raise err) (hne : err ≠ .delayed) (hk : th.kind = .deliver job)
    (hj : s.jobs.job? job.id = some j) (ho : j.owner = some t)
    (hmax : env.maxAttempts ≤ j.attemptsMade + 1) : s.exhausting env t = some job.id := by
  rw [State.exhausting, hlive, Option.bind_some, hp, hk]
  simp [hne, hj, ho, hmax]

/-- The job that completes when the outcome of `t` is taken. -/
def State.completing (s : State) (t : Tid) : Option JobId :=
  (s.live? t).bind fun th =>
    match th.prog, th.kind with
    | .ret _, .deliver job =>
      if (s.jobs.job? job.id).any (·.owner = some t) then some job.id else none
    | _, _ => none

/-- The job that ends with the step. -/
def State.ending (env : Env) (s : State) : Label → Option JobId
  | .stallFail id => some id
  | .settle t => (s.completing t).or (s.exhausting env t)
  | _ => none

/-! ## Reading the queue -/

namespace Jobs

theorem mem_of_job? {j : Job} (h : js.job? id = some j) : j ∈ js ∧ j.id = id :=
  ⟨List.mem_of_find?_eq_some h, Table.find?_key Job.id h⟩

theorem mem_modify {j' : Job} :
    j' ∈ js.modify id f ↔ ∃ j ∈ js, (if j.id = id then f j else j) = j' := List.mem_map

theorem mem_add {j' : Job} (h : j' ∈ js.add id d) :
    j' ∈ js ∨ js.job? id = none ∧ j' = { id := id, deliveryId := d } := by
  unfold add at h
  split at h
  · exact Or.inl h
  · rename_i hnone
    rcases List.mem_append.mp h with h | h
    · exact Or.inl h
    · exact Or.inr ⟨by simpa using hnone, List.mem_singleton.mp h⟩

theorem mem_add_of_mem {j : Job} (h : j ∈ js) : j ∈ js.add id d := by
  unfold add
  split
  · exact h
  · exact List.mem_append_left _ h

theorem job?_none (h : js.job? id = none) : ∀ j ∈ js, j.id ≠ id := by
  intro j hj hid
  have := (Table.find?_none_iff Job.id).mp h
  exact this (hid ▸ List.mem_map_of_mem hj)

theorem hasLive_iff : js.hasLive d = true ↔ ∃ j ∈ js, j.deliveryId = d ∧ j.live = true := by
  simp [hasLive]

/-- **What is invariant about the jobs.** -/
structure Ok (env : Env) (js : Jobs) : Prop where
  ids : (js.map (·.id)).Nodup
  left : ∀ j ∈ js, j.live = true → j.attemptsMade < env.maxAttempts
  owned : ∀ j ∈ js, j.owner.isSome → j.state = .active

theorem Ok.eq_of_id (h : js.Ok env) {j j' : Job} (hj : j ∈ js) (hj' : j' ∈ js)
    (hid : j.id = j'.id) : j = j' := List.inj_on_of_nodup_map h.ids hj hj' hid

theorem Ok.job? (h : js.Ok env) {j : Job} (hj : j ∈ js) : js.job? j.id = some j :=
  Table.find?_eq_of_mem Job.id h.ids hj

theorem Ok.add (h : js.Ok env) : (js.add id d).Ok env := by
  refine ⟨?_, fun j hj hlive => ?_, fun j hj ho => ?_⟩
  · unfold Jobs.add
    split
    · exact h.ids
    · rename_i hnone
      refine Table.nodup_map_append_single Job.id h.ids ?_
      exact (Table.find?_none_iff Job.id).mp (by simpa [Jobs.job?] using hnone)
  · rcases mem_add hj with hj | ⟨-, rfl⟩
    · exact h.left j hj hlive
    · exact env.maxAttempts_pos
  · rcases mem_add hj with hj | ⟨-, rfl⟩
    · exact h.owned j hj ho
    · cases ho

theorem Ok.modify (h : js.Ok env) {j : Job} (hj : js.job? id = some j) (hf : ∀ j, (f j).id = j.id)
    (hleft : (f j).live = true → (f j).attemptsMade < env.maxAttempts)
    (howned : (f j).owner.isSome → (f j).state = .active) : (js.modify id f).Ok env := by
  obtain ⟨hmem, rfl⟩ := mem_of_job? hj
  refine ⟨?_, fun j' hj' hlive => ?_, fun j' hj' ho => ?_⟩
  · rw [Jobs.modify, Table.map_key_update Job.id js hf]
    exact h.ids
  · obtain ⟨j₀, hj₀, rfl⟩ := mem_modify.mp hj'
    split at hlive
    · rename_i hid
      rw [if_pos hid]
      rw [h.eq_of_id hj₀ hmem hid] at hlive ⊢
      exact hleft hlive
    · rename_i hid
      rw [if_neg hid]
      exact h.left j₀ hj₀ hlive
  · obtain ⟨j₀, hj₀, rfl⟩ := mem_modify.mp hj'
    split at ho
    · rename_i hid
      rw [if_pos hid]
      rw [h.eq_of_id hj₀ hmem hid] at ho ⊢
      exact howned ho
    · rename_i hid
      rw [if_neg hid]
      exact h.owned j₀ hj₀ ho

theorem Ok.remove (h : js.Ok env) : (js.remove id).Ok env where
  ids := h.ids.sublist (List.Sublist.map _ List.filter_sublist)
  left j hj := h.left j (List.mem_filter.mp hj).1
  owned j hj := h.owned j (List.mem_filter.mp hj).1

theorem Ok.nil : Ok env [] := ⟨.nil, nofun, nofun⟩

end Jobs

/-! ## What a step does to the queue -/

/-- A job ends: it stalled too often, or the outcome of its owner is taken. -/
structure Ends (env : Env) (s : State) (l : Label) (j : Job) : Prop where
  ending : s.ending env l = some j.id
  owner : ∀ t, l = .settle t → j.owner = some t

/-- **What a step does to the queue.** -/
inductive JobsStep (env : Env) (s : State) (l : Label) : Jobs → Prop where
  | same : JobsStep env s l s.jobs
  | add {t : Tid} {c : Choice} {th : Thread} {id : JobId} {d : DeliveryId}
      {k : Except Err Unit → Code Reply} (hl : l = .op t c) (hlive : s.live? t = some th)
      (hp : th.prog = .op (.queueAdd id d) k) : JobsStep env s l (s.jobs.add id d)
  | put {id : JobId} {d : DeliveryId} (hl : l = .operatorAdd id d) :
      JobsStep env s l (s.jobs.add id d)
  | move {id : JobId} {j : Job} {f : Job → Job} (hj : s.jobs.job? id = some j)
      (hlive : j.live = true) (hf : ∀ j, (f j).id = j.id ∧ (f j).deliveryId = j.deliveryId)
      (hlive' : (f j).live = true) (hleft : (f j).attemptsMade < env.maxAttempts)
      (howned : (f j).owner.isSome → (f j).state = .active) : JobsStep env s l (s.jobs.modify id f)
  | finish {id : JobId} {j : Job} {f : Job → Job} (hj : s.jobs.job? id = some j)
      (hlive : j.live = true) (hf : ∀ j, (f j).id = j.id ∧ (f j).deliveryId = j.deliveryId)
      (hdone : (f j).live = false) (howned : (f j).owner = none) (he : Ends env s l j) :
      JobsStep env s l (s.jobs.modify id f)
  | removed {id : JobId} {j : Job} (hj : s.jobs.job? id = some j) (hst : j.state = .completed) :
      JobsStep env s l (s.jobs.remove id)
  | lost (hl : l = .redisLoss) : JobsStep env s l []

theorem Advance.jobs {c : Choice} {e : Eff} {r : e.Resp} {k : e.Resp → Code Reply} {w : World}
    {m : Memory} (h : Advance s s' t c th e r k w m) (hok : s.jobs.Ok env) :
    JobsStep env s (.op t c) s'.jobs := by
  have hw : s'.jobs = w.jobs := by rw [h.world]
  have hdone := h.done
  have hp := h.prog
  rw [hw]
  cases e with
  | queueAdd id d =>
    simp only [perform, Fault.run] at hdone
    split at hdone <;> cases hdone
    · exact .same
    · exact .add rfl h.live hp
  | moveToDelayed id until_ =>
    simp only [perform, World.moveToDelayed] at hdone
    split at hdone <;> cases hdone
    · rename_i hcond
      obtain ⟨j, hj, hst⟩ := (Option.any_eq_true _ _).mp hcond.2
      obtain ⟨hact, -⟩ : j.state = .active ∧ j.owner = some t := by simpa using hst
      have hlive : j.live = true := by simp [Job.live, hact]
      exact .move hj hlive (fun _ => ⟨rfl, rfl⟩) rfl
        (hok.left j (Jobs.mem_of_job? hj).1 hlive) (by simp)
    · exact .same
  | sql q =>
    obtain ⟨x, -, hx⟩ := Option.map_eq_some_iff.mp hdone
    cases hx
    exact .same
  | redis cmd =>
    cases hdone
    exact .same
  | _ =>
    cases hdone
    exact .same

theorem Job.live_of_owner (hok : js.Ok env) {j : Job} (hj : js.job? id = some j)
    (ho : j.owner = some t) : j.live = true := by
  have hact := hok.owned j (Jobs.mem_of_job? hj).1 (by rw [ho]; rfl)
  simp [Job.live, hact]

theorem settle_jobs (hok : s.jobs.Ok env) (hlive : s.live? t = some th) (h : Settles env s t th s') :
    JobsStep env s (.settle t) s'.jobs := by
  cases h with
  | plain => exact .same
  | completes hp hk hj ho =>
    refine .finish hj (Job.live_of_owner hok hj ho) (fun _ => ⟨rfl, rfl⟩) rfl rfl ⟨?_, ?_⟩
    · rw [(Jobs.mem_of_job? hj).2]
      simp [State.ending, State.completing, hlive, hp, hk, hj, ho]
    · intro u hu
      cases hu
      exact ho
  | @fails job j err hp hne hk hj ho =>
    have hjlive := Job.live_of_owner hok hj ho
    have hid : j.id = job.id := (Jobs.mem_of_job? hj).2
    have hj' : s.jobs.job? j.id = some j := hid ▸ hj
    by_cases hmade : env.maxAttempts ≤ j.attemptsMade + 1
    · have hstate : (if env.maxAttempts ≤ j.attemptsMade + 1 then JobState.failed else .delayed) =
          .failed := if_pos hmade
      refine .finish hj' hjlive (fun _ => ⟨rfl, rfl⟩) ?_ rfl ⟨?_, ?_⟩
      · simp [Job.live, hstate]
      · have hnone : s.completing t = none := by simp [State.completing, hlive, hp]
        rw [State.ending, hnone, State.exhausting_eq hlive hp hne hk hj ho hmade, hid]
        rfl
      · intro u hu
        cases hu
        exact ho
    · have hstate : (if env.maxAttempts ≤ j.attemptsMade + 1 then JobState.failed else .delayed) =
          .delayed := if_neg hmade
      refine .move hj' hjlive (fun _ => ⟨rfl, rfl⟩) ?_ (Nat.lt_of_not_le hmade) (by simp)
      simp [Job.live, hstate]

theorem step_jobs (hok : s.jobs.Ok env) (h : step env s l = some s') :
    JobsStep env s l s'.jobs := by
  cases step_happens h with
  | op h => exact h.jobs hok
  | settle hlive _ h => exact settle_jobs hok hlive h
  | @pickup id j hj hst =>
    have hlive : j.live = true := by rcases hst with hst | hst <;> simp [Job.live, hst]
    exact .move hj hlive (fun _ => ⟨rfl, rfl⟩) rfl (hok.left j (Jobs.mem_of_job? hj).1 hlive)
      fun _ => rfl
  | @stall id j hj hst _ =>
    have hlive : j.live = true := by simp [Job.live, hst]
    exact .move hj hlive (fun _ => ⟨rfl, rfl⟩) rfl (hok.left j (Jobs.mem_of_job? hj).1 hlive)
      (by simp)
  | @stallFail id j hj hst _ =>
    have hlive : j.live = true := by simp [Job.live, hst]
    refine .finish hj hlive (fun _ => ⟨rfl, rfl⟩) rfl rfl
      ⟨congrArg some (Jobs.mem_of_job? hj).2.symm, fun t ht => ?_⟩
    cases ht
  | removeCompleted hj hst => exact .removed hj hst
  | operatorAdd => exact .put rfl
  | redisLoss => exact .lost rfl
  | _ => exact .same

theorem JobsStep.ok {js' : Jobs} (h : JobsStep env s l js') (hok : s.jobs.Ok env) : js'.Ok env := by
  cases h with
  | same => exact hok
  | add => exact hok.add
  | put => exact hok.add
  | move hj hlive hf hlive' hleft howned =>
    exact hok.modify hj (fun j => (hf j).1) (fun _ => hleft) howned
  | finish hj hlive hf hdone howned he =>
    refine hok.modify hj (fun j => (hf j).1) (fun hl => ?_) fun ho => ?_
    · rw [hdone] at hl
      cases hl
    · rw [howned] at ho
      cases ho
  | removed => exact hok.remove
  | lost => exact .nil

theorem reachable_jobs {C : State → Label → Prop} (h : Reachable env C s) : s.jobs.Ok env :=
  h.invariant (I := fun s => s.jobs.Ok env) .nil fun _ _ _ hok _ hstep => (step_jobs hok hstep).ok hok

/-! ## Live and failed jobs -/

theorem JobsStep.live_back {js' : Jobs} (h : JobsStep env s l js') (hok : s.jobs.Ok env) {j' : Job}
    (hj' : j' ∈ js') (hlive' : j'.live = true) :
    (∃ j ∈ s.jobs, j.live = true ∧ j.id = j'.id ∧ j.deliveryId = j'.deliveryId) ∨
      s.jobs.job? j'.id = none ∧ j'.state = .waiting ∧
        ((∃ t c th k, l = .op t c ∧ s.live? t = some th ∧
          th.prog = .op (.queueAdd j'.id j'.deliveryId) k) ∨
            l = .operatorAdd j'.id j'.deliveryId) := by
  have hadd : ∀ {id d}, j' ∈ s.jobs.add id d →
      (∃ j ∈ s.jobs, j.live = true ∧ j.id = j'.id ∧ j.deliveryId = j'.deliveryId) ∨
        s.jobs.job? id = none ∧ j' = { id := id, deliveryId := d } := by
    intro id d hj'
    rcases Jobs.mem_add hj' with hj' | h
    · exact Or.inl ⟨j', hj', hlive', rfl, rfl⟩
    · exact Or.inr h
  cases h with
  | same => exact Or.inl ⟨j', hj', hlive', rfl, rfl⟩
  | add hl hlive hp =>
    rcases hadd hj' with h | ⟨hnone, rfl⟩
    · exact Or.inl h
    · exact Or.inr ⟨hnone, rfl, Or.inl ⟨_, _, _, _, hl, hlive, hp⟩⟩
  | put hl =>
    rcases hadd hj' with h | ⟨hnone, rfl⟩
    · exact Or.inl h
    · exact Or.inr ⟨hnone, rfl, Or.inr hl⟩
  | @move id j f hj hlive hf hl' hleft howned =>
    obtain ⟨j₀, hj₀, rfl⟩ := Jobs.mem_modify.mp hj'
    split at hlive'
    · rename_i hid
      obtain rfl := hok.eq_of_id hj₀ (Jobs.mem_of_job? hj).1 (hid.trans (Jobs.mem_of_job? hj).2.symm)
      rw [if_pos hid]
      exact Or.inl ⟨j₀, hj₀, hlive, (hf j₀).1.symm, (hf j₀).2.symm⟩
    · rename_i hid
      rw [if_neg hid]
      exact Or.inl ⟨j₀, hj₀, hlive', rfl, rfl⟩
  | @finish id j f hj hlive hf hdone howned he =>
    obtain ⟨j₀, hj₀, rfl⟩ := Jobs.mem_modify.mp hj'
    split at hlive'
    · rename_i hid
      obtain rfl := hok.eq_of_id hj₀ (Jobs.mem_of_job? hj).1 (hid.trans (Jobs.mem_of_job? hj).2.symm)
      rw [hdone] at hlive'
      cases hlive'
    · rename_i hid
      rw [if_neg hid]
      exact Or.inl ⟨j₀, hj₀, hlive', rfl, rfl⟩
  | removed hj hst => exact Or.inl ⟨j', (List.mem_filter.mp hj').1, hlive', rfl, rfl⟩
  | lost => cases hj'

theorem JobsStep.live_forward {js' : Jobs} (h : JobsStep env s l js') (hok : s.jobs.Ok env) {j : Job}
    (hj : j ∈ s.jobs) (hlive : j.live = true) :
    (∃ j' ∈ js', j'.live = true ∧ j'.id = j.id ∧ j'.deliveryId = j.deliveryId) ∨ Ends env s l j ∨
      l = .redisLoss := by
  cases h with
  | same => exact Or.inl ⟨j, hj, hlive, rfl, rfl⟩
  | add => exact Or.inl ⟨j, Jobs.mem_add_of_mem hj, hlive, rfl, rfl⟩
  | put => exact Or.inl ⟨j, Jobs.mem_add_of_mem hj, hlive, rfl, rfl⟩
  | @move id j₀ f hj₀ hl₀ hf hlive' hleft howned =>
    refine Or.inl ?_
    by_cases hid : j.id = id
    · obtain rfl := hok.eq_of_id hj (Jobs.mem_of_job? hj₀).1 (hid.trans (Jobs.mem_of_job? hj₀).2.symm)
      exact ⟨f j, Jobs.mem_modify.mpr ⟨j, hj, if_pos hid⟩, hlive', (hf j).1, (hf j).2⟩
    · exact ⟨j, Jobs.mem_modify.mpr ⟨j, hj, if_neg hid⟩, hlive, rfl, rfl⟩
  | @finish id j₀ f hj₀ hl₀ hf hdone howned he =>
    by_cases hid : j.id = id
    · obtain rfl := hok.eq_of_id hj (Jobs.mem_of_job? hj₀).1 (hid.trans (Jobs.mem_of_job? hj₀).2.symm)
      exact Or.inr (Or.inl he)
    · exact Or.inl ⟨j, Jobs.mem_modify.mpr ⟨j, hj, if_neg hid⟩, hlive, rfl, rfl⟩
  | @removed id j₀ hj₀ hst =>
    refine Or.inl ⟨j, List.mem_filter.mpr ⟨hj, ?_⟩, hlive, rfl, rfl⟩
    refine decide_eq_true fun hid => ?_
    obtain rfl := hok.eq_of_id hj (Jobs.mem_of_job? hj₀).1 (hid.trans (Jobs.mem_of_job? hj₀).2.symm)
    simp [Job.live, hst] at hlive
  | lost hl => exact Or.inr (Or.inr hl)

theorem hasLive_step (hjobs : s.jobs.Ok env) (h : step env s l = some s') {j : Job}
    (hj : j ∈ s.jobs) (hlive : j.live = true) (hd : j.deliveryId = d) (hends : ¬ Ends env s l j)
    (hl : l ≠ .redisLoss) : s'.jobs.hasLive d = true := by
  rcases (step_jobs hjobs h).live_forward hjobs hj hlive with ⟨j', hj', hlive', -, hd'⟩ | he | he
  · exact Jobs.hasLive_iff.mpr ⟨j', hj', hd'.trans hd, hlive'⟩
  · exact absurd he hends
  · exact absurd he hl

theorem JobsStep.failed_stays {js' : Jobs} (h : JobsStep env s l js') (hok : s.jobs.Ok env) {j : Job}
    (hj : j ∈ s.jobs) (hst : j.state = .failed) (hl : l ≠ .redisLoss) : j ∈ js' := by
  have hdead : j.live = false := by simp [Job.live, hst]
  have hother : ∀ {id j₀}, s.jobs.job? id = some j₀ → j₀.live = true → j.id ≠ id := by
    rintro id j₀ hj₀ hl₀ hid
    obtain rfl := hok.eq_of_id hj (Jobs.mem_of_job? hj₀).1 (hid.trans (Jobs.mem_of_job? hj₀).2.symm)
    rw [hdead] at hl₀
    cases hl₀
  cases h with
  | same => exact hj
  | add => exact Jobs.mem_add_of_mem hj
  | put => exact Jobs.mem_add_of_mem hj
  | move hj₀ hl₀ hf hlive' hleft howned =>
    exact Jobs.mem_modify.mpr ⟨j, hj, if_neg (hother hj₀ hl₀)⟩
  | finish hj₀ hl₀ hf hdone howned he => exact Jobs.mem_modify.mpr ⟨j, hj, if_neg (hother hj₀ hl₀)⟩
  | @removed id j₀ hj₀ hst₀ =>
    refine List.mem_filter.mpr ⟨hj, decide_eq_true fun hid => ?_⟩
    obtain rfl := hok.eq_of_id hj (Jobs.mem_of_job? hj₀).1 (hid.trans (Jobs.mem_of_job? hj₀).2.symm)
    rw [hst] at hst₀
    cases hst₀
  | lost h => exact absurd h hl

end WebhookEngine
