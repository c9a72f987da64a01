import WebhookEngine.Proof.Owners

set_option autoImplicit false

/-!
# The attempt budget

BullMQ counts the executions that threw, Postgres the attempts that were recorded.

* `Steady`: runs without loss of Redis and without stalls. Processes may die, every call may throw.
* `Holds`, `reachable_holds`: a processor that has not given its job back owns it.
* `Budget`: what the attempts of a delivery are bounded by: its exhausted jobs and the count of the
  live one, which lags behind by one while its owner ends.
* **`attempts_budgeted`**: the attempts of a delivery are at most those of its first job and of one more
  for every manual retry.
-/

namespace WebhookEngine

open EffectProg TransitionSystem

variable {env : Env} {C : State → Label → Prop} {s s' : State} {l : Label} {t u : Tid}
  {th th' : Thread} {d : DeliveryId} {j j' : Job} {D D' : Dossier}

/-- No job is lost, put into the queue by hand or taken from its worker. -/
def Steady (s : State) (l : Label) : Prop :=
  KeepsJobs s l ∧ match l with
    | .stall _ => False
    | .stallFail _ => False
    | _ => True

instance (s : State) (l : Label) : Decidable (Steady s l) :=
  match l with
  | .stall _ => inferInstanceAs (Decidable (_ ∧ False))
  | .stallFail _ => inferInstanceAs (Decidable (_ ∧ False))
  | .tick _ | .op _ _ | .settle _ | .crash _ | .extend _ | .extendReply _ | .request _ | .pickup _
  | .removeCompleted _ | .operatorAdd _ _ | .evict _ | .idemArrive _ | .redisLoss
  | .createEndpoint _ _ _ | .patchEndpoint _ _ _ => inferInstanceAs (Decidable (_ ∧ True))

theorem Steady.keepsJobs (s : State) (l : Label) (h : Steady s l) : KeepsJobsOf d s l := h.1.of d

theorem Steady.no_stall (h : Steady s l) (id : JobId) : l ≠ .stall id ∧ l ≠ .stallFail id := by
  constructor <;>
  · rintro rfl
    exact h.2

/-! ## Processors and their jobs -/

theorem Course.next_parked {m : Course} {e : Eff} (r : e.Resp) (h : (m.next e r).parked = false) :
    m.parked = false := by
  cases e with
  | sql q =>
    cases q with
    | write st =>
      match r with
      | .error x => cases st <;> exact h
      | .ok none => cases st <;> exact h
      | .ok (some g) => cases st <;> exact h
    | _ => cases r <;> exact h
  | moveToDelayed id u => cases h
  | _ => exact h

/-- A processor that has not called `moveToDelayed` owns its job. -/
def Holds (s : State) : Prop :=
  ∀ t th job, s.live? t = some th → th.kind = .deliver job → th.course.parked = false →
    ∃ j, Owns s t job.deliveryId j ∧ j.id = job.id

theorem Owns.step (hjobs : s.jobs.Ok env) (hl : Steady s l) (h : step env s l = some s')
    (ho : Owns s t d j) (hsettle : l ≠ .settle t)
    (hpark : ∀ c th u k, l = .op t c → s.live? t = some th → th.prog ≠ .op (.moveToDelayed j.id u) k) :
    Owns s' t d j := by
  have hactive := hjobs.owned j ho.job (by rw [ho.owner]; rfl)
  rcases (step_turns hjobs h).forward ho.job
      ((hl.1.of d).no_loss ho.job (Or.inl ho.delivery)) with ⟨j', hj', hturn⟩ | ⟨-, hst⟩
  · cases hturn with
    | same => exact ⟨hj', ho.owner, ho.delivery⟩
    | pickup hl' hst => rcases hst with hst | hst <;> cases hst.symm.trans hactive
    | stall hl' => exact absurd hl' (hl.no_stall _).1
    | stallFail hl' => exact absurd hl' (hl.no_stall _).2
    | parked hl' hlive hp ho' =>
      cases ho.owner.symm.trans ho'
      exact absurd hp (hpark _ _ _ _ hl' hlive)
    | completes hl' hlive hp ho' =>
      cases ho.owner.symm.trans ho'
      exact absurd hl' hsettle
    | fails hl' hlive hp hne ho' =>
      cases ho.owner.symm.trans ho'
      exact absurd hl' hsettle
  · cases hst.symm.trans hactive

theorem Holds.step (hjobs : s.jobs.Ok env) (hl : Steady s l) (h : step env s l = some s')
    (hI : Holds s) : Holds s' := by
  intro u th' job hu hk hpark
  cases step_arises h hu with
  | called hl' hadv hth =>
    subst hth
    obtain ⟨j, ho, hid⟩ := hI u _ job hadv.live hk (Course.next_parked _ hpark)
    refine ⟨j, ho.step hjobs hl h (by rw [hl']; exact nofun) ?_, hid⟩
    rintro c' th₀ v k' - hlive hp
    obtain rfl := Option.some.inj (hadv.live.symm.trans hlive)
    cases hadv.prog.symm.trans hp
    cases hpark
  | @kept th hop hold hkept =>
    have hc : th'.course = th.course := congrArg WebhookEngine.course hkept.trace
    obtain ⟨j, ho, hid⟩ := hI u th job hold (hkept.kind.symm.trans hk) (hc ▸ hpark)
    refine ⟨j, ho.step hjobs hl h ?_ fun c _ _ _ hc => absurd hc (hop c), hid⟩
    rintro rfl
    rw [settle_over h] at hu
    cases hu
  | @fresh kd hlen hstart hth =>
    subst hth
    obtain rfl : kd = .deliver job := hk
    cases hstart with
    | @pickup id j hl' hj hst =>
      subst hl'
      cases step_happens h with
      | pickup hj₀ =>
        cases hj.symm.trans hj₀
        obtain ⟨hmem, rfl⟩ := Jobs.mem_of_job? hj
        have hu : u = s.threads.length := by
          have hlt := State.live?_lt hu
          have hlen' : u < (s.threads ++ [_]).length := hlt
          rw [List.length_append, List.length_singleton] at hlen'
          exact Nat.le_antisymm (Nat.le_of_lt_succ hlen') hlen
        refine ⟨{ j with state := .active, owner := some s.threads.length }, ⟨?_, ?_, rfl⟩, rfl⟩
        · exact Jobs.mem_modify.mpr ⟨j, hmem, by rw [if_pos rfl]⟩
        · rw [hu]
    | request hl' hs => cases hs

theorem reachable_holds (h : Reachable env Steady s) : Holds s := by
  have hinv : Reachable env Steady s ∧ Holds s := by
    obtain ⟨ls, h⟩ := h
    refine h.invariant (I := fun s => Reachable env Steady s ∧ Holds s) ?_
      ⟨.refl _, fun t th job h => ?_⟩
    · rintro s l s' ⟨hr, hI⟩ hl hstep
      exact ⟨hr.snoc hl hstep, hI.step (reachable_jobs hr) hl hstep⟩
    · simp [State.live?] at h
  exact hinv.2

theorem Steady.owners_commit (hr : Reachable env Steady s) : OwnersCommit d s l := by
  cases l with
  | op t c =>
    rintro th hlive - hc id hid
    obtain ⟨k, hp⟩ := Thread.committing_iff.mp hc
    obtain ⟨job, hk, rfl⟩ : ∃ job : JobRef, th.kind = .deliver job ∧ id = job.id := by
      unfold Thread.running at hid
      split at hid
      · rename_i job hk
        exact ⟨job, hk, (Option.some.inj hid).symm⟩
      · cases hid
    have hcourse := reachable_onCourse hr t th job hlive hk
    rw [hp] at hcourse
    obtain ⟨j, ho, hid⟩ := reachable_holds hr t th job hlive hk hcourse.1
    rw [← hid, (reachable_jobs hr).job? ho.job]
    simpa using ho.owner
  | _ => trivial

/-! ## Where things come from -/

theorem lawful_spent {tr : List Event} {job : JobRef} (h : Lawful t (.deliver job) tr)
    (hs : (facts tr).spent = true) : (course tr).sent = true := by
  induction h with
  | nil => cases hs
  | @cons tr h e hp r ih =>
    cases e with
    | sql q =>
      cases q with
      | commit => cases r <;> rfl
      | write st =>
        match r with
        | .error x => cases st <;> exact ih hs
        | .ok none => cases st <;> exact ih hs
        | .ok (some g) => cases st <;> exact ih hs
      | _ => cases r <;> exact ih hs
    | redis c =>
      cases c with
      | setLock d token ttl => cases r <;> exact ih hs
      | _ => exact ih hs
    | queueAdd id d =>
      rcases hp with ⟨hk, -⟩ | ⟨n, hk, -⟩
      · rcases hk with ⟨_, hk⟩ | ⟨_, hk⟩ | ⟨hk, -⟩ <;> cases hk
      · cases hk
    | _ => exact ih hs

/-- The execution, if it is still alive, will not write any more. -/
def State.spent (s : State) (t : Tid) : Prop := ∀ th, s.live? t = some th → th.facts.spent = true

theorem State.spent.step (hI : s.spent t) (hlt : t < s.threads.length) (h : step env s l = some s') :
    s'.spent t := by
  intro th' hu
  cases step_arises h hu with
  | called _ hadv hth =>
    subst hth
    exact Facts.next_spent _ (hI _ hadv.live)
  | @kept th _ hold hkept =>
    have hf : th'.facts = th.facts := congrArg WebhookEngine.facts hkept.trace
    rw [hf]
    exact hI th hold
  | fresh hlen => exact absurd hlt (Nat.not_lt_of_le hlen)

/-- **Where agents come from**: they were there, a manual retry has just been committed, or the handler
of a job without attempts left has just been started. -/
theorem agent_back (h : step env s l = some s') (hu : s'.live? u = some th') (ha : Agent env th' d) :
    (∃ th, s.live? u = some th ∧ th.kind = th'.kind ∧ Agent env th d) ∨
      (∃ c th r k w m, l = .op u c ∧ Advance s s' u c th (.sql .commit) r k w m ∧
        th.kind.requestsRetry d ∧ th.facts.moved = false ∧
          (th.facts.next (.sql .commit) r).moved = true ∧
            (th.facts.next (.sql .commit) r).spent = false) ∨
        ∃ job : JobRef, Kind.Starts s l (.failed job) ∧ job.deliveryId = d ∧
          env.maxAttempts ≤ job.attemptsMade ∧ th'.kind = .failed job := by
  cases step_arises h hu with
  | @called c th e r k w m hl hadv hth =>
    subst hl hth
    rcases hadv.agent ⟨_, hu, ha⟩ with ⟨th₀, hold, ha₀⟩ | ⟨-, rfl, hk, hm, hm', hsp⟩
    · obtain rfl := Option.some.inj (hadv.live.symm.trans hold)
      exact Or.inl ⟨th, hold, rfl, ha₀⟩
    · exact Or.inr (Or.inl ⟨c, th, r, k, w, m, rfl, hadv, hk, hm, hm', hsp⟩)
  | @kept th _ hold hkept =>
    have hf : th'.facts = th.facts := congrArg WebhookEngine.facts hkept.trace
    obtain ⟨hunspent, hrole⟩ := ha
    rw [hf] at hunspent hrole
    rw [hkept.kind] at hrole
    exact Or.inl ⟨th, hold, hkept.kind.symm, hunspent, hrole⟩
  | @fresh kd hlen hstart hth =>
    subst hth
    rcases ha.role with ⟨job, hk, hd, hmax, -⟩ | ⟨-, hm, -⟩
    · obtain rfl : kd = .failed job := hk
      exact Or.inr (Or.inr ⟨job, hstart, hd, hmax, rfl⟩)
    · cases hm

/-- The job under the original id of the delivery is for it. -/
def Named (d : DeliveryId) (s : State) : Prop :=
  ∀ j ∈ s.jobs, j.id = .delivery d → j.deliveryId = d

theorem reachable_named (hC : ∀ s l, C s l → KeepsJobsOf d s l) (h : Reachable env C s) :
    Named d s := by
  have hinv : Reachable env C s ∧ Named d s := by
    obtain ⟨ls, h⟩ := h
    refine h.invariant (I := fun s => Reachable env C s ∧ Named d s) ?_ ⟨.refl _, nofun⟩
    rintro s l s' ⟨hr, hI⟩ hl hstep
    refine ⟨hr.snoc hl hstep, fun j' hj' hid' => ?_⟩
    rcases (step_turns (reachable_jobs hr) hstep).back hj' with ⟨j, hj, hturn⟩ | ⟨hadd, -, -⟩
    · obtain ⟨hid, hd⟩ := hturn.id
      rw [hd]
      exact hI j hj (hid.symm.trans hid')
    · cases hadd with
      | call hl' hlive hp =>
        rcases ((reachable_ok hr).threads _ _ hlive).permits hp with
          ⟨-, hid⟩ | ⟨n, -, -, -, -, ms, hid⟩
        · cases hid.symm.trans hid'
          rfl
        · cases hid.symm.trans hid'
      | operator hl' => exact absurd hl' ((hC s l hl).no_put (Or.inr hid'))
  exact hinv.2

/-! ## The budget -/

/-- The manual retries in the audit log. -/
def Dossier.retries (D : Dossier) : ℕ :=
  D.log.countP fun tr => tr.triple = (some .dlq, .pending, .manualRetry)

/-- The attempts are within the budgets of the jobs before and `m` of the present one. -/
def Dossier.Within (env : Env) (D : Dossier) (m : ℕ) : Prop :=
  D.row.attemptCount ≤ env.maxAttempts * D.retries + m

/-- **What bounds the attempts of a delivery.** -/
structure Budget (env : Env) (s : State) (d : DeliveryId) (D : Dossier) : Prop where
  fit : D.Within env env.maxAttempts
  job : ∀ j ∈ s.jobs, j.live = true → j.deliveryId = d → D.row.status ≠ .delivered →
    D.Within env j.attemptsMade ∨
      D.Within env (j.attemptsMade + 1) ∧ ∃ t, j.owner = some t ∧ s.spent t
  retry : ∀ t th, s.live? t = some th → th.kind.requestsRetry d → Agent env th d → D.Within env 0
  completed : (∀ j ∈ s.jobs, j.id = .delivery d → j.state = .completed) →
    D.row.status = .delivered ∨ D.Within env 0

theorem Dossier.Within.mono {m n : ℕ} (h : D.Within env m) (hmn : m ≤ n) : D.Within env n :=
  h.trans (Nat.add_le_add_left hmn _)

theorem Budget.touched (h : Budget env s d D) (τ : Time) : Budget env s d (D.touched τ) :=
  ⟨h.fit, h.job, h.retry, h.completed⟩

theorem Budget.created (ev ep id : ℕ) (τ τ' : Time) :
    Budget env s d (.created d ev ep id τ τ') :=
  ⟨Nat.zero_le _, fun _ _ _ _ _ => Or.inl (Nat.zero_le _), fun _ _ _ _ _ => Nat.zero_le _,
    fun _ => Or.inr (Nat.zero_le _)⟩

theorem reachable_steady_viewed (h : Reachable env Steady s) : Viewed d s :=
  reachable_viewed Steady.keepsJobs (fun _ _ hr _ => Steady.owners_commit hr) h

/-- A processor whose job completes leaves a delivery that is DELIVERED or has no attempts. -/
theorem Owns.completed (ho : Owns s t d j) (hC : ∀ s l, C s l → KeepsJobsOf d s l)
    (hr : Reachable env C s) (hv : Viewed d s) (hlive : s.live? t = some th) {a : Reply}
    (hp : th.prog = .ret a) (hD : s.pg.db.dossier? d = some D) :
    D.row.status = .delivered ∨ D.row.attemptCount = 0 := by
  obtain ⟨job, hk, -, -⟩ := ho.runs hr hlive
  have hfinal := reachable_onCourse hr t th job hlive hk
  rw [hp] at hfinal
  have hlaw := reachable_lawfulTrace hr t th hlive
  rw [hk] at hlaw
  refine (hv t th j D hlive ho hD).final (course_row _) (lawful_saved hlaw) (hfinal a rfl)
    fun hst => ?_
  obtain ⟨-, o, hlane⟩ := reachable_lane hC hr
  have hdlq : s.pg.db.status? d = some .dlq := (Db.status?_eq hD).trans (congrArg some hst)
  exact (hlane.of_dlq hdlq).2.2.1 j.id (ho.queued (reachable_jobs hr))

theorem Owns.unspent (ho : Owns s t d j) (hr : Reachable env C s) (hlive : s.live? t = some th)
    {id : JobId} {u : Time} {k : Except Err Unit → Code Reply}
    (hp : th.prog = .op (.moveToDelayed id u) k) : ¬ s.spent t := by
  intro hsp
  obtain ⟨job, hk, -, -⟩ := ho.runs hr hlive
  have hcourse := reachable_onCourse hr t th job hlive hk
  rw [hp] at hcourse
  have hlaw := reachable_lawfulTrace hr t th hlive
  rw [hk] at hlaw
  have hsent : th.course.sent = true := lawful_spent hlaw (hsp th hlive)
  exact Bool.false_ne_true (hcourse.1.symm.trans hsent)

/-- **A step that leaves the delivery alone keeps its budget.** -/
theorem Budget.rest (hI : Budget env s d D) (hr : Reachable env Steady s) (hl : Steady s l)
    (h : step env s l = some s') (hD : s.pg.db.dossier? d = some D)
    (hstatus : s'.pg.db.status? d = s.pg.db.status? d) : Budget env s' d D := by
  have hjobs := reachable_jobs hr
  have hnamed := reachable_named (Steady.keepsJobs (d := d)) hr
  refine ⟨hI.fit, fun j' hj' hlive' hd hst => ?_, fun u th' hu hk ha => ?_, fun hall => ?_⟩
  · rcases (step_turns hjobs h).back hj' with ⟨j, hj, hturn⟩ | ⟨hadd, hnone, hnew⟩
    · cases hturn with
      | same =>
        refine (hI.job j' hj hlive' hd hst).imp_right ?_
        rintro ⟨hw, t, ho, hsp⟩
        obtain ⟨th, ht, -⟩ := reachable_owned hr j' hj t ho
        exact ⟨hw, t, ho, hsp.step (List.getElem?_eq_some_iff.mp ht).1 h⟩
      | pickup hl' hidle =>
        have hlive : j.live = true := by rcases hidle with h | h <;> simp [Job.live, h]
        rcases hI.job j hj hlive hd hst with hw | ⟨-, t, ho, -⟩
        · exact Or.inl hw
        · have hactive := hjobs.owned j hj (by rw [ho]; rfl)
          rcases hidle with h | h <;> cases h.symm.trans hactive
      | stall hl' => exact absurd hl' (hl.no_stall _).1
      | stallFail hl' => exact absurd hl' (hl.no_stall _).2
      | parked hl' hlive hp ho =>
        have hown : Owns s _ d j := ⟨hj, ho, hd⟩
        rcases hI.job j hj (hown.live hjobs) hd hst with hw | ⟨-, t', ho', hsp⟩
        · exact Or.inl hw
        · cases ho.symm.trans ho'
          exact absurd hsp (hown.unspent hr hlive hp)
      | completes => cases hlive'
      | fails hl' hlive hp hne ho =>
        have hown : Owns s _ d j := ⟨hj, ho, hd⟩
        rcases hI.job j hj (hown.live hjobs) hd hst with hw | ⟨hw, -⟩
        · exact Or.inl (hw.mono (Nat.le_succ _))
        · exact Or.inl hw
    · rw [hnew]
      refine Or.inl ?_
      cases hadd with
      | call hl' hlive hp =>
        rw [hd] at hp
        rcases ((reachable_ok hr).threads _ _ hlive).permits hp with
          ⟨-, hid⟩ | ⟨n, hk, hm, hsp, ha, -⟩
        · refine (hI.completed fun j hj hjid => ?_).resolve_left hst
          exact absurd (hjid.trans hid.symm) (Jobs.job?_none hnone j hj)
        · exact hI.retry _ _ hlive ⟨n, hk⟩ ⟨hsp, Or.inr ⟨⟨n, hk⟩, hm, ha⟩⟩
      | operator hl' => exact absurd hl' ((hl.1.of d).no_put (Or.inl hd))
  · rcases agent_back h hu ha with ⟨th, hold, hk', ha'⟩ |
      ⟨c, th, r, k, w, m, -, hadv, hk', hm, hm', hsp⟩ | hfresh
    · exact hI.retry u th hold (hk' ▸ hk) ha'
    · obtain ⟨h1, h2⟩ := hadv.retried (reachable_ok hr) hk' hm hm' hsp
      rw [h1, h2] at hstatus
      cases hstatus
    · obtain ⟨n, hk⟩ := hk
      obtain ⟨job, -, -, -, hk'⟩ := hfresh
      cases hk.symm.trans hk'
  · by_cases hold : ∀ j ∈ s.jobs, j.id = .delivery d → j.state = .completed
    · exact hI.completed hold
    · obtain ⟨j, hj, hid, hne⟩ : ∃ j ∈ s.jobs, j.id = .delivery d ∧ j.state ≠ .completed := by
        simpa only [not_forall, exists_prop] using hold
      have hd := hnamed j hj hid
      rcases (step_turns hjobs h).forward hj ((hl.1.of d).no_loss hj (Or.inl hd)) with
        ⟨j', hj', hturn⟩ | ⟨-, hst⟩
      · have hdone := hall j' hj' (hturn.id.1.trans hid)
        cases hturn with
        | same => exact absurd hdone hne
        | completes hl' hlive hp ho =>
          rcases Owns.completed ⟨hj, ho, hd⟩ Steady.keepsJobs hr (reachable_steady_viewed hr) hlive hp
            hD with hdel | hzero
          · exact Or.inl hdel
          · exact Or.inr (hzero.le.trans (Nat.zero_le _))
        | fails =>
          have hdone : (if _ then JobState.failed else .delayed) = .completed := hdone
          split at hdone <;> cases hdone
        | _ => cases hdone
      · exact absurd hst hne

/-! ## COMMITs -/

theorem Dossier.within_moved {m id : ℕ} {f g : Status} {reason : String} {τ τ' : Time} :
    (D.moved id f g reason .worker τ τ').Within env m ↔ D.Within env m := by
  simp [Dossier.Within, Dossier.retries, Dossier.moved, TransitionRow.triple]

theorem Dossier.within_retried {id : ℕ} {reason : String} {τ τ' : Time} :
    (D.moved id .dlq .pending reason .manualRetry τ τ').Within env 0 ↔
      D.Within env env.maxAttempts := by
  simp [Dossier.Within, Dossier.retries, Dossier.moved, TransitionRow.triple, Nat.mul_succ]

theorem Dossier.within_recorded {a : AttemptRow} {m id : ℕ} {f g : Status} {next : Option Time}
    {reason : String} {τ τ' : Time} (h : D.Within env m) :
    (D.recorded a id f g next reason τ τ').Within env (m + 1) := by
  have hretries : (D.recorded a id f g next reason τ τ').retries = D.retries := by
    simp [Dossier.retries, Dossier.recorded, TransitionRow.triple]
  unfold Dossier.Within
  rw [hretries]
  exact Nat.succ_le_succ h

theorem Deed.kept (hC : ∀ s l, C s l → KeepsJobsOf d s l) (hr : Reachable env C s)
    (hlive : s.live? t = some th) (hD : s.pg.db.dossier? d = some D) (h : Deed env s d t th D D') :
    ∃ j ∈ s.jobs, j.id = .delivery d ∧ j.state ≠ .completed := by
  obtain ⟨-, o, hlane⟩ := reachable_lane hC hr
  have hretained : s.retained d → ∃ j ∈ s.jobs, j.id = .delivery d ∧ j.state ≠ .completed := by
    rintro ⟨j, hj, hid, hst⟩
    exact ⟨j, hj, hid, by rw [hst]; decide⟩
  have howner : ∀ j, Owns s t d j → ∃ j ∈ s.jobs, j.id = .delivery d ∧ j.state ≠ .completed := by
    intro j ho
    have hq := ho.queued (reachable_jobs hr)
    cases hlane with
    | active jid orig queued agents status =>
      rcases orig with horig | horig
      · refine ⟨j, ho.job, (queued _ hq).trans horig, fun hst => ?_⟩
        have hjl := ho.live (reachable_jobs hr)
        simp [Job.live, hst] at hjl
      · exact hretained horig
    | idle orig queued => exact absurd hq (queued _)
  cases h with
  | mark ho => exact howner _ ho
  | record ho => exact howner _ ho
  | exhaust hk ha => exact hretained (hlane.of_agent ⟨th, hlive, ha⟩).2.1
  | retry hk hst =>
    exact hretained (hlane.of_dlq ((Db.status?_eq hD).trans (congrArg some hst))).2.1

theorem Advance.sql_jobs {c : Choice} {q : Sql} {r : Except Err q.Ret}
    {k : Except Err q.Ret → Code Reply} {w : World} {m : Memory}
    (h : Advance s s' t c th (.sql q) r k w m) : s'.jobs = s.jobs := by
  obtain ⟨pg', sess', -, rfl, -⟩ := perform_sql h.done
  rw [h.world]

/-- A manual retry is an agent since before, unless it has just been committed. -/
theorem Advance.retrier {c : Choice} {r : Except Err Unit} {k : Except Err Unit → Code Reply}
    {w : World} {m : Memory} (hadv : Advance s s' t c th (.sql .commit) r k w m)
    (h : step env s (.op t c) = some s') (hk : ¬ th.kind.requestsRetry d)
    (hu : s'.live? u = some th') (hk' : th'.kind.requestsRetry d) (ha : Agent env th' d) :
    ∃ th, s.live? u = some th ∧ th.kind.requestsRetry d ∧ Agent env th d := by
  rcases agent_back h hu ha with
    ⟨th₀, hold, hk₀, ha₀⟩ | ⟨_, th₀, _, _, _, _, hl, hadv₀, hk₀, -⟩ | ⟨job, -, -, -, hk₀⟩
  · exact ⟨th₀, hold, hk₀ ▸ hk', ha₀⟩
  · cases hl
    obtain rfl := Option.some.inj (hadv₀.live.symm.trans hadv.live)
    exact absurd hk₀ hk
  · obtain ⟨n, hk'⟩ := hk'
    cases hk'.symm.trans hk₀

theorem Budget.moved (hI : Budget env s d D) (hr : Reachable env Steady s) {c : Choice}
    (h : step env s (.op t c) = some s') {r : Except Err Unit} {k : Except Err Unit → Code Reply}
    {w : World} {m : Memory} (hadv : Advance s s' t c th (.sql .commit) r k w m)
    (hk : ¬ th.kind.requestsRetry d)
    (hkept : ∃ j ∈ s.jobs, j.id = .delivery d ∧ j.state ≠ .completed)
    (hst : ∀ j, s.queued d j → D.row.status ≠ .delivered) (id : ℕ) (f g : Status)
    (reason : String) (τ τ' : Time) : Budget env s' d (D.moved id f g reason .worker τ τ') := by
  refine ⟨Dossier.within_moved.mpr hI.fit, fun j hj hlive hd _ => ?_, fun u th' hu hk' ha => ?_,
    fun hall => ?_⟩
  · rw [hadv.sql_jobs] at hj
    refine (hI.job j hj hlive hd (hst j.id ⟨j, hj, hlive, rfl, hd⟩)).imp
      Dossier.within_moved.mpr ?_
    rintro ⟨hw, t', ho, hsp⟩
    obtain ⟨th', ht', -⟩ := reachable_owned hr j hj t' ho
    exact ⟨Dossier.within_moved.mpr hw, t', ho, hsp.step (List.getElem?_eq_some_iff.mp ht').1 h⟩
  · obtain ⟨th₀, hold, hk₀, ha₀⟩ := hadv.retrier h hk hu hk' ha
    exact Dossier.within_moved.mpr (hI.retry u th₀ hold hk₀ ha₀)
  · obtain ⟨j, hj, hid, hne⟩ := hkept
    exact absurd (hall j (hadv.sql_jobs ▸ hj) hid) hne

/-- **A COMMIT keeps the budget.** -/
theorem Budget.deed (hI : Budget env s d D) (hr : Reachable env Steady s) {c : Choice}
    (h : step env s (.op t c) = some s') {r : Except Err Unit} {k : Except Err Unit → Code Reply}
    {w : World} {m : Memory} (hadv : Advance s s' t c th (.sql .commit) r k w m)
    (hD : s.pg.db.dossier? d = some D) (hdeed : Deed env s d t th D D') : Budget env s' d D' := by
  have hjobs := reachable_jobs hr
  obtain ⟨-, o, hlane⟩ := reachable_lane (Steady.keepsJobs (d := d)) hr
  have hkept := hdeed.kept Steady.keepsJobs hr hadv.live hD
  have hview : ∀ {j : Job} {x : DeliveryForWorker}, Owns s t d j → th.facts.Working x →
      D.row.status ≠ .delivered := fun ho hw =>
    ((reachable_steady_viewed hr t th _ D hadv.live ho hD).not_delivered (course_row _) hw).1
  have hdeliver : ∀ {j : Job}, Owns s t d j → ¬ th.kind.requestsRetry d := by
    rintro j ho ⟨n, hk⟩
    obtain ⟨job, hk', -⟩ := ho.runs hr hadv.live
    cases hk.symm.trans hk'
  cases hdeed with
  | mark ho hw htx id reason τ τ' =>
    exact hI.moved hr h hadv (hdeliver ho) hkept (fun _ _ => hview ho hw) id _ _ reason τ τ'
  | exhaust hk ha id reason τ τ' =>
    have hq := (hlane.of_agent ⟨th, hadv.live, ha⟩).2.2.1
    exact hI.moved hr h hadv (by rw [hk]; rintro ⟨n, hk'⟩; cases hk') hkept
      (fun j hj => absurd hj (hq j)) id _ _ reason τ τ'
  | @record j₀ x a ho hw hn htx gen id f next reason τ τ' =>
    have hlive₀ := ho.live hjobs
    -- the owner has not spent itself yet, so its job counts in full
    have hwithin : D.Within env j₀.attemptsMade := by
      rcases hI.job j₀ ho.job hlive₀ ho.delivery (hview ho hw) with hwithin | ⟨-, t', ho', hsp⟩
      · exact hwithin
      · cases ho.owner.symm.trans ho'
        exact absurd (hw.unspent.symm.trans (hsp th hadv.live)) Bool.false_ne_true
    refine ⟨?_, fun j hj hlive hd _ => Or.inr ?_, fun u th' hu hk' ha => ?_, fun hall => ?_⟩
    · exact (Dossier.within_recorded hwithin).mono (hjobs.left j₀ ho.job hlive₀)
    · rw [hadv.sql_jobs] at hj
      obtain rfl := live_unique Steady.keepsJobs hr hj ho.job hlive hlive₀ hd ho.delivery
      refine ⟨Dossier.within_recorded hwithin, t, ho.owner, fun th' ht' => ?_⟩
      rw [hadv.live?_self] at ht'
      cases ht'
      exact Facts.nextSql_commit_spent r (txHas_of_outcome htx)
    · obtain ⟨th₀, hold, -, ha₀⟩ := hadv.retrier h (hdeliver ho) hu hk' ha
      exact absurd (ho.queued hjobs) ((hlane.of_agent ⟨th₀, hold, ha₀⟩).2.2.1 _)
    · obtain ⟨j, hj, hid, hne⟩ := hkept
      exact absurd (hall j (hadv.sql_jobs ▸ hj) hid) hne
  | retry hk hst id reason τ τ' =>
    have hdlq : s.pg.db.status? d = some .dlq := (Db.status?_eq hD).trans (congrArg some hst)
    have hq := (hlane.of_dlq hdlq).2.2.1
    have hzero : (D.moved id .dlq .pending reason .manualRetry τ τ').Within env 0 :=
      Dossier.within_retried.mpr hI.fit
    refine ⟨hzero.mono (Nat.zero_le _), fun j hj hlive hd _ => ?_, fun _ _ _ _ _ => hzero,
      fun _ => Or.inr hzero⟩
    exact absurd ⟨j, hadv.sql_jobs ▸ hj, hlive, rfl, hd⟩ (hq j.id)

/-! ## Runs -/

theorem Budget.step (hI : ∀ D, s.pg.db.dossier? d = some D → Budget env s d D)
    (hr : Reachable env Steady s) (hl : Steady s l) (h : step env s l = some s')
    (hD' : s'.pg.db.dossier? d = some D') : Budget env s' d D' := by
  rcases story_deeds Steady.keepsJobs hr (Steady.owners_commit hr) h hD' with
    hun | ⟨t, c, th, r, k, w, m, D, rfl, hadv, hD, hdeed⟩
  · cases hun with
    | same hD =>
      exact (hI D' hD).rest hr hl h hD (Db.status?_of_dossier? (hD'.trans hD.symm))
    | @touched D τ hD heq =>
      subst heq
      refine ((hI D hD).rest hr hl h hD ?_).touched τ
      rw [Db.status?_eq hD', Db.status?_eq hD]
      rfl
    | created hD ev ep id τ τ' heq =>
      subst heq
      exact .created ev ep id τ τ'
  · exact (hI D hD).deed hr h hadv hD hdeed

theorem reachable_budget (h : Reachable env Steady s) (hD : s.pg.db.dossier? d = some D) :
    Budget env s d D := by
  have hinv : Reachable env Steady s ∧ ∀ d D, s.pg.db.dossier? d = some D → Budget env s d D := by
    obtain ⟨ls, h⟩ := h
    refine h.invariant (I := fun s => Reachable env Steady s ∧
      ∀ d D, s.pg.db.dossier? d = some D → Budget env s d D) ?_ ⟨.refl _, nofun⟩
    rintro s l s' ⟨hr, hI⟩ hl hstep
    exact ⟨hr.snoc hl hstep, fun d D' hD' => Budget.step (hI d) hr hl hstep hD'⟩
  exact hinv.2 d D hD

/-- **The attempt budget**: `BACKOFF_BASE_MS.length` attempts, and as many again for every manual
retry. -/
theorem attempts_budgeted (h : Reachable env Steady s) {row : DeliveryRow}
    (hrow : row ∈ s.pg.db.deliveries) :
    row.attemptCount ≤ env.backoffBaseMs.length * (1 + s.pg.db.retries row.id) := by
  have hfit := (reachable_budget h ((reachable_ok h).db.dossier?_of_mem hrow)).fit
  rw [Nat.add_comm 1]
  exact hfit

theorem attempts_budgeted_delivered : ∃ s row, Reachable sampleEnv Steady s ∧
    row ∈ s.pg.db.deliveries ∧ row.attemptCount = 1 ∧
      row.attemptCount ≤ sampleEnv.backoffBaseMs.length * (1 + s.pg.db.retries row.id) := by
  obtain ⟨s, hreach, hs⟩ := sample_run (C := Steady) (sampleIngest ++ sampleDelivery 1)
    (fun s => s.pg.db.deliveries.any (·.attemptCount = 1)) (by decide +kernel)
  obtain ⟨row, hrow, hcount⟩ := List.any_eq_true.mp hs
  exact ⟨s, row, hreach, hrow, of_decide_eq_true hcount, attempts_budgeted hreach hrow⟩

end WebhookEngine
