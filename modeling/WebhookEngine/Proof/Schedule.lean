import WebhookEngine.Proof.Exhausted
import WebhookEngine.Proof.Derived

set_option autoImplicit false

/-!
# Two counters of one schedule

`recordAttempt` stores the time of the next attempt by the number of the attempt, BullMQ delays the
next run by the throws it has counted of the job.

* `Thread.ahead`: the attempt of an execution is in the count of its delivery.
* `Paced`: what BullMQ counts for the delivery was recorded, what was recorded is counted, and no job of
  it starts behind.
* `Pace`: then the live job has counted every attempt but that of its present owner.
* **`schedule_agrees`**: in such runs the stored time of the next attempt comes from the base of BullMQ's
  delay.
-/

namespace WebhookEngine

open EffectProg TransitionSystem

variable {env : Env} {s s' : State} {l : Label} {t u : Tid} {th th' : Thread} {d : DeliveryId}
  {j j' : Job} {D D' : Dossier}

/-! ## What is stored -/

/-- A FAILED delivery has a time drawn for its last attempt. -/
def Dossier.Planned (env : Env) (D : Dossier) : Prop :=
  D.row.status = .failed → Drawn env D.row.attemptCount D.row.nextAttemptAt

/-- **What is stored with a failed attempt was drawn for it**, in every reachable state. -/
theorem reachable_planned {C : State → Label → Prop} (hC : ∀ s l, C s l → NoCalls s l)
    (h : Reachable env C s) (hD : s.pg.db.dossier? d = some D) : D.Planned env := by
  have hinv : Reachable env C s ∧ ∀ d D, s.pg.db.dossier? d = some D → D.Planned env := by
    obtain ⟨ls, h⟩ := h
    refine h.invariant (I := fun s => Reachable env C s ∧
      ∀ d D, s.pg.db.dossier? d = some D → D.Planned env) ?_ ⟨.refl _, fun d D hD => by cases hD⟩
    rintro s l s' ⟨hr, hI⟩ hl hstep
    refine ⟨hr.snoc hl hstep, fun d D' hD' hst => ?_⟩
    have hs := reachable_ok hr
    rcases story hs hstep d with hsame | ⟨D, τ, hD, hD₁⟩ | ⟨t, c, th, r, k, w, m, hl', hadv, hc⟩
    · exact hI d D' (hsame.symm.trans hD') hst
    · cases hD'.symm.trans hD₁
      exact hI d D hD hst
    · have hcall := kind_ne_call hC hr hadv.live
      rw [hD'] at hc
      generalize hD : s.pg.db.dossier? d = o at hc
      cases hc with
      | created => cases hst
      | moved hmv => exact absurd hst (hmv.to hcall).2
      | @recorded D a f g next hrec ha hnew id hid gen hm reason τ τ' =>
        have hatt : s'.pg.db.attemptsOf d = s.pg.db.attemptsOf d ++ [⟨a, gen⟩] := by
          rw [Db.attemptsOf_eq hs.db, Db.attemptsOf_eq (hs.step hstep).db, hD, hD']
          rfl
        obtain ⟨t', c', th', r', k', w', m', rfl, hadv', D₁, f₁, g₁, next₁, reason₁, γ₁, γ₂, id₁, τ₁,
          τ₂, htx, hD₁, hD₂⟩ := attempt_recorded hs hstep hatt
        cases hl'
        obtain rfl := Option.some.inj (hadv.live.symm.trans hadv'.live)
        cases hD.symm.trans hD₁
        have heq := Option.some.inj (hD'.symm.trans hD₂)
        obtain rfl : g = g₁ := congrArg (fun D => D.row.status) heq
        obtain rfl : next = next₁ := congrArg (fun D => D.row.nextAttemptAt) heq
        subst ha
        obtain ⟨job, x, hk, -, hw, hn⟩ := hrec.number hcall
        have hcount := (reachable_counted hC hr).next hadv.live hcall hrec hD hnew
        have hwrote := (reachable_deriving hr t th job hadv.live hk).wrote
        rw [htx] at hwrote
        obtain ⟨y, hy, hdrawn⟩ := (hwrote (.updateAttempt a.deliveryId g next, γ₂) (by simp)).stored
          a.deliveryId next (by rw [show g = .failed from hst])
        cases hw.row.symm.trans hy
        rw [← hn, hcount] at hdrawn
        exact hdrawn
  exact hinv.2 d D hD

/-! ## Counters -/

/-- The attempts a delivery counts. -/
def Db.attempted (db : Db) (d : DeliveryId) : ℕ := (db.delivery? d).elim 0 (·.attemptCount)

theorem Db.attempted_eq {db : Db} (hD : db.dossier? d = some D) : db.attempted d = D.row.attemptCount := by
  rw [Db.attempted, (Db.dossier?_eq_some.mp hD).1]
  rfl

theorem Db.attempted_none {db : Db} (hD : db.dossier? d = none) : db.attempted d = 0 := by
  rw [Db.attempted, Db.dossier?_none.mp hD]
  rfl

/-- The execution has read a row with less than `n` attempts. -/
def Thread.ahead (th : Thread) (n : ℕ) : Bool := th.facts.row.any fun r => r.attemptCount < n

/-- The owner of the job, alive or dead, has read a row with less than `n` attempts. -/
def State.paid (s : State) (j : Job) (n : ℕ) : Bool :=
  (j.owner.bind fun t => s.threads[t]?).any (·.ahead n)

/-- The execution is about to add the job of a manual retry of the delivery. -/
def Thread.restarts (th : Thread) : Option DeliveryId :=
  match th.prog with
  | .op (.queueAdd (.retry x _) _) _ => some x.id
  | _ => none

/-- What BullMQ counts for the delivery was recorded, a job of it is taken from its owner before the
attempt was recorded, and a manual retry adds a job for it only while it has no attempts. -/
def Paces (d : DeliveryId) (s : State) : Label → Prop
  | .settle t => s.failing t = some d → (s.live? t).any (·.ahead (s.pg.db.attempted d)) = true
  | .stall id => ∀ j ∈ s.jobs.job? id, j.deliveryId = d → s.paid j (s.pg.db.attempted d) = false
  | .op t _ => (s.live? t).bind Thread.restarts = some d → s.pg.db.attempted d = 0
  | _ => True

instance (d : DeliveryId) (s : State) : (l : Label) → Decidable (Paces d s l)
  | .settle t => inferInstanceAs (Decidable (s.failing t = some d → _))
  | .stall id => inferInstanceAs (Decidable (∀ j ∈ s.jobs.job? id, j.deliveryId = d → _))
  | .op t _ => inferInstanceAs (Decidable ((s.live? t).bind Thread.restarts = some d → _))
  | .tick _ | .crash _ | .extend _ | .extendReply _ | .request _ | .pickup _ | .stallFail _
  | .removeCompleted _ | .operatorAdd _ _ | .evict _ | .idemArrive _ | .redisLoss
  | .createEndpoint _ _ _ | .patchEndpoint _ _ _ => inferInstanceAs (Decidable True)

/-- No job of the delivery is lost or put into the queue by hand, its processors commit only as owners,
and the two counters keep pace. -/
def Paced (d : DeliveryId) (s : State) (l : Label) : Prop := Proper d s l ∧ Paces d s l

instance (d : DeliveryId) (s : State) (l : Label) : Decidable (Paced d s l) :=
  inferInstanceAs (Decidable (_ ∧ _))

theorem Paced.keepsJobs (s : State) (l : Label) (h : Paced d s l) : KeepsJobsOf d s l := h.1.1

theorem reachable_paced_viewed (h : Reachable env (Paced d) s) : Viewed d s :=
  reachable_viewed Paced.keepsJobs (fun _ _ _ hl => hl.1.2) h

/-! ## What an owner has read -/

/-- **What the owner of a job has read stays**, and what it reads now is not behind. -/
theorem State.paid_step {C : State → Label → Prop} (hr : Reachable env C s)
    (h : step env s l = some s') (hj : j ∈ s.jobs) (hd : j.deliveryId = d) :
    s'.paid j (s.pg.db.attempted d) = s.paid j (s.pg.db.attempted d) := by
  unfold State.paid
  cases ho : j.owner with
  | none => rfl
  | some t =>
    obtain ⟨th, ht, job, hk, -, hd'⟩ := reachable_owned hr j hj t ho
    obtain ⟨th', ht', hsame | ⟨c, e, r, k, w, m, -, hadv, rfl⟩⟩ := step_forward h ht
    · simp only [Option.bind_some, ht, ht', Option.any_some, Thread.ahead, Thread.facts, hsame]
    · have hrow : th.facts.row = none → th.ahead (s.pg.db.attempted d) = false := by
        intro hnone
        rw [Thread.ahead, hnone]
        rfl
      simp only [Option.bind_some, ht, ht', Option.any_some]
      change (th.facts.next e r).row.any _ = _
      rcases hadv.row (reachable_ok hr) with hsame | ⟨job', hk', he, hread, -⟩
      · rw [hsame]
        rfl
      · -- the row is read once, and counts what is there
        have hnone : th.facts.row = none := by
          subst he
          exact (((reachable_ok hr).threads t th hadv.live).permits hadv.prog).2.2.2.1
        rw [hrow hnone, hread]
        cases hfor : s.pg.db.forDelivery job'.deliveryId with
        | none => rfl
        | some r' =>
          obtain ⟨row, hdel, -, hcount⟩ := Db.forDelivery_isSome hfor
          obtain rfl : job = job' := by
            rcases hk' with hk' | hk' <;> cases hk.symm.trans hk'
            rfl
          rw [hd', hd] at hdel
          simp [Db.attempted, hdel, hcount]

theorem Owns.unpaid (ho : Owns s t d j) (hr : Reachable env (Paced d) s) (hlive : s.live? t = some th)
    {id : JobId} {u : Time} {k : Except Err Unit → Code Reply}
    (hp : th.prog = .op (.moveToDelayed id u) k) : s.paid j (s.pg.db.attempted d) = false := by
  have hahead : th.ahead (s.pg.db.attempted d) = false := by
    obtain ⟨job, hk, -, hd⟩ := ho.runs hr hlive
    rw [Thread.ahead]
    cases hrow : th.facts.row with
    | none => rfl
    | some r =>
      cases hD : s.pg.db.dossier? d with
      | none => rw [Db.attempted_none hD]; rfl
      | some D =>
        have hcourse : th.facts.row.map (·.status) = th.course.row.join := course_row th.trace
        rw [hrow] at hcourse
        rw [Db.attempted_eq hD]
        cases reachable_paced_viewed hr t th j D hlive ho hD with
        | unread h => simp [h] at hcourse
        | missing h => simp [h] at hcourse
        | read hrow' saved count =>
          cases hrow.symm.trans hrow'
          simp [count]
        | done hrow' open_ spent =>
          refine absurd (fun th' ht' => ?_) (ho.unspent hr hlive hp)
          obtain rfl := Option.some.inj (hlive.symm.trans ht')
          exact spent
  simp only [State.paid, ho.owner, Option.bind_some, (State.live?_eq_some.mp hlive).1, Option.any_some]
  exact hahead

theorem State.paid_fresh (h : step env s l = some s') (hl : ∀ t c, l ≠ .op t c)
    (ho : j.owner = some s.threads.length) (n : ℕ) : s'.paid j n = false := by
  rw [State.paid, ho, Option.bind_some]
  cases ht : s'.threads[s.threads.length]? with
  | none => rfl
  | some th' =>
    cases step_stems h hl ht with
    | kept hold => exact absurd (List.getElem?_eq_some_iff.mp hold).1 (Nat.lt_irrefl _)
    | fresh hlen hth =>
      subst hth
      rfl

/-- A throw that BullMQ counts is that of an owner that has recorded an attempt. -/
theorem Owns.paid (ho : Owns s t d j) (hr : Reachable env (Paced d) s) (hl : Paces d s (.settle t))
    (hlive : s.live? t = some th) {err : Err} (hp : th.prog = .raise err) (hne : err ≠ .delayed) :
    s.paid j (s.pg.db.attempted d) = true := by
  obtain ⟨job, hk, hid, -⟩ := ho.runs hr hlive
  have hfail : s.failing t = some d := by
    rw [State.failing_eq hlive hp hne hk (hid ▸ (reachable_jobs hr).job? ho.job) ho.owner, ho.delivery]
  have hahead := hl hfail
  rw [hlive] at hahead
  simpa [State.paid, ho.owner, (State.live?_eq_some.mp hlive).1] using hahead

/-! ## The pace -/

/-- **The live job of a delivery has counted every attempt** but that of its present owner. -/
structure Pace (s : State) (d : DeliveryId) : Prop where
  job : ∀ j ∈ s.jobs, j.live = true → j.deliveryId = d → s.pg.db.status? d ≠ some .delivered →
    s.pg.db.attempted d = j.attemptsMade + (s.paid j (s.pg.db.attempted d)).toNat
  kept : s.pg.db.attempted d = 0 ∨ s.pg.db.status? d = some .delivered ∨
    ∃ j ∈ s.jobs, j.id = .delivery d ∧ j.state ≠ .completed

/-- A job that is live after its turn has counted as before. -/
theorem Pace.turned (hI : Pace s d) (hr : Reachable env (Paced d) s) (hl : Paced d s l)
    (h : step env s l = some s') (hj : j ∈ s.jobs) (hturn : Turns env s l j j')
    (hlive' : j'.live = true) (hd : j.deliveryId = d) (hst : s.pg.db.status? d ≠ some .delivered) :
    s.pg.db.attempted d = j'.attemptsMade + (s'.paid j' (s.pg.db.attempted d)).toNat := by
  have hjobs := reachable_jobs hr
  cases hturn with
  | same =>
    rw [State.paid_step hr h hj hd]
    exact hI.job j hj hlive' hd hst
  | pickup hl' hidle =>
    have hlive : j.live = true := by rcases hidle with h | h <;> simp [Job.live, h]
    have howner : j.owner = none := by
      by_contra hne
      have hactive := hjobs.owned j hj (Option.isSome_iff_ne_none.mpr hne)
      rcases hidle with h | h <;> cases h.symm.trans hactive
    have hold := hI.job j hj hlive hd hst
    rw [State.paid, howner] at hold
    rw [State.paid_fresh h (by rw [hl']; simp) rfl]
    exact hold
  | stall hl' hactive =>
    subst hl'
    have hpaid := hl.2 j (hjobs.job? hj) hd
    have hold := hI.job j hj (by simp [Job.live, hactive]) hd hst
    rw [hpaid] at hold
    exact hold
  | stallFail => cases hlive'
  | parked hl' hlive hp ho =>
    have hown : Owns s _ d j := ⟨hj, ho, hd⟩
    have hold := hI.job j hj (hown.live hjobs) hd hst
    rw [hown.unpaid hr hlive hp] at hold
    exact hold
  | completes => cases hlive'
  | @fails t th err hl' hlive hp hne ho =>
    subst hl'
    have hown : Owns s t d j := ⟨hj, ho, hd⟩
    have hold := hI.job j hj (hown.live hjobs) hd hst
    rw [hown.paid hr hl.2 hlive hp hne] at hold
    exact hold

/-- A job is added only while nothing was attempted: its id is that of the first job, which is kept, or
it is the job of a manual retry. -/
theorem Pace.added (hI : Pace s d) (hr : Reachable env (Paced d) s) (hl : Paced d s l) {id : JobId}
    (hadd : Adds? s l id d) (hnone : s.jobs.job? id = none)
    (hst : s.pg.db.status? d ≠ some .delivered) : s.pg.db.attempted d = 0 := by
  cases hadd with
  | @call t c th k hl' hlive hp =>
    subst hl'
    rcases ((reachable_ok hr).threads t th hlive).permits hp with ⟨-, hid⟩ | ⟨n, -, -, -, -, ms, hid⟩
    · rcases hI.kept with hzero | hdel | ⟨j, hj, hjid, -⟩
      · exact hzero
      · exact absurd hdel hst
      · exact absurd (hjid.trans hid.symm) (Jobs.job?_none hnone j hj)
    · refine hl.2 ?_
      rw [hid] at hp
      rw [hlive, Option.bind_some, Thread.restarts, hp]
  | operator hl' => exact absurd hl' (hl.1.1.no_put (Or.inl rfl))

/-- **A step that leaves the delivery alone keeps the pace.** -/
theorem Pace.rest (hI : Pace s d) (hr : Reachable env (Paced d) s) (hl : Paced d s l)
    (h : step env s l = some s') (hcount : s'.pg.db.attempted d = s.pg.db.attempted d)
    (hdel : s'.pg.db.status? d = some .delivered ↔ s.pg.db.status? d = some .delivered) :
    Pace s' d := by
  have hjobs := reachable_jobs hr
  have hnamed := reachable_named Paced.keepsJobs hr
  constructor
  · intro j' hj' hlive' hd hst
    rw [hcount]
    have hst : s.pg.db.status? d ≠ some .delivered := fun h => hst (hdel.mpr h)
    rcases (step_turns hjobs h).back hj' with ⟨j, hj, hturn⟩ | ⟨hadd, hnone, hnew⟩
    · exact hI.turned hr hl h hj hturn hlive' (hturn.id.2.symm.trans hd) hst
    · have hzero : s.pg.db.attempted d = 0 := hI.added hr hl (hd ▸ hadd) hnone hst
      have hpaid : s'.paid j' (s.pg.db.attempted d) = false := by
        rw [hnew]
        rfl
      rw [hpaid, hzero, hnew]
      rfl
  · rw [hcount, hdel]
    rcases hI.kept with hzero | hst | ⟨j, hj, hid, hne⟩
    · exact Or.inl hzero
    · exact Or.inr (Or.inl hst)
    · have hd := hnamed j hj hid
      rcases (step_turns hjobs h).forward hj (hl.1.1.no_loss hj (Or.inl hd)) with
        ⟨j', hj', hturn⟩ | ⟨-, hst⟩
      · cases hturn with
        | completes hl' hlive hp ho =>
          -- what a processor completes is final
          cases hD : s.pg.db.dossier? d with
          | none => exact Or.inl (Db.attempted_none hD)
          | some D =>
            rcases Owns.completed ⟨hj, ho, hd⟩ Paced.keepsJobs hr (reachable_paced_viewed hr) hlive hp
              hD with hdone | hzero
            · exact Or.inr (Or.inl ((Db.status?_eq hD).trans (congrArg some hdone)))
            · exact Or.inl ((Db.attempted_eq hD).trans hzero)
        | same => exact Or.inr (Or.inr ⟨_, hj', hid, hne⟩)
        | fails =>
          refine Or.inr (Or.inr ⟨_, hj', hid, ?_⟩)
          dsimp only
          split <;> decide
        | _ => exact Or.inr (Or.inr ⟨_, hj', hid, by simp⟩)
      · exact absurd hst hne

/-! ## COMMITs -/

section Commit

variable {c : Choice} {r : Except Err Unit} {k : Except Err Unit → Code Reply} {w : World} {m : Memory}

/-- **A COMMIT keeps the pace.** -/
theorem Pace.deed (hI : Pace s d) (hr : Reachable env (Paced d) s)
    (h : step env s (.op t c) = some s') (hadv : Advance s s' t c th (.sql .commit) r k w m)
    (hD : s.pg.db.dossier? d = some D) (hD' : s'.pg.db.dossier? d = some D')
    (hdeed : Deed env s d t th D D') : Pace s' d := by
  have hjobs := reachable_jobs hr
  obtain ⟨-, o, hlane⟩ := reachable_lane Paced.keepsJobs hr
  obtain ⟨j₁, hj₁, hid₁, hne₁⟩ := hdeed.kept Paced.keepsJobs hr hadv.live hD
  have hkept : ∃ j ∈ s'.jobs, j.id = .delivery d ∧ j.state ≠ .completed :=
    ⟨j₁, hadv.sql_jobs ▸ hj₁, hid₁, hne₁⟩
  refine ⟨fun j hj hlive hd hst => ?_, Or.inr (Or.inr hkept)⟩
  rw [hadv.sql_jobs] at hj
  have hq : s.queued d j.id := ⟨j, hj, hlive, rfl, hd⟩
  have hview : ∀ {j : Job} {x : DeliveryForWorker}, Owns s t d j → th.facts.Working x →
      D.row.status ≠ .delivered ∧ D.row.attemptCount = x.attemptCount := fun ho hw => by
    obtain ⟨hnd, hcount, -⟩ :=
      (reachable_paced_viewed hr t th _ D hadv.live ho hD).not_delivered (course_row _) hw
    exact ⟨hnd, hcount⟩
  cases hdeed with
  | mark ho hw =>
    have hcount : s'.pg.db.attempted d = s.pg.db.attempted d := by
      rw [Db.attempted_eq hD', Db.attempted_eq hD]
      rfl
    rw [hcount, State.paid_step hr h hj hd]
    refine hI.job j hj hlive hd fun hdel => ?_
    rw [Db.status?_eq hD] at hdel
    exact (hview ho hw).1 (Option.some.inj hdel)
  | @record j₀ x a ho hw hn htx gen id f next reason τ τ' =>
    obtain ⟨hnd, hx⟩ := hview ho hw
    obtain rfl := live_unique Paced.keepsJobs hr hj ho.job hlive (ho.live hjobs) hd ho.delivery
    have hstatus : s.pg.db.status? d ≠ some .delivered := fun hdel => by
      rw [Db.status?_eq hD] at hdel
      exact hnd (Option.some.inj hdel)
    have hold := hI.job j hj hlive hd hstatus
    have hrow := hw.row
    have hbefore : s.paid j (s.pg.db.attempted d) = false := by
      simp [State.paid, ho.owner, (State.live?_eq_some.mp hadv.live).1, Thread.ahead, hrow,
        Db.attempted_eq hD, hx]
    have hrow' : (th.facts.next (.sql .commit) r).row = some x := by
      rw [Facts.next_row (e := .sql .commit) r (by simp), hrow]
    have hafter : s'.paid j (s'.pg.db.attempted d) = true := by
      have hth := (State.live?_eq_some.mp hadv.live?_self).1
      simp only [State.paid, ho.owner, Option.bind_some, hth, Option.any_some]
      change (th.facts.next (.sql .commit) r).row.any _ = true
      rw [hrow', Db.attempted_eq hD']
      simp [Dossier.recorded, hx]
    rw [hafter, Db.attempted_eq hD']
    rw [hbefore, Db.attempted_eq hD] at hold
    exact congrArg Nat.succ hold
  | exhaust hk ha => exact absurd hq ((hlane.of_agent ⟨th, hadv.live, ha⟩).2.2.1 j.id)
  | retry hk hst' =>
    have hdlq : s.pg.db.status? d = some .dlq := (Db.status?_eq hD).trans (congrArg some hst')
    exact absurd hq ((hlane.of_dlq hdlq).2.2.1 j.id)

end Commit

/-! ## Runs -/

theorem Pace.step (hI : Pace s d) (hr : Reachable env (Paced d) s) (hl : Paced d s l)
    (h : step env s l = some s') : Pace s' d := by
  cases hD' : s'.pg.db.dossier? d with
  | none =>
    have hD : s.pg.db.dossier? d = none := by
      by_contra hne
      obtain ⟨D, hD⟩ := Option.ne_none_iff_exists'.mp hne
      obtain ⟨D', hsome⟩ := story_isSome (reachable_ok hr) h hD
      cases hD'.symm.trans hsome
    refine hI.rest hr hl h ?_ ?_
    · rw [Db.attempted_none hD, Db.attempted_none hD']
    · rw [Db.status?_of_dossier? (hD'.trans hD.symm)]
  | some D' =>
    rcases story_deeds Paced.keepsJobs hr hl.1.2 h hD' with
      hun | ⟨t, c, th, r, k, w, m, D, rfl, hadv, hD, hdeed⟩
    · cases hun with
      | same hD =>
        refine hI.rest hr hl h ?_ ?_
        · rw [Db.attempted_eq hD, Db.attempted_eq hD']
        · rw [Db.status?_of_dossier? (hD'.trans hD.symm)]
      | @touched D τ hD heq =>
        subst heq
        refine hI.rest hr hl h ?_ ?_
        · rw [Db.attempted_eq hD, Db.attempted_eq hD']
          rfl
        · rw [Db.status?_eq hD, Db.status?_eq hD']
          rfl
      | created hD ev ep id τ τ' heq =>
        subst heq
        refine hI.rest hr hl h ?_ ?_
        · rw [Db.attempted_none hD, Db.attempted_eq hD']
          rfl
        · rw [Db.status?_eq hD', Db.status?, Db.dossier?_none.mp hD]
          simp [Dossier.created]
    · exact hI.deed hr h hadv hD hD' hdeed

theorem reachable_pace (h : Reachable env (Paced d) s) : Pace s d := by
  have hinv : Reachable env (Paced d) s ∧ Pace s d := by
    obtain ⟨ls, h⟩ := h
    refine h.invariant (I := fun s => Reachable env (Paced d) s ∧ Pace s d) ?_
      ⟨.refl _, nofun, Or.inl rfl⟩
    rintro s l s' ⟨hr, hI⟩ hl hstep
    exact ⟨hr.snoc hl hstep, hI.step hr hl hstep⟩
  exact hinv.2

/-- The time stored with the attempt of the execution was drawn from the base of BullMQ's delay after
`made` attempts. -/
def Thread.Agrees (env : Env) (th : Thread) (db : Db) (d : DeliveryId) (made : ℕ) : Prop :=
  ∃ r row, th.facts.row = some r ∧ db.delivery? d = some row ∧
    Drawn env (r.attemptCount + 1) row.nextAttemptAt ∧
      backoffBase env (r.attemptCount + 1) = backoffBase env made

theorem settle_pg (h : step env s (.settle t) = some s') : s'.pg = s.pg := by
  obtain ⟨th, -, -, hsettles⟩ := settle_cases h
  cases hsettles <;> rfl

theorem settle_counts (hjobs : s.jobs.Ok env) (h : step env s (.settle t) = some s') (hj : j ∈ s.jobs)
    (hj' : j' ∈ s'.jobs) (hid : j'.id = j.id) (hmade : j'.attemptsMade = j.attemptsMade + 1) :
    ∃ th err, s.live? t = some th ∧ th.prog = .raise err ∧ err ≠ .delayed ∧
      Owns s t j.deliveryId j := by
  rcases (step_turns hjobs h).back hj' with ⟨j₀, hj₀, hturn⟩ | ⟨-, -, hnew⟩
  · obtain rfl : j₀ = j := by
      have hold := hjobs.job? hj₀
      rw [← hturn.id.1, hid, hjobs.job? hj] at hold
      exact (Option.some.inj hold).symm
    cases hturn with
    | fails hl hlive hp hne ho =>
      cases hl
      exact ⟨_, _, hlive, hp, hne, hj, ho, rfl⟩
    | _ => exact absurd hmade (by simp)
  · rw [hnew] at hmade
    cases hmade

/-- **The stored schedule is BullMQ's**: in such runs, when a processor that has recorded a failed attempt
throws and BullMQ counts it, the stored time of the next attempt was drawn from the base of the delay
after that count. -/
theorem schedule_agrees (h : Reachable env (Paced j.deliveryId) s)
    (hl : Paced j.deliveryId s (.settle t))
    (hstep : step env s (.settle t) = some s') (ht : s.live? t = some th) (hj : j ∈ s.jobs)
    (hj' : j' ∈ s'.jobs) (hid : j'.id = j.id) (hmade : j'.attemptsMade = j.attemptsMade + 1)
    (hrec : th.recorded s.pg.db j.deliveryId = true) :
    th.Agrees env s'.pg.db j.deliveryId j'.attemptsMade := by
  have hjobs := reachable_jobs h
  obtain ⟨th₀, err, hlive, hp, hne, ho⟩ := settle_counts hjobs hstep hj hj' hid hmade
  obtain rfl := Option.some.inj (ht.symm.trans hlive)
  obtain ⟨r, D, hrow, hD, hcount, hst⟩ :=
    ho.recorded Paced.keepsJobs h (reachable_paced_viewed h) ht hrec
  have hpace := (reachable_pace h).job j hj (ho.live hjobs) rfl
    (by rw [Db.status?_eq hD, hst]; simp)
  rw [ho.paid h hl.2 ht hp hne, Db.attempted_eq hD, hcount] at hpace
  have hplanned := reachable_planned (fun s l h => (Paced.keepsJobs s l h).1) h hD hst
  rw [hcount] at hplanned
  have hpg : s'.pg = s.pg := settle_pg hstep
  refine ⟨r, D.row, hrow, hpg ▸ (Db.dossier?_eq_some.mp hD).1, hplanned, ?_⟩
  rw [hpace, hmade]
  rfl

/-- The outcome of execution `t` makes BullMQ delay the job of the delivery 2 after its failed attempt. -/
def State.reschedules (s : State) (t : Tid) : Bool :=
  (s.live? t).any (·.recorded s.pg.db 2) && (s.jobs.job? (.delivery 2)).any fun j =>
    j.deliveryId = 2 && (step sampleEnv s (.settle t)).any fun s' =>
      (s'.jobs.job? (.delivery 2)).any fun j' =>
        j'.attemptsMade = j.attemptsMade + 1 ∧ j'.state = .delayed

theorem State.exists_of_reschedules (h : s.reschedules t = true) : ∃ s' th j j',
    step sampleEnv s (.settle t) = some s' ∧ s.live? t = some th ∧ j ∈ s.jobs ∧ j' ∈ s'.jobs ∧
      j'.id = j.id ∧ j'.attemptsMade = j.attemptsMade + 1 ∧ j'.state = .delayed ∧
        j.deliveryId = 2 ∧ j.id = .delivery 2 ∧ th.recorded s.pg.db j.deliveryId = true := by
  simp only [State.reschedules, Bool.and_eq_true] at h
  obtain ⟨hany, h⟩ := h
  obtain ⟨th, ht, hrec⟩ := (Option.any_eq_true _ _).mp hany
  obtain ⟨j, hj, h⟩ := (Option.any_eq_true _ _).mp h
  simp only [Bool.and_eq_true, decide_eq_true_eq] at h
  obtain ⟨hd, h⟩ := h
  obtain ⟨s', hstep, h⟩ := (Option.any_eq_true _ _).mp h
  obtain ⟨j', hj', h⟩ := (Option.any_eq_true _ _).mp h
  obtain ⟨hmade, hst⟩ := of_decide_eq_true h
  obtain ⟨hj, hid⟩ := Jobs.mem_of_job? hj
  obtain ⟨hj', hid'⟩ := Jobs.mem_of_job? hj'
  exact ⟨s', th, j, j', hstep, ht, hj, hj', hid'.trans hid.symm, hmade, hst, hd, hid, hd.symm ▸ hrec⟩

theorem schedule_agrees_second : ∃ (s : State) (th : Thread) (j' : Job),
    j'.attemptsMade = 2 ∧ th.Agrees sampleEnv s.pg.db 2 j'.attemptsMade := by
  obtain ⟨s, hreach, hs⟩ := sample_run (C := Paced 2)
    (sampleIngest ++ sampleAttempt 1 ++ .pickup (.delivery 2) :: calls 3 33 { reply := .response 500 "" })
    (fun s => Paced 2 s (.settle 3) ∧ s.reschedules 3 ∧
      (s.jobs.job? (.delivery 2)).all fun j => j.attemptsMade = 1) (by decide +kernel)
  obtain ⟨hl, hre, hone⟩ := of_decide_eq_true hs
  obtain ⟨s', th, j, j', hstep, ht, hj, hj', hid, hmade, -, hd, hdel, hrec⟩ :=
    State.exists_of_reschedules hre
  have hjob := (reachable_jobs hreach).job? hj
  rw [hdel] at hjob
  rw [hjob] at hone
  have hone : j.attemptsMade = 1 := of_decide_eq_true hone
  refine ⟨s', th, j', by rw [hmade, hone], ?_⟩
  rw [← hd] at hreach hl ⊢
  exact schedule_agrees hreach hl hstep ht hj hj' hid hmade hrec

/-- Redis does not answer the first call of the first execution; the second one records the first attempt
of the delivery, and BullMQ counts two. -/
theorem schedule_disagrees : ¬ ∀ (s s' : State) (t : Tid) (th : Thread) (j j' : Job),
    Reachable sampleEnv Steady s → step sampleEnv s (.settle t) = some s' → s.live? t = some th →
      j ∈ s.jobs → j' ∈ s'.jobs → j'.id = j.id → j'.attemptsMade = j.attemptsMade + 1 →
        j'.state = .delayed → th.recorded s.pg.db j.deliveryId = true →
          th.Agrees sampleEnv s'.pg.db j.deliveryId j'.attemptsMade := by
  intro h
  obtain ⟨s, hreach, hs⟩ := sample_run (C := Steady)
    (sampleIngest ++ sampleFailure 1 ++ .pickup (.delivery 2) :: calls 3 33 { reply := .response 500 "" })
    (fun s => s.reschedules 3 ∧ ((s.jobs.job? (.delivery 2)).all fun j => j.attemptsMade = 1) ∧
      (s.live? 3).all fun th => th.facts.row.all fun r => r.attemptCount = 0) (by decide +kernel)
  obtain ⟨hre, hone, hzero⟩ := of_decide_eq_true hs
  obtain ⟨s', th, j, j', hstep, ht, hj, hj', hid, hmade, hst, hd, hdel, hrec⟩ :=
    State.exists_of_reschedules hre
  have hjob := (reachable_jobs hreach).job? hj
  rw [hdel] at hjob
  rw [hjob] at hone
  have hone : j.attemptsMade = 1 := of_decide_eq_true hone
  obtain ⟨r, row, hrow, -, -, hbase⟩ := h s s' 3 th j j' hreach hstep ht hj hj' hid hmade hst hrec
  rw [ht] at hzero
  have hzero : (th.facts.row.all fun r => r.attemptCount = 0) = true := hzero
  rw [hrow] at hzero
  have hzero : r.attemptCount = 0 := of_decide_eq_true hzero
  rw [hzero, hmade, hone] at hbase
  revert hbase
  decide

end WebhookEngine
