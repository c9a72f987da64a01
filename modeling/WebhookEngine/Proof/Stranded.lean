import WebhookEngine.Proof.Outcomes
import WebhookEngine.Proof.Queue

set_option autoImplicit false

/-!
# Stranded deliveries

The selection predicate of `claimUnenqueued` finds every PENDING delivery and every FAILED one, but
no DELIVERING one: a DELIVERING delivery depends on its job or on the worker that marked it.

* `Leaves`, `KeepsCarriers`: the last job and the last worker of a DELIVERING delivery are not taken
  away, by a crash, by the end of an execution, or by a loss of Redis.
* `reachable_scheduled`: a FAILED delivery has a time for its next attempt.
* **`not_stranded`**: under `KeepsCarriers` every delivery that is not settled yet has a worker, a live
  job, or is found by the sweep once enough time has passed.
* **`delivering_stranded`**: a worker that dies and a loss of Redis strand a DELIVERING delivery.
-/

namespace WebhookEngine

open EffectProg TransitionSystem

variable {env : Env} {s s' : State} {l : Label} {t u : Tid} {th th' : Thread} {d : DeliveryId}

/-- The delivery an execution of the worker is about. -/
def Thread.worksOn (th : Thread) : Option DeliveryId :=
  match th.kind with
  | .deliver job => some job.deliveryId
  | .failed job => some job.deliveryId
  | _ => none

/-- A worker other than those in `gone` is executing on the delivery. -/
def State.worked (s : State) (d : DeliveryId) (gone : Option Tid) : Prop :=
  ∃ u < s.threads.length, some u ≠ gone ∧ (s.live? u).bind Thread.worksOn = some d

instance (s : State) (d : DeliveryId) (gone : Option Tid) : Decidable (s.worked d gone) :=
  inferInstanceAs (Decidable (∃ u < s.threads.length, _))

/-- The delivery whose job fails when the outcome of `t` is taken. -/
def State.failing (s : State) (t : Tid) : Option DeliveryId :=
  (s.live? t).bind fun th =>
    match th.prog, th.kind with
    | .raise err, .deliver job =>
      if err ≠ .delayed then ((s.jobs.job? job.id).filter (·.owner = some t)).map (·.deliveryId)
      else none
    | _, _ => none

/-- Before the step the delivery has a live job or a worker besides what the step takes away from it. A
job that fails for good is handed to its `failed` handler, which is a worker. -/
def Leaves (s : State) (d : DeliveryId) : Label → Prop
  | .redisLoss => s.worked d none
  | .crash t => s.jobs.hasLive d = true ∨ s.worked d (some t)
  | .settle t => (∃ j ∈ s.jobs, j.live = true ∧ j.deliveryId = d ∧ j.owner ≠ some t) ∨
      s.worked d (some t) ∨ s.failing t = some d
  | _ => True

instance (s : State) (d : DeliveryId) : (l : Label) → Decidable (Leaves s d l)
  | .redisLoss => inferInstanceAs (Decidable (s.worked d none))
  | .crash t => inferInstanceAs (Decidable (s.jobs.hasLive d = true ∨ s.worked d (some t)))
  | .settle t => inferInstanceAs (Decidable ((∃ j ∈ s.jobs, j.live = true ∧ j.deliveryId = d ∧
      j.owner ≠ some t) ∨ s.worked d (some t) ∨ s.failing t = some d))
  | .tick _ | .op _ _ | .extend _ | .extendReply _ | .request _ | .pickup _ | .stall _
  | .stallFail _ | .removeCompleted _ | .operatorAdd _ _ | .evict _ | .idemArrive _
  | .createEndpoint _ _ _ | .patchEndpoint _ _ _ => inferInstanceAs (Decidable True)

/-- The engine alone, and no DELIVERING delivery loses its last job and its last worker. -/
def KeepsCarriers (s : State) (l : Label) : Prop :=
  NoCalls s l ∧ ∀ row ∈ s.pg.db.deliveries, row.status = .delivering → Leaves s row.id l

instance (s : State) (l : Label) : Decidable (KeepsCarriers s l) :=
  inferInstanceAs (Decidable (_ ∧ _))

theorem KeepsCarriers.noCalls (s : State) (l : Label) (h : KeepsCarriers s l) : NoCalls s l := h.1

/-! ## Carriers -/

/-- A live job or a worker. -/
def Carried (s : State) (d : DeliveryId) : Prop := s.jobs.hasLive d = true ∨ s.worked d none

theorem State.worked_of_live (ht : s.live? t = some th) (hw : th.worksOn = some d) :
    s.worked d none := by
  refine ⟨t, State.live?_lt ht, fun h => ?_, by rw [ht]; exact hw⟩
  cases h

theorem Thread.worksOn_congr (h : th'.kind = th.kind) : th'.worksOn = th.worksOn := by
  rw [Thread.worksOn, h]
  rfl

theorem State.worked.step (h : step env s l = some s') {gone : Option Tid}
    (hl : ∀ u, some u ≠ gone → l ≠ .settle u ∧ l ≠ .crash u) (hw : s.worked d gone) :
    s'.worked d none := by
  obtain ⟨u, -, hne, hu⟩ := hw
  obtain ⟨th, hlive, hth⟩ := Option.bind_eq_some_iff.mp hu
  obtain ⟨th', hlive', hk⟩ := step_survives h hlive (hl u hne).1 (hl u hne).2
  exact State.worked_of_live hlive' ((Thread.worksOn_congr hk).trans hth)

theorem settle_failing (h : s.settle env t = some s') (hf : s.failing t = some d) :
    s'.worked d none := by
  obtain ⟨th, hlive, -, h⟩ := settle_cases h
  rw [State.failing, hlive, Option.bind_some] at hf
  split at hf
  · rename_i err job hp hk
    split at hf
    · rename_i hne
      obtain ⟨j, hj, rfl⟩ := Option.map_eq_some_iff.mp hf
      obtain ⟨hj, ho⟩ := Option.filter_eq_some_iff.mp hj
      have ho : j.owner = some t := by simpa using ho
      cases h with
      | plain hplain =>
        rcases hplain job hk with hraise | hown
        · cases hp.symm.trans hraise
          exact absurd rfl hne
        · exact absurd ho (hown j hj)
      | completes hret => cases hp.symm.trans hret
      | @fails job' j' err' hp' hne' hk' hj' ho' =>
        cases hk.symm.trans hk'
        cases hj.symm.trans hj'
        have hnew := @State.live?_failJob env (s.put t th.over) (s.put t th.over).threads.length j
        rw [if_pos rfl] at hnew
        exact State.worked_of_live hnew rfl
    · cases hf
  · cases hf

theorem stallFail_worked (hjobs : s.jobs.Ok env) {j : Job} (hj : j ∈ s.jobs)
    (h : step env s (.stallFail j.id) = some s') : s'.worked j.deliveryId none := by
  obtain ⟨j', hj', rfl⟩ := Option.map_eq_some_iff.mp h
  obtain ⟨hj', -⟩ := Option.filter_eq_some_iff.mp hj'
  rw [hjobs.job? hj] at hj'
  cases hj'
  have hnew := @State.live?_spawn env { s with jobs := s.jobs.modify j.id fun j =>
    { j with state := .failed, owner := none } } s.threads.length (.failed j.ref)
  rw [if_pos rfl] at hnew
  exact State.worked_of_live hnew rfl

/-- **What the step leaves is there after it.** -/
theorem Carried.step (hjobs : s.jobs.Ok env) (hl : Leaves s d l) (h : step env s l = some s')
    (hI : Carried s d) : Carried s' d := by
  have hlive : ∀ {j : Job}, j ∈ s.jobs → j.live = true → j.deliveryId = d → l ≠ .redisLoss →
      (∀ t, l ≠ .settle t) → Carried s' d := by
    intro j hj hlive hd hloss hsettle
    by_cases hstall : l = .stallFail j.id
    · subst hstall
      exact Or.inr (hd ▸ stallFail_worked hjobs hj h)
    · refine Or.inl (hasLive_step hjobs h hj hlive hd (fun he => ?_) hloss)
      have hending := he.ending
      unfold State.ending at hending
      split at hending
      · cases hending
        exact hstall rfl
      · exact hsettle _ rfl
      · cases hending
  cases l with
  | redisLoss => exact Or.inr (State.worked.step h (fun u _ => ⟨nofun, nofun⟩) hl)
  | crash t =>
    rcases hl with hl | hl
    · obtain ⟨j, hj, hd, hjl⟩ := Jobs.hasLive_iff.mp hl
      exact hlive hj hjl hd nofun nofun
    · refine Or.inr (State.worked.step h (fun u hu => ⟨nofun, fun hc => ?_⟩) hl)
      cases hc
      exact hu rfl
  | settle t =>
    rcases hl with ⟨j, hj, hjl, hd, ho⟩ | hl | hl
    · exact Or.inl (hasLive_step hjobs h hj hjl hd (fun he => ho (he.owner t rfl)) nofun)
    · refine Or.inr (State.worked.step h (fun u hu => ⟨fun hc => ?_, nofun⟩) hl)
      cases hc
      exact hu rfl
    · exact Or.inr (settle_failing h hl)
  | _ =>
    rcases hI with hI | hI
    · obtain ⟨j, hj, hd, hjl⟩ := Jobs.hasLive_iff.mp hI
      exact hlive hj hjl hd nofun nofun
    · exact Or.inr (State.worked.step h (fun u _ => ⟨nofun, nofun⟩) hI)

/-! ## DELIVERING -/

/-- Every DELIVERING delivery has a live job or a worker. -/
theorem reachable_carried (h : Reachable env KeepsCarriers s) :
    ∀ d, s.pg.db.status? d = some .delivering → Carried s d := by
  have hinv : Reachable env KeepsCarriers s ∧
      ∀ d, s.pg.db.status? d = some .delivering → Carried s d := by
    obtain ⟨ls, h⟩ := h
    refine h.invariant (I := fun s => Reachable env KeepsCarriers s ∧
      ∀ d, s.pg.db.status? d = some .delivering → Carried s d) ?_ ⟨.refl _, fun d hd => by cases hd⟩
    rintro s l s' ⟨hr, hI⟩ hl hstep
    refine ⟨hr.snoc hl hstep, fun d hd => ?_⟩
    have hs := reachable_ok hr
    by_cases hd₀ : s.pg.db.status? d = some .delivering
    · obtain ⟨row, hrow, hst⟩ := Option.map_eq_some_iff.mp hd₀
      have hmem : row ∈ s.pg.db.deliveries := List.mem_of_find?_eq_some hrow
      have hleaves := hl.2 row hmem hst
      rw [Db.delivery?_id hrow] at hleaves
      exact Carried.step (reachable_jobs hr) hleaves hstep (hI d hd₀)
    -- the delivery has just been marked, by a worker that is still there
    rcases story hs hstep d with h' | ⟨D, τ, hD, h'⟩ | ⟨t, c, th, r, k, w, m, -, hadv, hc⟩
    · exact absurd ((Db.status?_of_dossier? h').symm.trans hd) hd₀
    · rw [Db.status?_eq h'] at hd
      exact absurd ((Db.status?_eq hD).trans hd) hd₀
    have hcall := kind_ne_call KeepsCarriers.noCalls hr hadv.live
    obtain ⟨row, hrow, hst⟩ := Option.map_eq_some_iff.mp hd
    have hD' : s'.pg.db.dossier? d = some ⟨row, s'.pg.db.log d, s'.pg.db.attemptsOf d⟩ := by
      simp [Db.dossier?, hrow]
    rw [hD'] at hc
    generalize hD : s.pg.db.dossier? d = o at hc
    generalize hrec : Dossier.mk row (s'.pg.db.log d) (s'.pg.db.attemptsOf d) = D' at hc
    have hst : D'.row.status = .delivering := by rw [← hrec]; exact hst
    cases hc with
    | created => cases hst
    | @moved D f g a hmv id hid gen hm reason τ τ' =>
      generalize hkind : th.kind = kd at hmv
      cases hmv with
      | @mark job _ x hw hmoved =>
        have hworks : th.worksOn = some job.deliveryId := by rw [Thread.worksOn, hkind]
        exact Or.inr (State.worked_of_live hadv.live?_self hworks)
      | exhaust => cases hst
      | retry => cases hst
      | call => exact absurd hkind (hcall _)
    | @recorded D a f g next hrec' ha hnew id hid gen hm reason τ τ' =>
      have hg : g = .delivering := hst
      rw [hrec'.to hcall] at hg
      cases hout : a.outcome <;> rw [hout] at hg <;> cases hg
  exact hinv.2

/-! ## PENDING and FAILED -/

/-- A FAILED delivery has a time for its next attempt. -/
def Dossier.Scheduled (D : Dossier) : Prop :=
  D.row.status = .failed → D.row.nextAttemptAt.isSome = true

theorem reachable_scheduled {C : State → Label → Prop} (hC : ∀ s l, C s l → NoCalls s l)
    (h : Reachable env C s) {D : Dossier} (hD : s.pg.db.dossier? d = some D) : D.Scheduled := by
  refine reachable_dossier (P := Dossier.Scheduled) ?_ (fun D τ h => h) ?_ h hD
  · intro d ev ep id τ τ' hst
    cases hst
  · intro s t th d D D' hr ht _ h hc hst
    have hcall := kind_ne_call hC hr ht.live
    cases hc with
    | moved hmv hid hm reason τ τ' => exact absurd hst (hmv.to hcall).2
    | @recorded _ a f g next hrec ha hnew id hid gen hm reason τ τ' =>
      generalize th.kind = kd at hrec hcall
      cases hrec with
      | circuit => rfl
      | outcome hw hmoved hd hn ho hnext =>
        refine hnext fun hsucc => ?_
        have hto : a.outcome.toStatus = .failed := hst
        rw [hsucc] at hto
        cases hto
      | call => exact absurd rfl (hcall _)

/-- From some time on the selection predicate of the sweep finds the row. -/
def Recoverable (env : Env) (row : DeliveryRow) : Prop :=
  ∃ T, ∀ now, T ≤ now → claimable env.reconcilerGraceSeconds now row = true

theorem recoverable_pending {row : DeliveryRow} (h : row.status = .pending) :
    Recoverable env row := by
  refine ⟨row.updatedAt + env.reconcilerGraceSeconds * 1000 + 1, fun now hnow => ?_⟩
  simp only [claimable, h, true_or, true_and, decide_eq_true_eq]
  exact Nat.lt_of_succ_le hnow

theorem recoverable_failed {row : DeliveryRow} (h : row.status = .failed)
    (hnext : row.nextAttemptAt.isSome = true) : Recoverable env row := by
  obtain ⟨next, hnext⟩ := Option.isSome_iff_exists.mp hnext
  refine ⟨max (row.updatedAt + env.reconcilerGraceSeconds * 1000) next + 1, fun now hnow => ?_⟩
  have h1 : row.updatedAt + env.reconcilerGraceSeconds * 1000 < now :=
    Nat.lt_of_le_of_lt (Nat.le_max_left _ _) (Nat.lt_of_succ_le hnow)
  have h2 : next < now := Nat.lt_of_le_of_lt (Nat.le_max_right _ _) (Nat.lt_of_succ_le hnow)
  simp [claimable, h, hnext, h1, h2]

/-- **No delivery is stranded** in runs in which no DELIVERING delivery loses its last job and its
last worker: every unsettled delivery has a worker, a live job, or a row the sweep will find. -/
theorem not_stranded (h : Reachable env KeepsCarriers s) {row : DeliveryRow}
    (hrow : row ∈ s.pg.db.deliveries)
    (hst : row.status = .pending ∨ row.status = .delivering ∨ row.status = .failed) :
    s.worked row.id none ∨ s.jobs.hasLive row.id = true ∨ Recoverable env row := by
  have hD := (reachable_ok h).db.dossier?_of_mem hrow
  rcases hst with hst | hst | hst
  · exact Or.inr (Or.inr (recoverable_pending hst))
  · have hd := (Db.status?_eq hD).trans (congrArg some hst)
    rcases reachable_carried h row.id hd with hc | hc
    · exact Or.inr (Or.inl hc)
    · exact Or.inl hc
  · exact Or.inr (Or.inr (recoverable_failed hst (reachable_scheduled KeepsCarriers.noCalls h hD hst)))

/-- A worker died after it marked the delivery; its job is still there. -/
theorem not_stranded_crashed : ∃ s row, Reachable sampleEnv KeepsCarriers s ∧
    row ∈ s.pg.db.deliveries ∧ row.status = .delivering ∧
      (s.worked row.id none ∨ s.jobs.hasLive row.id = true ∨ Recoverable sampleEnv row) := by
  obtain ⟨s, hreach, hs⟩ := sample_run (C := KeepsCarriers)
    (sampleIngest ++ .pickup (.delivery 2) :: calls 1 11 ++ [.crash 1])
    (fun s => s.pg.db.deliveries.any fun row => row.status = .delivering) (by decide +kernel)
  obtain ⟨row, hrow, hst⟩ := List.any_eq_true.mp hs
  have hst : row.status = .delivering := by simpa using hst
  exact ⟨s, row, hreach, hrow, hst, not_stranded hreach hrow (Or.inr (Or.inl hst))⟩

/-- A worker dies after it marked the delivery, and Redis is lost. -/
def sampleLost : List Label :=
  sampleIngest ++ .pickup (.delivery 2) :: calls 1 11 ++ [.crash 1, .redisLoss]

theorem delivering_stranded : ¬ ∀ s, Reachable sampleEnv NoCalls s → ∀ row ∈ s.pg.db.deliveries,
    row.status = .pending ∨ row.status = .delivering ∨ row.status = .failed →
      s.worked row.id none ∨ s.jobs.hasLive row.id = true ∨ Recoverable sampleEnv row := by
  intro h
  obtain ⟨s, hreach, hs⟩ := sample_run (C := NoCalls) sampleLost
    (fun s => s.pg.db.deliveries.any fun row => row.status = .delivering ∧
      ¬ s.worked row.id none ∧ s.jobs.hasLive row.id = false) (by decide +kernel)
  obtain ⟨row, hrow, hrow'⟩ := List.any_eq_true.mp hs
  obtain ⟨hst, hwork, hlive⟩ := of_decide_eq_true hrow'
  rcases h s hreach row hrow (Or.inr (Or.inl hst)) with hw | hj | ⟨T, hT⟩
  · exact hwork hw
  · rw [hlive] at hj
    cases hj
  · have := hT T (Nat.le_refl T)
    simp [claimable, hst] at this

end WebhookEngine
