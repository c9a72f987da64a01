import WebhookEngine.Proof.Chain
import WebhookEngine.Proof.Sweep

set_option autoImplicit false

/-!
# At most one live job

Jobs of one delivery come from the API, from sweeps and from manual retries, under two schemes of ids.

* `KeepsJobs`: the engine alone, and no job is lost or put into the queue by hand. Executions may die,
  stall and run on after their job was handed to another worker, and locks may be lost.
* `KeepsJobsOf`: no job of one delivery is; **`reachable_lane`**: then it is in a lane.
* **`one_live_job`**: at most one job of a delivery is waiting, delayed or active.
-/

namespace WebhookEngine

open EffectProg TransitionSystem

variable {env : Env} {s s' : State} {l : Label} {d : DeliveryId}

/-- Every writer is one of the engine's programs, Redis is not lost, and no job is put into the queue
by hand. -/
def KeepsJobs (s : State) (l : Label) : Prop :=
  NoCalls s l ∧ match l with
    | .redisLoss => False
    | .operatorAdd _ _ => False
    | _ => True

instance (s : State) (l : Label) : Decidable (KeepsJobs s l) :=
  match l with
  | .redisLoss => inferInstanceAs (Decidable (_ ∧ False))
  | .operatorAdd _ _ => inferInstanceAs (Decidable (_ ∧ False))
  | .tick _ | .op _ _ | .settle _ | .crash _ | .extend _ | .extendReply _ | .request _ | .pickup _
  | .stall _ | .stallFail _ | .removeCompleted _ | .evict _ | .idemArrive _ | .createEndpoint _ _ _
  | .patchEndpoint _ _ _ => inferInstanceAs (Decidable (_ ∧ True))

/-- A job is one of the delivery: it is for it, or has the id of its original job. -/
def JobId.belongs (id : JobId) (d' d : DeliveryId) : Prop := d' = d ∨ id = .delivery d

instance (id : JobId) (d' d : DeliveryId) : Decidable (id.belongs d' d) :=
  inferInstanceAs (Decidable (_ ∨ _))

/-- Every writer is one of the engine's programs, Redis is not lost while the queue has a job of the
delivery, and no job of it is put into the queue by hand. -/
def KeepsJobsOf (d : DeliveryId) (s : State) (l : Label) : Prop :=
  NoCalls s l ∧ match l with
    | .redisLoss => ∀ j ∈ s.jobs, ¬ j.id.belongs j.deliveryId d
    | .operatorAdd id d' => ¬ id.belongs d' d
    | _ => True

instance (d : DeliveryId) (s : State) (l : Label) : Decidable (KeepsJobsOf d s l) :=
  match l with
  | .redisLoss => inferInstanceAs (Decidable (_ ∧ ∀ j ∈ s.jobs, ¬ j.id.belongs j.deliveryId d))
  | .operatorAdd _ _ => inferInstanceAs (Decidable (_ ∧ ¬ _))
  | .tick _ | .op _ _ | .settle _ | .crash _ | .extend _ | .extendReply _ | .request _ | .pickup _
  | .stall _ | .stallFail _ | .removeCompleted _ | .evict _ | .idemArrive _ | .createEndpoint _ _ _
  | .patchEndpoint _ _ _ => inferInstanceAs (Decidable (_ ∧ True))

theorem KeepsJobs.of (h : KeepsJobs s l) (d : DeliveryId) : KeepsJobsOf d s l := by
  refine ⟨h.1, ?_⟩
  cases l with
  | redisLoss => exact h.2.elim
  | operatorAdd => exact h.2.elim
  | _ => trivial

theorem KeepsJobsOf.no_loss (h : KeepsJobsOf d s l) {j : Job} (hj : j ∈ s.jobs)
    (hof : j.id.belongs j.deliveryId d) : l ≠ .redisLoss := by
  rintro rfl
  exact h.2 j hj hof

theorem KeepsJobsOf.no_put (h : KeepsJobsOf d s l) {id : JobId} {d' : DeliveryId}
    (hof : id.belongs d' d) : l ≠ .operatorAdd id d' := by
  rintro rfl
  exact h.2 hof

theorem lane_init : Lane env {} d (some (.delivery d)) := by
  refine .active (.delivery d) (Or.inl rfl) ?_ ?_ fun h => ?_
  · rintro id ⟨j, hj, -⟩
    cases hj
  · rintro t ⟨th, h, -⟩
    simp [State.live?] at h
  · cases h

/-- **A delivery whose jobs are kept is in a lane.** -/
theorem reachable_lane {C : State → Label → Prop} (hC : ∀ s l, C s l → KeepsJobsOf d s l)
    (h : Reachable env C s) : Inert env s ∧ ∃ o, Lane env s d o := by
  obtain ⟨ls, h⟩ := h
  have hinv : Reachable env C s ∧ Inert env s ∧ ∃ o, Lane env s d o := by
    refine h.invariant (I := fun s => Reachable env C s ∧ Inert env s ∧ ∃ o, Lane env s d o) ?_
      ⟨.refl _, ordered_init.inert, _, lane_init⟩
    rintro s l s' ⟨hr, hinert, o, hI⟩ hl hstep
    obtain ⟨o', hI', -⟩ := hI.step (reachable_ok hr) (reachable_jobs hr) hinert
      (fun t th hlive => kind_ne_call (fun s l h => (hC s l h).1) hr hlive)
      (fun ⟨j, hj, hid, _⟩ => (hC s l hl).no_loss hj (Or.inr hid))
      (fun _ => (hC s l hl).no_put (Or.inl rfl)) hstep
    exact ⟨hr.snoc hl hstep, hinert.step hstep, o', hI'⟩
  exact hinv.2

theorem Jobs.length_le_one {js : Jobs} (hids : (js.map (·.id)).Nodup) {o : Option JobId}
    (h : ∀ j ∈ js, o = some j.id) : js.length ≤ 1 := by
  match js with
  | [] => exact Nat.zero_le 1
  | [_] => exact Nat.le_refl 1
  | j :: j' :: rest =>
    have hsame : j.id = j'.id := by
      have h1 := h j List.mem_cons_self
      have h2 := h j' (List.mem_cons_of_mem _ List.mem_cons_self)
      exact Option.some.inj (h1.symm.trans h2)
    rw [List.map_cons, List.map_cons, List.nodup_cons] at hids
    exact absurd (hsame ▸ List.mem_cons_self) hids.1

/-- The jobs of the delivery that are waiting, delayed or active. -/
def Jobs.liveOf (js : Jobs) (d : DeliveryId) : Jobs := js.filter fun j => j.live && j.deliveryId = d

/-- **At most one live job per delivery**, in any run without loss of Redis. -/
theorem one_live_job (h : Reachable env KeepsJobs s) (d : DeliveryId) :
    (s.jobs.liveOf d).length ≤ 1 := by
  obtain ⟨-, o, hlane⟩ := reachable_lane (fun _ _ h => h.of d) h
  have hids := (reachable_jobs h).ids
  refine Jobs.length_le_one (hids.sublist (List.filter_sublist.map _)) (o := o) fun j hj => ?_
  obtain ⟨hmem, hlive⟩ := List.mem_filter.mp hj
  obtain ⟨hlive, hd⟩ := Bool.and_eq_true_iff.mp hlive
  exact hlane.of_queued ⟨j, hmem, hlive, rfl, of_decide_eq_true hd⟩

/-- The job fails for good, its handler writes DLQ, and a manual retry adds a job of its own. -/
def sampleRetry : List Label :=
  sampleIngest ++ sampleFailure 1 ++ sampleFailure 3 ++ sampleFailure 5 ++ sampleFailure 7 ++
    sampleFailure 9 ++ calls 10 9 ++ .request (.postRetry 2) :: calls 11 8

theorem one_live_job_retry : ∃ s, Reachable sampleEnv KeepsJobs s ∧ s.jobs.length = 2 ∧
    (s.jobs.liveOf 2).length = 1 := by
  obtain ⟨s, hreach, hs⟩ := sample_run (C := KeepsJobs) sampleRetry
    (fun s => s.jobs.length = 2 ∧ s.jobs.liveOf 2 ≠ []) (by decide +kernel)
  obtain ⟨hlen, hne⟩ := of_decide_eq_true hs
  have hle := one_live_job hreach 2
  exact ⟨s, hreach, hlen, Nat.le_antisymm hle (List.length_pos_iff.mpr hne)⟩

end WebhookEngine
