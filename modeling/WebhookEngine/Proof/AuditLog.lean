import WebhookEngine.Proof.Attempts

set_option autoImplicit false

/-!
# The audit log

* **`status_projects`**: the status of a delivery is the `to_status` of its audit row with the
  greatest id, even when the repository functions are called on their own with any arguments. Every
  writer takes the row lock before it draws the id of its audit row.
* **`transitions_lawful`**: the triples the engine writes. `documented` are those of the state machine
  in `SCHEMA.md`; `further` are the ones that fail-fast and repeated pickups add to them. Nothing is
  said of `slips`.
-/

namespace WebhookEngine

open EffectProg TransitionSystem

variable {env : Env} {s : State} {C : State → Label → Prop}

/-! ## The log and the status -/

/-- The log is in the order of its ids, and ends with the current status. -/
structure Dossier.Projects (D : Dossier) : Prop where
  sorted : D.log.Pairwise fun a b => a.id < b.id
  last : ∃ before last, D.log = before ++ [last] ∧ last.toStatus = D.row.status

theorem Dossier.Projects.append {D : Dossier} {tr : TransitionRow} (h : D.Projects)
    (hid : ∀ r ∈ D.log, r.id < tr.id) :
    (D.log ++ [tr]).Pairwise fun a b : TransitionRow => a.id < b.id := by
  rw [List.pairwise_append]
  refine ⟨h.sorted, List.pairwise_singleton _ _, fun a ha b hb => ?_⟩
  rw [List.mem_singleton.mp hb]
  exact hid a ha

theorem reachable_projects (h : Reachable env C s) {d : DeliveryId} {D : Dossier}
    (hD : s.pg.db.dossier? d = some D) : D.Projects := by
  refine reachable_dossier (P := Dossier.Projects) ?_ ?_ ?_ h hD
  · intro d ev ep id τ τ'
    exact ⟨List.pairwise_singleton _ _, [], _, rfl, rfl⟩
  · intro D τ h
    exact ⟨h.sorted, h.last⟩
  · intro s t th d D D' _ _ _ h hc
    cases hc with
    | moved hmv hid hm reason τ τ' => exact ⟨h.append hid, D.log, _, rfl, rfl⟩
    | recorded hrec ha hnew hid hm reason τ τ' => exact ⟨h.append hid, D.log, _, rfl, rfl⟩

/-- **The status of a delivery is the `to_status` of its audit row with the greatest id.** -/
theorem status_projects (h : Reachable env C s) {row : DeliveryRow}
    (hrow : row ∈ s.pg.db.deliveries) :
    ∃ tr ∈ s.pg.db.transitions, tr.deliveryId = row.id ∧ tr.toStatus = row.status ∧
      ∀ tr' ∈ s.pg.db.transitions, tr'.deliveryId = row.id → tr' ≠ tr → tr'.id < tr.id := by
  have hD := (reachable_ok h).db.dossier?_of_mem hrow
  obtain ⟨hsorted, before, last, hlog, hstatus⟩ := reachable_projects h hD
  have hlog : s.pg.db.log row.id = before ++ [last] := hlog
  have hsorted : (s.pg.db.log row.id).Pairwise fun a b => a.id < b.id := hsorted
  have hmem : last ∈ s.pg.db.log row.id := by simp [hlog]
  refine ⟨last, (Db.mem_log.mp hmem).1, (Db.mem_log.mp hmem).2, hstatus, fun tr' htr' hd hne => ?_⟩
  have hmem' : tr' ∈ before ++ [last] := hlog ▸ Db.mem_log.mpr ⟨htr', hd⟩
  rw [hlog, List.pairwise_append] at hsorted
  rcases List.mem_append.mp hmem' with hb | hb
  · exact hsorted.2.2 tr' hb last (List.mem_singleton_self _)
  · exact absurd (List.mem_singleton.mp hb) hne

/-- A delivery whose status was changed by a call from outside while a worker was at it. -/
def sampleCalled : List Label :=
  sampleIngest ++ .pickup (.delivery 2) :: calls 1 7 ++
    .request (.repoCall (.transition 2 .pending .failed .reconciler "by hand")) :: calls 2 5 ++
      calls 1 3

theorem status_projects_called : ∃ s row, Reachable sampleEnv (fun _ _ => True) s ∧
    row ∈ s.pg.db.deliveries ∧ row.status = .delivering ∧
      ∃ tr ∈ s.pg.db.transitions, tr.deliveryId = row.id ∧ tr.toStatus = row.status ∧
        ∀ tr' ∈ s.pg.db.transitions, tr'.deliveryId = row.id → tr' ≠ tr → tr'.id < tr.id := by
  obtain ⟨s, hreach, hs⟩ := sample_run (C := fun _ _ => True) sampleCalled
    (fun s => s.pg.db.deliveries.any fun row => row.status = .delivering) (by decide +kernel)
  obtain ⟨row, hrow, hst⟩ := List.any_eq_true.mp hs
  exact ⟨s, row, hreach, hrow, by simpa using hst, status_projects hreach hrow⟩

/-! ## The triples -/

/-- From, to and actor of an audit row. -/
abbrev Triple := Option Status × Status × Actor

def TransitionRow.triple (tr : TransitionRow) : Triple := (tr.fromStatus, tr.toStatus, tr.actor)

/-- The legal transitions of `SCHEMA.md`. -/
def documented : List Triple :=
  [(none, .pending, .api), (some .pending, .delivering, .worker),
    (some .failed, .delivering, .worker), (some .delivering, .delivered, .worker),
    (some .delivering, .failed, .worker), (some .failed, .dlq, .worker),
    (some .dlq, .pending, .manualRetry)]

/-- An open breaker fails a delivery from whatever status it has, and a delivery found DELIVERING by the
next worker is marked again. -/
def further : List Triple :=
  [(some .pending, .failed, .worker), (some .failed, .failed, .worker),
    (some .delivering, .delivering, .worker)]

/-- What the failure handler writes when a job's attempts are used up though the last of them was not
recorded, or the delivery was delivered in the meantime. -/
def slips : List Triple :=
  [(some .pending, .dlq, .worker), (some .delivering, .dlq, .worker), (some .delivered, .dlq, .worker)]

theorem Moves.triple {k : Kind} {m : Facts} {d : DeliveryId} {f g : Status} {a : Actor}
    (h : Moves k m d f g a) (hk : ∀ c, k ≠ .repoCall c)
    (hne : ((some f, g, a) : Triple) ∉ slips) :
    ((some f, g, a) : Triple) ∈ documented ++ further := by
  cases h with
  | @mark job m r h hm =>
    have := h.open_
    revert this
    cases r.status <;> simp [Status.terminal, documented, further]
  | @exhaust job m r hr hs hm hsp =>
    revert hs hne
    cases r.status <;> simp [documented, further, slips]
  | retry hk hs hm hsp => decide
  | call => exact absurd rfl (hk _)

theorem Records.triple {k : Kind} {m : Facts} {a : AttemptData} {f g : Status}
    {next : Option Time} (h : Records k m a f g next) (hk : ∀ c, k ≠ .repoCall c) :
    ((some f, g, .worker) : Triple) ∈ documented ++ further := by
  cases h with
  | @circuit job m r a next h hm hd hn ho =>
    have := h.open_
    revert this
    cases r.status <;> simp [Status.terminal, documented, further]
  | @outcome job m r a next h hm hd hn ho hnext =>
    cases a.outcome <;> decide
  | call => exact absurd rfl (hk _)

theorem reachable_lawful (h : Reachable env NoCalls s) {d : DeliveryId} {D : Dossier}
    (hD : s.pg.db.dossier? d = some D) {tr : TransitionRow} (htr : tr ∈ D.log)
    (hne : tr.triple ∉ slips) : tr.triple ∈ documented ++ further := by
  refine reachable_dossier (P := fun D => ∀ tr ∈ D.log,
    tr.triple ∉ slips → tr.triple ∈ documented ++ further)
    ?_ (fun D τ h => h) ?_ h hD tr htr hne
  · intro d ev ep id τ τ' tr htr _
    rw [List.mem_singleton.mp htr]
    exact List.mem_cons_self
  · intro s t th d D D' hr ht _ h hc tr htr hne
    have hcall := kind_ne_call (fun _ _ h => h) hr ht.live
    cases hc with
    | moved hmv hid hm reason τ τ' =>
      rcases List.mem_append.mp htr with htr | htr
      · exact h tr htr hne
      · rw [List.mem_singleton.mp htr] at hne ⊢
        exact hmv.triple hcall hne
    | recorded hrec ha hnew hid hm reason τ τ' =>
      rcases List.mem_append.mp htr with htr | htr
      · exact h tr htr hne
      · rw [List.mem_singleton.mp htr]
        exact hrec.triple hcall

/-- **The triples the engine writes.** -/
theorem transitions_lawful (h : Reachable env NoCalls s) {tr : TransitionRow}
    (htr : tr ∈ s.pg.db.transitions) (hne : tr.triple ∉ slips) :
    tr.triple ∈ documented ∨ tr.triple ∈ further := by
  obtain ⟨row, hrow⟩ := Option.isSome_iff_exists.mp ((reachable_ok h).db.logRef tr htr)
  have hD := congrArg (Option.map fun r =>
    Dossier.mk r (s.pg.db.log tr.deliveryId) (s.pg.db.attemptsOf tr.deliveryId)) hrow
  exact List.mem_append.mp (reachable_lawful h hD (Db.mem_log.mpr ⟨htr, rfl⟩) hne)

/-- A worker dies after it marked the delivery; the next one marks it again. -/
def sampleRepickup : List Label :=
  sampleIngest ++ .pickup (.delivery 2) :: calls 1 11 ++
    [.crash 1, .stall (.delivery 2), .tick 60000, .pickup (.delivery 2)] ++ calls 2 11

theorem transitions_lawful_delivered : ∃ s tr, Reachable sampleEnv NoCalls s ∧
    tr ∈ s.pg.db.transitions ∧ tr.toStatus = .delivered ∧
      (tr.triple ∈ documented ∨ tr.triple ∈ further) := by
  obtain ⟨s, hreach, hs⟩ := sample_run (C := NoCalls) (sampleIngest ++ sampleDelivery 1)
    (fun s => s.pg.db.transitions.any fun tr => tr.toStatus = .delivered) (by decide +kernel)
  obtain ⟨tr, htr, hto⟩ := List.any_eq_true.mp hs
  have hto : tr.toStatus = .delivered := by simpa using hto
  refine ⟨s, tr, hreach, htr, hto, transitions_lawful hreach htr fun h => ?_⟩
  have hslips : ∀ triple ∈ slips, triple.2.1 = .dlq := by decide
  have hdlq : tr.toStatus = .dlq := hslips _ h
  rw [hto] at hdlq
  cases hdlq

theorem transitions_not_documented : ¬ ∀ s, Reachable sampleEnv NoCalls s →
    ∀ tr ∈ s.pg.db.transitions, tr.triple ∈ documented := by
  intro h
  obtain ⟨s, hreach, hs⟩ := sample_run (C := NoCalls) sampleRepickup
    (fun s => s.pg.db.transitions.any fun tr => tr.triple ∉ documented) (by decide +kernel)
  obtain ⟨tr, htr, hnot⟩ := List.any_eq_true.mp hs
  exact absurd (h s hreach tr htr) (by simpa using hnot)

end WebhookEngine
