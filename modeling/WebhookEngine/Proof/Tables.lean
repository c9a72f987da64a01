import WebhookEngine.Lib.Table
import WebhookEngine.Model.Postgres

set_option autoImplicit false

/-!
# What the writes do to the tables

The tables are read per delivery: its row (`delivery?`), its audit log (`log`) and its attempts
(`attemptsOf`), together its `Dossier`. The simp set says how each write changes the three.

* `Dossier.moved`, `Dossier.recorded`, `Dossier.touched`: what the transactions of the repositories
  make of a dossier;
* `dossier?_move`, `dossier?_record`, `dossier?_ingest`, `dossier?_claim`: one lemma for each.
-/

namespace WebhookEngine

namespace Db

variable {db : Db} {d x : DeliveryId}

theorem delivery?_id {r : DeliveryRow} (h : db.delivery? d = some r) : r.id = d :=
  Table.find?_key DeliveryRow.id h

theorem delivery?_isSome_iff : (db.delivery? d).isSome ↔ ∃ r ∈ db.deliveries, r.id = d :=
  Table.find?_isSome_iff DeliveryRow.id

theorem delivery?_none_iff : db.delivery? d = none ↔ d ∉ db.deliveries.map (·.id) :=
  Table.find?_none_iff DeliveryRow.id

theorem delivery?_modifyDelivery {f : DeliveryRow → DeliveryRow} (hf : ∀ r, (f r).id = r.id) :
    (db.modifyDelivery d f).delivery? x =
      if x = d then (db.delivery? x).map f else db.delivery? x :=
  Table.find?_update DeliveryRow.id db.deliveries hf d x

@[simp] theorem mem_log {r : TransitionRow} :
    r ∈ db.log d ↔ r ∈ db.transitions ∧ r.deliveryId = d := by
  simp [log]

@[simp] theorem mem_attemptsOf {r : AttemptRow} :
    r ∈ db.attemptsOf d ↔ r ∈ db.attempts ∧ r.deliveryId = d := by
  simp [attemptsOf]

/-! ## One write -/

section Apply

variable {g : ℕ} {τ : Time}

@[simp] theorem delivery?_insertEvent {c k ty p : String} :
    (db.apply ⟨.insertEvent c k ty p, g, τ⟩).delivery? x = db.delivery? x := rfl

@[simp] theorem delivery?_insertDelivery {ev : EventId} {ep : EndpointId} :
    (db.apply ⟨.insertDelivery ev ep, g, τ⟩).delivery? x =
      (db.delivery? x).or
        (if g = x then some ⟨g, ev, ep, .pending, 0, none, false, τ, τ⟩ else none) :=
  Table.find?_append_single DeliveryRow.id _ _ _

@[simp] theorem delivery?_insertTransition {f : Option Status} {st : Status} {reason : String}
    {a : Actor} :
    (db.apply ⟨.insertTransition d f st reason a, g, τ⟩).delivery? x = db.delivery? x := rfl

@[simp] theorem delivery?_insertAttempt {a : AttemptData} :
    (db.apply ⟨.insertAttempt a, g, τ⟩).delivery? x = db.delivery? x := rfl

@[simp] theorem delivery?_updateStatus {st : Status} :
    (db.apply ⟨.updateStatus d st, g, τ⟩).delivery? x =
      if x = d then (db.delivery? x).map fun r => { r with status := st, updatedAt := τ }
      else db.delivery? x :=
  delivery?_modifyDelivery fun _ => rfl

@[simp] theorem delivery?_updateAttempt {st : Status} {next : Option Time} :
    (db.apply ⟨.updateAttempt d st next, g, τ⟩).delivery? x =
      if x = d then (db.delivery? x).map fun r =>
        { r with
          status := st
          attemptCount := r.attemptCount + 1
          nextAttemptAt := next
          updatedAt := τ }
      else db.delivery? x :=
  delivery?_modifyDelivery fun _ => rfl

@[simp] theorem delivery?_updateEnqueued :
    (db.apply ⟨.updateEnqueued d, g, τ⟩).delivery? x =
      if x = d then (db.delivery? x).map fun r => { r with enqueued := true, updatedAt := τ }
      else db.delivery? x :=
  delivery?_modifyDelivery fun _ => rfl

@[simp] theorem log_insertTransition {f : Option Status} {st : Status} {reason : String}
    {a : Actor} :
    (db.apply ⟨.insertTransition d f st reason a, g, τ⟩).log x =
      if x = d then db.log x ++ [⟨g, d, f, st, reason, a, τ⟩] else db.log x := by
  by_cases h : x = d
  · simp [Db.apply, log, List.filter_append, h]
  · have h' : d ≠ x := fun e => h e.symm
    simp [Db.apply, log, List.filter_append, h, h']

@[simp] theorem attemptsOf_insertAttempt {a : AttemptData} :
    (db.apply ⟨.insertAttempt a, g, τ⟩).attemptsOf x =
      if x = a.deliveryId then db.attemptsOf x ++ [⟨a, g⟩] else db.attemptsOf x := by
  by_cases h : x = a.deliveryId
  · simp [Db.apply, attemptsOf, List.filter_append, h]
  · have h' : a.deliveryId ≠ x := fun e => h e.symm
    simp [Db.apply, attemptsOf, List.filter_append, h, h']

variable {c k ty p : String} {ev : EventId} {ep : EndpointId} {f : Option Status} {st : Status}
  {reason : String} {act : Actor} {a : AttemptData} {next : Option Time}

@[simp] theorem log_insertEvent :
    (db.apply ⟨.insertEvent c k ty p, g, τ⟩).log x = db.log x := rfl

@[simp] theorem log_insertDelivery :
    (db.apply ⟨.insertDelivery ev ep, g, τ⟩).log x = db.log x := rfl

@[simp] theorem log_insertAttempt : (db.apply ⟨.insertAttempt a, g, τ⟩).log x = db.log x := rfl

@[simp] theorem log_updateStatus : (db.apply ⟨.updateStatus d st, g, τ⟩).log x = db.log x := rfl

@[simp] theorem log_updateAttempt :
    (db.apply ⟨.updateAttempt d st next, g, τ⟩).log x = db.log x := rfl

@[simp] theorem log_updateEnqueued : (db.apply ⟨.updateEnqueued d, g, τ⟩).log x = db.log x := rfl

@[simp] theorem attemptsOf_insertEvent :
    (db.apply ⟨.insertEvent c k ty p, g, τ⟩).attemptsOf x = db.attemptsOf x := rfl

@[simp] theorem attemptsOf_insertDelivery :
    (db.apply ⟨.insertDelivery ev ep, g, τ⟩).attemptsOf x = db.attemptsOf x := rfl

@[simp] theorem attemptsOf_insertTransition :
    (db.apply ⟨.insertTransition d f st reason act, g, τ⟩).attemptsOf x = db.attemptsOf x := rfl

@[simp] theorem attemptsOf_updateStatus :
    (db.apply ⟨.updateStatus d st, g, τ⟩).attemptsOf x = db.attemptsOf x := rfl

@[simp] theorem attemptsOf_updateAttempt :
    (db.apply ⟨.updateAttempt d st next, g, τ⟩).attemptsOf x = db.attemptsOf x := rfl

@[simp] theorem attemptsOf_updateEnqueued :
    (db.apply ⟨.updateEnqueued d, g, τ⟩).attemptsOf x = db.attemptsOf x := rfl

end Apply

@[simp] theorem applyAll_nil : db.applyAll [] = db := rfl

@[simp] theorem applyAll_cons {w : Write} {ws : List Write} :
    db.applyAll (w :: ws) = (db.apply w).applyAll ws := rfl

/-! ## What writes never do -/

theorem apply_grows (w : Write) :
    (∀ r ∈ db.events, r ∈ (db.apply w).events) ∧
      (∀ r ∈ db.attempts, r ∈ (db.apply w).attempts) ∧
        ((db.delivery? x).isSome → ((db.apply w).delivery? x).isSome) := by
  obtain ⟨st, g, τ⟩ := w
  cases st with
  | insertEvent c k ty p => exact ⟨fun r hr => List.mem_append_left _ hr, fun _ h => h, id⟩
  | insertDelivery ev ep =>
    refine ⟨fun _ h => h, fun _ h => h, fun h => ?_⟩
    rw [delivery?_insertDelivery, Option.isSome_or, h, Bool.true_or]
  | insertTransition d f st reason a => exact ⟨fun _ h => h, fun _ h => h, id⟩
  | insertAttempt a => exact ⟨fun _ h => h, fun r hr => List.mem_append_left _ hr, id⟩
  | updateStatus d st =>
    refine ⟨fun _ h => h, fun _ h => h, fun h => ?_⟩
    rw [delivery?_updateStatus]
    split <;> simpa using h
  | updateAttempt d st next =>
    refine ⟨fun _ h => h, fun _ h => h, fun h => ?_⟩
    rw [delivery?_updateAttempt]
    split <;> simpa using h
  | updateEnqueued d =>
    refine ⟨fun _ h => h, fun _ h => h, fun h => ?_⟩
    rw [delivery?_updateEnqueued]
    split <;> simpa using h

theorem applyAll_grows (ws : List Write) :
    (∀ r ∈ db.events, r ∈ (db.applyAll ws).events) ∧
      (∀ r ∈ db.attempts, r ∈ (db.applyAll ws).attempts) ∧
        ((db.delivery? x).isSome → ((db.applyAll ws).delivery? x).isSome) := by
  induction ws generalizing db with
  | nil => exact ⟨fun _ h => h, fun _ h => h, id⟩
  | cons w ws ih =>
    obtain ⟨h1, h2, h3⟩ := @apply_grows db x w
    obtain ⟨i1, i2, i3⟩ := ih
    exact ⟨fun r hr => i1 r (h1 r hr), fun r hr => i2 r (h2 r hr), fun h => i3 (h3 h)⟩

/-- An UPDATE leaves the keys of the deliveries and all other tables alone. -/
structure Alike (db db' : Db) : Prop where
  keys : db'.deliveries.map (fun r => (r.id, r.eventId)) =
    db.deliveries.map fun r => (r.id, r.eventId)
  events : db'.events = db.events
  attempts : db'.attempts = db.attempts
  transitions : db'.transitions = db.transitions
  uuidSeq : db'.uuidSeq = db.uuidSeq
  transitionSeq : db'.transitionSeq = db.transitionSeq

theorem Alike.refl (db : Db) : Alike db db := ⟨rfl, rfl, rfl, rfl, rfl, rfl⟩

theorem Alike.trans {db₁ db₂ db₃ : Db} (h : Alike db₁ db₂) (h' : Alike db₂ db₃) : Alike db₁ db₃ :=
  ⟨h'.keys.trans h.keys, h'.events.trans h.events, h'.attempts.trans h.attempts,
    h'.transitions.trans h.transitions, h'.uuidSeq.trans h.uuidSeq,
    h'.transitionSeq.trans h.transitionSeq⟩

theorem alike_modifyDelivery {f : DeliveryRow → DeliveryRow} (hf : ∀ r, (f r).id = r.id)
    (he : ∀ r, (f r).eventId = r.eventId) : Alike db (db.modifyDelivery d f) := by
  refine ⟨?_, rfl, rfl, rfl, rfl, rfl⟩
  simp only [modifyDelivery, List.map_map]
  refine List.map_congr_left fun r _ => ?_
  by_cases h : r.id = d <;> simp [h, hf, he]

theorem alike_updateStatus {st : Status} {g : ℕ} {τ : Time} :
    Alike db (db.apply ⟨.updateStatus d st, g, τ⟩) := by
  refine alike_modifyDelivery ?_ ?_ <;> exact fun _ => rfl

theorem alike_updateAttempt {st : Status} {next : Option Time} {g : ℕ} {τ : Time} :
    Alike db (db.apply ⟨.updateAttempt d st next, g, τ⟩) := by
  refine alike_modifyDelivery ?_ ?_ <;> exact fun _ => rfl

theorem alike_updateEnqueued {g : ℕ} {τ : Time} :
    Alike db (db.apply ⟨.updateEnqueued d, g, τ⟩) := by
  refine alike_modifyDelivery ?_ ?_ <;> exact fun _ => rfl

theorem Alike.isSome {db' : Db} (h : Alike db db') :
    (db'.delivery? x).isSome = (db.delivery? x).isSome := by
  rw [Bool.eq_iff_iff, delivery?_isSome_iff, delivery?_isSome_iff]
  have hids : db'.deliveries.map (·.id) = db.deliveries.map (·.id) := by
    simpa [List.map_map, Function.comp_def] using congrArg (List.map Prod.fst) h.keys
  constructor
  · rintro ⟨r, hr, rfl⟩
    have : r.id ∈ db.deliveries.map (·.id) := hids ▸ List.mem_map_of_mem hr
    simpa using this
  · rintro ⟨r, hr, rfl⟩
    have : r.id ∈ db'.deliveries.map (·.id) := hids ▸ List.mem_map_of_mem hr
    simpa using this

theorem alike_claim {ws : List Write} (hws : ∀ w ∈ ws, ∃ d, w.stmt = .updateEnqueued d) :
    Alike db (db.applyAll ws) := by
  induction ws generalizing db with
  | nil => exact .refl db
  | cons w ws ih =>
    obtain ⟨st, g, τ⟩ := w
    obtain ⟨d, rfl⟩ := hws ⟨st, g, τ⟩ List.mem_cons_self
    exact alike_updateEnqueued.trans
      (ih fun w hw => hws w (List.mem_cons_of_mem _ hw))

end Db

/-! ## Dossiers -/

/-- Everything the tables hold about one delivery. -/
structure Dossier where
  row : DeliveryRow
  log : List TransitionRow
  attempts : List AttemptRow

/-- The dossier of a delivery. -/
def Db.dossier? (db : Db) (d : DeliveryId) : Option Dossier :=
  (db.delivery? d).map fun r => ⟨r, db.log d, db.attemptsOf d⟩

namespace Dossier

/-- After a plain status change. -/
def moved (D : Dossier) (id : ℕ) (f g : Status) (reason : String) (a : Actor) (τ τ' : Time) :
    Dossier where
  row := { D.row with status := g, updatedAt := τ }
  log := D.log ++ [⟨id, D.row.id, some f, g, reason, a, τ'⟩]
  attempts := D.attempts

/-- After an attempt. -/
def recorded (D : Dossier) (a : AttemptRow) (id : ℕ) (f g : Status) (next : Option Time)
    (reason : String) (τ τ' : Time) : Dossier where
  row := { D.row with
    status := g
    attemptCount := D.row.attemptCount + 1
    nextAttemptAt := next
    updatedAt := τ }
  log := D.log ++ [⟨id, D.row.id, some f, g, reason, .worker, τ'⟩]
  attempts := D.attempts ++ [a]

/-- After the bookkeeping of an `add`. -/
def touched (D : Dossier) (τ : Time) : Dossier :=
  { D with row := { D.row with enqueued := true, updatedAt := τ } }

/-- As the ingest creates it. -/
def created (d ev : ℕ) (ep : EndpointId) (id : ℕ) (τ τ' : Time) : Dossier where
  row := ⟨d, ev, ep, .pending, 0, none, false, τ, τ⟩
  log := [⟨id, d, none, .pending, "created", .api, τ'⟩]
  attempts := []

end Dossier

namespace Db

variable {db : Db} {d x : DeliveryId}

theorem dossier?_eq_some {D : Dossier} : db.dossier? d = some D ↔
    db.delivery? d = some D.row ∧ D.log = db.log d ∧ D.attempts = db.attemptsOf d := by
  constructor
  · intro h
    obtain ⟨r, hr, rfl⟩ := Option.map_eq_some_iff.mp h
    exact ⟨hr, rfl, rfl⟩
  · rintro ⟨h1, h2, h3⟩
    cases D
    simp_all [dossier?]

theorem dossier?_congr {db' : Db} (h1 : db'.delivery? x = db.delivery? x)
    (h2 : db'.log x = db.log x) (h3 : db'.attemptsOf x = db.attemptsOf x) :
    db'.dossier? x = db.dossier? x := by
  simp [dossier?, h1, h2, h3]

theorem dossier?_move {f g : Status} {reason : String} {a : Actor} {g₁ id : ℕ} {τ τ' : Time} :
    (db.applyAll [⟨.updateStatus d g, g₁, τ⟩,
      ⟨.insertTransition d (some f) g reason a, id, τ'⟩]).dossier? x =
      if x = d then (db.dossier? x).map (·.moved id f g reason a τ τ') else db.dossier? x := by
  by_cases h : x = d
  · subst h
    cases hd : db.delivery? x with
    | none => simp [dossier?, hd]
    | some r => simp [dossier?, hd, Dossier.moved, delivery?_id hd]
  · simp [dossier?, h]

theorem dossier?_record {a : AttemptData} {f g : Status} {next : Option Time} {reason : String}
    {g₁ g₂ id : ℕ} {τ₁ τ τ' : Time} :
    (db.applyAll [⟨.insertAttempt a, g₁, τ₁⟩, ⟨.updateAttempt a.deliveryId g next, g₂, τ⟩,
      ⟨.insertTransition a.deliveryId (some f) g reason .worker, id, τ'⟩]).dossier? x =
      if x = a.deliveryId then (db.dossier? x).map (·.recorded ⟨a, g₁⟩ id f g next reason τ τ')
      else db.dossier? x := by
  by_cases h : x = a.deliveryId
  · subst h
    cases hd : db.delivery? a.deliveryId with
    | none => simp [dossier?, hd]
    | some r => simp [dossier?, hd, Dossier.recorded, delivery?_id hd]
  · simp [dossier?, h]

theorem dossier?_ingest {c k ty p : String} {ev : ℕ} {ep : EndpointId} {id : ℕ}
    {τ₁ τ τ' : Time} (hd : db.delivery? d = none) (hl : db.log d = [])
    (ha : db.attemptsOf d = []) :
    (db.applyAll [⟨.insertEvent c k ty p, ev, τ₁⟩, ⟨.insertDelivery ev ep, d, τ⟩,
      ⟨.insertTransition d none .pending "created" .api, id, τ'⟩]).dossier? x =
      if x = d then some (Dossier.created d ev ep id τ τ') else db.dossier? x := by
  by_cases h : x = d
  · subst h
    simp [dossier?, hd, hl, ha, Dossier.created]
  · have h' : d ≠ x := fun e => h e.symm
    simp [dossier?, h, h']

theorem dossier?_touch {g : ℕ} {τ : Time} :
    (db.apply ⟨.updateEnqueued d, g, τ⟩).dossier? x =
      if x = d then (db.dossier? x).map (·.touched τ) else db.dossier? x := by
  by_cases h : x = d
  · subst h
    cases hd : db.delivery? x with
    | none => simp [dossier?, hd]
    | some r => simp [dossier?, hd, Dossier.touched]
  · simp [dossier?, h]

theorem dossier?_claim {ws : List Write} (hws : ∀ w ∈ ws, ∃ d, w.stmt = .updateEnqueued d) :
    (db.applyAll ws).dossier? x = db.dossier? x ∨
      ∃ τ, (db.applyAll ws).dossier? x = (db.dossier? x).map (·.touched τ) := by
  induction ws generalizing db with
  | nil => exact Or.inl rfl
  | cons w ws ih =>
    obtain ⟨st, g, τ⟩ := w
    obtain ⟨d, rfl⟩ := hws ⟨st, g, τ⟩ List.mem_cons_self
    rw [applyAll_cons]
    have hrest := @ih (db.apply ⟨.updateEnqueued d, g, τ⟩)
      fun w hw => hws w (List.mem_cons_of_mem _ hw)
    rw [dossier?_touch] at hrest
    by_cases h : x = d
    · rw [if_pos h] at hrest
      rcases hrest with hrest | ⟨τ', hrest⟩
      · exact Or.inr ⟨τ, hrest⟩
      · refine Or.inr ⟨τ', hrest.trans ?_⟩
        cases db.dossier? x <;> rfl
    · rw [if_neg h] at hrest
      exact hrest

end Db

end WebhookEngine
