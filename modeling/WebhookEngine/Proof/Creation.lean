import WebhookEngine.Proof.Intake

set_option autoImplicit false

/-!
# Exactly one creation

An event, its delivery and the first row of its audit log are committed together, and the executions
that ran into the event read what the one that inserted it has committed.

* `Db.Extends`: the events and the deliveries of the tables stay; `reachable_singles`: each event has
  one delivery.
* `Intake.Holds`: what an ingestion was told is in the tables.
* **`created_once`**: one event for each key, one delivery for each event, one first audit row for each
  delivery, and one answer for all who ask.
-/

namespace WebhookEngine

open EffectProg TransitionSystem

variable {env : Env} {s s' : State} {l : Label} {t u : Tid} {th th' : Thread} {db db' : Db}

/-! ## Events and deliveries -/

/-- The deliveries with their events. -/
def Db.links (db : Db) : List (DeliveryId × EventId) := db.deliveries.map fun r => (r.id, r.eventId)

theorem Db.mem_links {d : DeliveryId} {ev : EventId} :
    (d, ev) ∈ db.links ↔ ∃ r ∈ db.deliveries, r.id = d ∧ r.eventId = ev := by
  simp [Db.links]

/-- Events and deliveries are the same, or an event that was not there came with its delivery. -/
inductive Db.Extends (db db' : Db) : Prop where
  | same (he : db'.events = db.events) (hl : db'.links = db.links)
  | added {row : EventRow} {d : DeliveryId} (hnew : ∀ r ∈ db.events, r.id ≠ row.id)
      (he : db'.events = db.events ++ [row]) (hl : db'.links = db.links ++ [(d, row.id)])

theorem Db.Extends.events (h : db.Extends db') : ∀ r ∈ db.events, r ∈ db'.events := by
  cases h with
  | same he hl => exact fun r hr => he ▸ hr
  | added hnew he hl => exact fun r hr => he ▸ List.mem_append_left _ hr

theorem Db.Extends.links (h : db.Extends db') : ∀ x ∈ db.links, x ∈ db'.links := by
  cases h with
  | same he hl => exact fun r hr => hl ▸ hr
  | added hnew he hl => exact fun r hr => hl ▸ List.mem_append_left _ hr

theorem Committed.extends {k : Kind} {m : Facts} {pg : Postgres} {tx : List Entry}
    (h : Committed k m pg.db tx db') (hok : TxOk pg t tx) : pg.db.Extends db' := by
  cases h with
  | nil => exact .same rfl rfl
  | @move d f g a h reason g₁ id τ τ' =>
    have hal : Db.Alike pg.db (pg.db.apply ⟨.updateStatus d g, g₁, τ⟩) := Db.alike_updateStatus
    exact .same rfl hal.keys
  | @record a f g next h reason g₁ g₂ id τ₁ τ τ' =>
    have hal : Db.Alike _ ((pg.db.apply ⟨.insertAttempt a, g₁, τ₁⟩).apply
      ⟨.updateAttempt a.deliveryId g next, g₂, τ⟩) := Db.alike_updateAttempt
    exact .same rfl hal.keys
  | ingest hk c i ty p ep ev d id τ₁ τ τ' =>
    obtain ⟨-, hnew⟩ := hok.pending (.insertEvent c i ty p, ev) (by simp)
    exact @Db.Extends.added _ _ ⟨ev, c, i, ty, p, τ₁⟩ d (fun r hr => (hnew r hr).1) rfl
      List.map_append
  | claim hk h =>
    have hal := @Db.alike_claim pg.db _ h
    exact .same hal.events hal.keys

/-- **Events and deliveries come together.** -/
theorem step_extends (hs : s.Ok) (h : step env s l = some s') : s.pg.db.Extends s'.pg.db := by
  rcases step_cases h with ⟨t, c, -, h⟩ | h
  · obtain ⟨th, e, r, k, w, m, h⟩ := stepOp_cases h
    have hok := hs.threads t th h.live
    have hw : s'.pg = w.pg := by rw [h.world]
    rw [hw]
    by_cases he : ∃ q, e = .sql q
    · obtain ⟨q, rfl⟩ := he
      obtain ⟨pg', sess', hex, rfl, rfl⟩ := perform_sql h.done
      cases (hok.sql hs.db h.prog hex).server with
      | tables htab => exact .same htab.events (by rw [Db.links, htab.deliveries]; rfl)
      | commit hq hc => exact hc.extends hok.tx
      | @touch d hq htx =>
        have hal : Db.Alike s.pg.db (s.pg.db.apply ⟨.updateEnqueued d, 0, s.now⟩) :=
          Db.alike_updateEnqueued
        exact .same rfl hal.keys
    · rw [(perform_other (fun q hq => he ⟨q, hq⟩) h.done).1]
      exact .same rfl rfl
  · exact .same h.tables.events (by rw [Db.links, h.tables.deliveries]; rfl)

/-- No two deliveries have one event. -/
def Db.Singles (db : Db) : Prop := (db.links.map (·.2)).Nodup

theorem Db.Extends.singles (h : db.Extends db') (hdb : DbOk db) (hs : db.Singles) : db'.Singles := by
  cases h with
  | same he hl => rw [Db.Singles, hl]; exact hs
  | @added row d hnew he hl =>
    rw [Db.Singles, hl]
    refine Table.nodup_map_append_single _ hs fun hmem => ?_
    obtain ⟨x, hx, hev⟩ := List.mem_map.mp hmem
    obtain ⟨r, hr, -, hre⟩ := Db.mem_links.mp (show (x.1, x.2) ∈ db.links from hx)
    obtain ⟨e, he, hid⟩ := hdb.deliveryEvent r hr
    exact hnew e he ((hid.trans hre).trans hev)

theorem reachable_singles {C : State → Label → Prop} (h : Reachable env C s) : s.pg.db.Singles := by
  have hinv : Reachable env C s ∧ s.pg.db.Singles := by
    refine h.invariant (I := fun s => Reachable env C s ∧ s.pg.db.Singles) ⟨.refl _, .nil⟩ ?_
    rintro s l s' ⟨hr, hI⟩ hl hstep
    have hs := reachable_ok hr
    exact ⟨hr.snoc hl hstep, (step_extends hs hstep).singles hs.db hI⟩
  exact hinv.2

theorem reachable_first {C : State → Label → Prop} (h : Reachable env C s) {d : DeliveryId}
    {D : Dossier} (hD : s.pg.db.dossier? d = some D) :
    D.log.countP (fun r => r.fromStatus = none) = 1 := by
  refine reachable_dossier (P := fun D => D.log.countP (fun r => r.fromStatus = none) = 1)
    (fun _ _ _ _ _ _ => rfl) (fun _ _ h => h) ?_ h hD
  intro s t th d D D' _ _ _ hP hc
  cases hc with
  | moved h hid hm reason τ τ' => simpa [Dossier.moved, List.countP_append] using hP
  | recorded h ha hnew hid hm reason τ τ' => simpa [Dossier.recorded, List.countP_append] using hP

/-! ## What an ingestion was told -/

/-- The writes of an intake that is not committed yet are those of the open transaction; one that ran
into an event has written nothing. -/
structure Intake.Open (m : Intake) (f : Facts) : Prop where
  new : ∀ c i ev tx, m.key = some (c, i) → m.isNew = true → m.done = false → m.event = some ev →
    f.tx = some tx → (∃ ty p, (.insertEvent c i ty p, ev) ∈ tx) ∧
      ∀ d, m.delivery = some d → ∃ ep, (.insertDelivery ev ep, d) ∈ tx
  old : m.key.isSome → m.isNew = false → m.done = false → f.tx = some [] ∨ f.tx = none

/-- What the intake knows is committed. -/
def Intake.known (m : Intake) : Prop := m.isNew = false ∨ m.done = true

/-- **What an ingestion was told** is in the tables. -/
structure Intake.Holds (m : Intake) (db : Db) : Prop where
  conflict : ∀ c i, m.key = some (c, i) → m.isNew = false →
    ∃ row ∈ db.events, row.clientId = c ∧ row.idempotencyKey = i
  event : ∀ c i ev, m.key = some (c, i) → m.known → m.event = some ev →
    ∃ row ∈ db.events, row.id = ev ∧ row.clientId = c ∧ row.idempotencyKey = i
  delivery : ∀ ev d, m.key.isSome → m.known → m.event = some ev → m.delivery = some d →
    (d, ev) ∈ db.links

theorem Intake.open_empty (f : Facts) : Intake.Open {} f := ⟨nofun, nofun⟩

theorem Intake.holds_empty (db : Db) : Intake.Holds {} db := ⟨nofun, nofun, nofun⟩

theorem Intake.Open.of_closed {m : Intake} {f : Facts} (h : f.tx = none) : m.Open f where
  new c i ev tx _ _ _ _ htx := by
    rw [h] at htx
    cases htx
  old _ _ _ := Or.inr h

theorem Intake.Open.congr {m : Intake} {f f' : Facts} (h : m.Open f) (hf : f'.tx = f.tx) :
    m.Open f' := by
  refine ⟨?_, ?_⟩
  · rw [hf]
    exact h.new
  · rw [hf]
    exact h.old

theorem Intake.Open.wrote {m : Intake} {f f' : Facts} {e : Entry} (h : m.Open f)
    (hf : f'.tx = f.tx.map (· ++ [e])) (hp : m.key.isSome → m.isNew = true ∨ m.done = true) :
    m.Open f' where
  new c i ev tx hk hn hd he htx := by
    rw [hf] at htx
    obtain ⟨tx₀, htx₀, rfl⟩ := Option.map_eq_some_iff.mp htx
    obtain ⟨⟨ty, p, hmem⟩, hdel⟩ := h.new c i ev tx₀ hk hn hd he htx₀
    refine ⟨⟨ty, p, List.mem_append_left _ hmem⟩, fun d' hd' => ?_⟩
    obtain ⟨ep, hmem⟩ := hdel d' hd'
    exact ⟨ep, List.mem_append_left _ hmem⟩
  old hk hn hd := by
    rcases hp hk with hp | hp
    · rw [hn] at hp
      cases hp
    · rw [hd] at hp
      cases hp

theorem Intake.Holds.grows {m : Intake} (h : m.Holds db) (hdb : db.Extends db') : m.Holds db' where
  conflict c i hk hn := by
    obtain ⟨row, hrow, hkey⟩ := h.conflict c i hk hn
    exact ⟨row, hdb.events row hrow, hkey⟩
  event c i ev hk hn he := by
    obtain ⟨row, hrow, hkey⟩ := h.event c i ev hk hn he
    exact ⟨row, hdb.events row hrow, hkey⟩
  delivery ev d hk hn he hd := hdb.links _ (h.delivery ev d hk hn he hd)

theorem Script.first_event {k : Kind} {m : Facts} {tx rest : List Entry} {c i ty p : String} {g : ℕ}
    (h : Script k m (tx ++ (.insertEvent c i ty p, g) :: rest)) : tx = [] := by
  generalize hL : tx ++ (Stmt.insertEvent c i ty p, g) :: rest = L at h
  cases h with
  | nil => simp at hL
  | move h reason g₁ g₂ =>
    rcases tx with _ | ⟨e₁, _ | ⟨e₂, tx⟩⟩ <;> simp at hL
  | record h reason g₁ g₂ g₃ =>
    rcases tx with _ | ⟨e₁, _ | ⟨e₂, _ | ⟨e₃, tx⟩⟩⟩ <;> simp at hL
  | ingest hk c i ty p ep ev d' g' =>
    rcases tx with _ | ⟨e₁, _ | ⟨e₂, _ | ⟨e₃, tx⟩⟩⟩ <;> simp at hL
    rfl
  | claim hk h =>
    obtain ⟨d', -, -, heq⟩ := h (.insertEvent c i ty p, g) (by simp [← hL])
    cases heq

theorem mayWrite.first_event {k : Kind} {f : Facts} {c i ty p : String}
    (h : mayWrite k f (.insertEvent c i ty p)) : f.tx = some [] := by
  unfold mayWrite at h
  split at h
  · rename_i tx htx
    obtain ⟨rest, hs⟩ := h 0
    rw [htx, hs.first_event]
  · obtain ⟨d, hd⟩ := h
    cases hd

/-- **The intake follows the transaction.** -/
theorem Intake.Open.next {m : Intake} {f : Facts} {k : Kind} (h : m.Open f) {e : Eff}
    (hp : permitsIntake m e) (hf : permitsCall t k f e) (r : e.Resp) :
    (m.next e r).Open (f.next e r) := by
  cases e with
  | sql q =>
    cases q with
    | begin =>
      rw [show m = {} from hp]
      cases r <;> exact Intake.open_empty _
    | commit =>
      cases r with
      | error x => exact .of_closed rfl
      | ok x => exact .of_closed rfl
    | rollback => exact .of_closed (by cases r <;> rfl)
    | write st =>
      cases st with
      | insertEvent c i ty p =>
        have htx : f.tx = some [] := mayWrite.first_event hf
        rw [show m = {} from hp]
        match r with
        | .error x => exact Intake.open_empty _
        | .ok none => exact ⟨nofun, fun _ _ _ => Or.inl htx⟩
        | .ok (some ev) =>
          refine ⟨fun c' i' ev' tx hk _ _ he htx' => ?_, fun _ hn => by cases hn⟩
          have htx' : f.tx.map (· ++ [(Stmt.insertEvent c i ty p, ev)]) = some tx := htx'
          rw [htx] at htx'
          cases hk
          cases he
          cases htx'
          exact ⟨⟨ty, p, List.mem_singleton_self _⟩, nofun⟩
      | insertDelivery ev ep =>
        obtain ⟨c, i, rfl⟩ := hp
        match r with
        | .error x => exact h
        | .ok none => exact h
        | .ok (some d) =>
          refine ⟨fun c' i' ev' tx hk _ _ he htx' => ?_, fun _ hn => by cases hn⟩
          obtain ⟨tx₀, htx₀, rfl⟩ := Option.map_eq_some_iff.mp htx'
          cases hk
          cases he
          obtain ⟨⟨ty, p, hmem⟩, -⟩ := h.new c i ev tx₀ rfl rfl rfl rfl htx₀
          refine ⟨⟨ty, p, List.mem_append_left _ hmem⟩, fun d' hd' => ⟨ep, ?_⟩⟩
          cases hd'
          exact List.mem_append_right _ (List.mem_singleton_self _)
      | _ =>
        match r with
        | .error x => exact h
        | .ok none => exact h
        | .ok (some g) => exact Intake.Open.wrote (m := m) h rfl hp
    | selectEventId c i =>
      rw [show m = { key := some (c, i) } from hp] at h ⊢
      cases r with
      | error x => exact h
      | ok ev => exact ⟨nofun, fun _ _ _ => h.old rfl rfl rfl⟩
    | selectDeliveryOfEvent ev =>
      cases r with
      | error x => exact h
      | ok d =>
        cases hk : m.key.isSome with
        | false =>
          refine ⟨fun c i ev tx hkey => ?_, fun hkey => ?_⟩
          · rw [show m.key = some (c, i) from hkey] at hk
            cases hk
          · rw [show m.key.isSome = true from hkey] at hk
            cases hk
        | true =>
          obtain ⟨c, i, rfl⟩ := hp hk
          exact ⟨nofun, fun _ _ _ => h.old rfl rfl rfl⟩
    | _ => cases r <;> exact Intake.Open.congr (m := m) h rfl
  | _ => exact h.congr (Facts.next_of_not_sql (fun q hq => by cases hq) r).1

/-! ## The statements of an ingestion -/

section Call

variable {c : Choice} {k : Kind}

/-- An INSERT that answers nothing ran into a committed event. -/
theorem Advance.ran_into {x y ty p : String} {k : Except Err (Option ℕ) → Code Reply} {w : World}
    {m : Memory} (h : Advance s s' t c th (.sql (.write (.insertEvent x y ty p))) (.ok none) k w m)
    (hs : s.Ok) : ∃ row ∈ s.pg.db.events, row.clientId = x ∧ row.idempotencyKey = y := by
  have hok := hs.threads t th h.live
  obtain ⟨pg', sess', hex, -, -⟩ := perform_sql h.done
  have hv := (Stmt.exec_cases hex).matchesNothing rfl
  rw [hok.view_eq (Or.inl (mayWrite.first_event (hok.permits h.prog))), Stmt.verdict] at hv
  split_ifs at hv with htext hsome
  obtain ⟨row, hrow⟩ := Option.isSome_iff_exists.mp hsome
  exact ⟨row, List.mem_of_find?_eq_some hrow, by simpa using List.find?_some hrow⟩

theorem Advance.found_event {x y : String} {o : Option EventId}
    {k : Except Err (Option EventId) → Code Reply} {w : World} {m : Memory}
    (h : Advance s s' t c th (.sql (.selectEventId x y)) (.ok o) k w m) (hs : s.Ok)
    (hrow : ∃ row ∈ s.pg.db.events, row.clientId = x ∧ row.idempotencyKey = y) :
    ∃ row ∈ s.pg.db.events, o = some row.id ∧ row.clientId = x ∧ row.idempotencyKey = y := by
  have hok := hs.threads t th h.live
  obtain ⟨pg', sess', hex, -, -⟩ := perform_sql h.done
  simp only [Sql.exec, readWith, Option.some.injEq, Prod.mk.injEq] at hex
  obtain ⟨-, -, hans⟩ := hex
  rw [hok.view_eq (Or.inl (hok.permits h.prog))] at hans
  have ho : o = (s.pg.db.eventByKey? x y).map (·.id) := (Fault.answer_ok hans).2
  obtain ⟨row, hmem, hkey⟩ := hrow
  have hsome : (s.pg.db.eventByKey? x y).isSome := by
    refine List.find?_isSome.mpr ⟨row, hmem, ?_⟩
    simpa using hkey
  obtain ⟨row', hrow'⟩ := Option.isSome_iff_exists.mp hsome
  rw [hrow'] at ho
  exact ⟨row', List.mem_of_find?_eq_some hrow', ho, by simpa using List.find?_some hrow'⟩

theorem Advance.found_delivery {ev : EventId} {o : Option (DeliveryId × Status)}
    {k : Except Err (Option (DeliveryId × Status)) → Code Reply} {w : World} {m : Memory}
    (h : Advance s s' t c th (.sql (.selectDeliveryOfEvent ev)) (.ok o) k w m) (hs : s.Ok)
    (htx : th.facts.tx = some [] ∨ th.facts.tx = none) (hrow : ∃ row ∈ s.pg.db.events, row.id = ev) :
    ∃ d st, o = some (d, st) ∧ (d, ev) ∈ s.pg.db.links := by
  have hok := hs.threads t th h.live
  obtain ⟨pg', sess', hex, -, -⟩ := perform_sql h.done
  simp only [Sql.exec, readWith, Option.some.injEq, Prod.mk.injEq] at hex
  obtain ⟨-, -, hans⟩ := hex
  rw [hok.view_eq htx] at hans
  have ho : o = s.pg.db.deliveryOfEvent ev := (Fault.answer_ok hans).2
  obtain ⟨row, hmem, rfl⟩ := hrow
  obtain ⟨d, hd, he⟩ := hs.db.eventDelivery row hmem
  have hsome : (s.pg.db.deliveries.find? fun r => r.eventId = row.id).isSome :=
    List.find?_isSome.mpr ⟨d, hd, by simpa using he⟩
  obtain ⟨d', hd'⟩ := Option.isSome_iff_exists.mp hsome
  rw [Db.deliveryOfEvent, hd'] at ho
  have hev : d'.eventId = row.id := by simpa using List.find?_some hd'
  exact ⟨d'.id, d'.status, ho, Db.mem_links.mpr ⟨d', List.mem_of_find?_eq_some hd', rfl, hev⟩⟩

theorem Committed.creates {f : Facts} {pg : Postgres} {tx : List Entry} {x y ty p : String} {ev : ℕ}
    (h : Committed k f pg.db tx db') (hok : TxOk pg t tx)
    (he : (.insertEvent x y ty p, ev) ∈ tx) :
    (∀ r ∈ pg.db.events, r.id ≠ ev) ∧
      (∃ row ∈ db'.events, row.id = ev ∧ row.clientId = x ∧ row.idempotencyKey = y) ∧
        ∀ ep d, (.insertDelivery ev ep, d) ∈ tx → (d, ev) ∈ db'.links := by
  obtain ⟨-, hnew⟩ := hok.pending _ he
  refine ⟨fun r hr => (hnew r hr).1, ?_⟩
  cases h with
  | nil => cases he
  | move h reason g₁ id τ τ' => simp at he
  | record h reason g₁ g₂ id τ₁ τ τ' => simp at he
  | ingest hk x' y' ty' p' ep ev' d id τ₁ τ τ' =>
    obtain ⟨⟨rfl, rfl, rfl, rfl⟩, rfl⟩ : (x = x' ∧ y = y' ∧ ty = ty' ∧ p = p') ∧ ev = ev' := by
      simpa using he
    refine ⟨⟨⟨ev, x, y, ty, p, τ₁⟩, ?_, rfl, rfl, rfl⟩, fun ep' d' hd => ?_⟩
    · exact List.mem_append_right _ (List.mem_singleton_self _)
    · obtain ⟨-, rfl⟩ : ep' = ep ∧ d' = d := by simpa using hd
      refine Db.mem_links.mpr ⟨_, List.mem_append_right _ (List.mem_singleton_self _), rfl, rfl⟩
  | claim hk h =>
    obtain ⟨w, hw, heq⟩ := List.mem_map.mp he
    obtain ⟨d, hd⟩ := h w hw
    rw [hd] at heq
    cases heq

theorem Intake.Holds.stays {i i' : Intake} (hi : i.Holds db) (hdb : db.Extends db') (h : i' = i) :
    i'.Holds db' := h ▸ hi.grows hdb

theorem Advance.holds_commit {i : Intake} {k : Except Err Unit → Code Reply} {w : World} {m : Memory}
    {x : Unit} (h : Advance s s' t c th (.sql .commit) (.ok x) k w m) (hs : s.Ok)
    (hdb : s.pg.db.Extends s'.pg.db) (ho : i.Open th.facts) (hi : i.Holds s.pg.db) :
    Intake.Holds { i with done := i.key.isSome } s'.pg.db := by
  have hok := hs.threads t th h.live
  by_cases hknown : i.known
  · exact ⟨(hi.grows hdb).conflict, fun c y ev hk _ => (hi.grows hdb).event c y ev hk hknown,
      fun ev d hk _ => (hi.grows hdb).delivery ev d hk hknown⟩
  · have hnew : i.isNew = true := by
      cases hn : i.isNew with
      | true => rfl
      | false => exact absurd (Or.inl hn) hknown
    have hdone : i.done = false := by
      cases hd : i.done with
      | false => rfl
      | true => exact absurd (Or.inr hd) hknown
    obtain ⟨tx, htx, -⟩ := hok.permits h.prog
    have hmine : th.tx = tx := by rw [Thread.tx, htx]; rfl
    have hcom : ∀ c y ev, i.key = some (c, y) → i.event = some ev →
        (∃ row ∈ s'.pg.db.events, row.id = ev ∧ row.clientId = c ∧ row.idempotencyKey = y) ∧
          ∀ d, i.delivery = some d → (d, ev) ∈ s'.pg.db.links := by
      intro c y ev hk he
      obtain ⟨⟨ty, p, hmem⟩, hdel⟩ := ho.new c y ev tx hk hnew hdone he htx
      rw [← hmine] at hmem
      obtain ⟨-, hrow, hlink⟩ := (h.committed hs).creates hok.tx hmem
      refine ⟨hrow, fun d hd => ?_⟩
      obtain ⟨ep, hmem⟩ := hdel d hd
      exact hlink ep d (hmine ▸ hmem)
    refine ⟨fun c y _ hn => ?_, fun c y ev hk _ he => (hcom c y ev hk he).1,
      fun ev d hk _ he hd => ?_⟩
    · rw [show i.isNew = false from hn] at hnew
      cases hnew
    · obtain ⟨⟨c, y⟩, hk⟩ := Option.isSome_iff_exists.mp hk
      exact (hcom c y ev hk he).2 d hd

/-- **What a call tells an ingestion** is in the tables. -/
theorem Advance.holds {i : Intake} {e : Eff} {r : e.Resp} {k : e.Resp → Code Reply} {w : World}
    {m : Memory} (h : Advance s s' t c th e r k w m) (hs : s.Ok) (hdb : s.pg.db.Extends s'.pg.db)
    (hp : permitsIntake i e) (ho : i.Open th.facts) (hi : i.Holds s.pg.db) :
    expectsIntake i e r ∧ (i.next e r).Holds s'.pg.db := by
  cases e with
  | sql q =>
    cases q with
    | commit =>
      refine ⟨trivial, ?_⟩
      cases r with
      | error x => exact hi.stays hdb rfl
      | ok x => exact h.holds_commit hs hdb ho hi
    | write st =>
      cases st with
      | insertEvent x y ty p =>
        refine ⟨trivial, ?_⟩
        match r with
        | .error x => exact hi.stays hdb rfl
        | .ok (some ev) =>
          refine ⟨nofun, fun c y ev hk hn => ?_, fun ev d hk hn => ?_⟩ <;>
            rcases hn with hn | hn <;> cases hn
        | .ok none =>
          obtain ⟨row, hrow, hkey⟩ := h.ran_into hs
          refine ⟨fun c y hk _ => ?_, nofun, nofun⟩
          cases hk
          exact ⟨row, hdb.events row hrow, hkey⟩
      | insertDelivery ev ep =>
        obtain ⟨x, y, rfl⟩ := hp
        have hne : r ≠ .ok none := by
          intro hr
          obtain ⟨pg', sess', hex, -, -⟩ := perform_sql h.done
          obtain ⟨_, _, _, _, heq⟩ := (Stmt.exec_cases hex).expected hr nofun
          cases heq
        refine ⟨hne, ?_⟩
        cases r with
        | error x => exact hi.stays hdb rfl
        | ok d =>
          refine ⟨nofun, fun c y ev hk hn => ?_, fun ev d hk hn => ?_⟩ <;>
            rcases hn with hn | hn <;> cases hn
      | _ => exact ⟨trivial, hi.stays hdb (by cases r <;> rfl)⟩
    | selectEventId x y =>
      rw [show i = { key := some (x, y) } from hp] at hi ⊢
      cases r with
      | error x => exact ⟨nofun, hi.stays hdb rfl⟩
      | ok o =>
        obtain ⟨row, hrow, rfl, hkey⟩ := h.found_event hs (hi.conflict x y rfl rfl)
        refine ⟨nofun, (hi.grows hdb).conflict, fun c z ev hk _ he => ?_, nofun⟩
        cases hk
        cases he
        exact ⟨row, hdb.events row hrow, rfl, hkey⟩
    | selectDeliveryOfEvent ev =>
      cases r with
      | error x => exact ⟨fun _ => nofun, hi.stays hdb rfl⟩
      | ok o =>
        cases hk : i.key with
        | none =>
          have hsame : i.next (.sql (.selectDeliveryOfEvent ev)) (.ok o) = i := by
            cases i
            cases hk
            rfl
          refine ⟨fun hsome => ?_, hi.stays hdb hsame⟩
          rw [hk] at hsome
          cases hsome
        | some key =>
          obtain ⟨x, y, rfl⟩ := hp (by rw [hk]; rfl)
          obtain ⟨row, hrow, hid, -⟩ := hi.event x y ev rfl (Or.inl rfl) rfl
          obtain ⟨d, st, rfl, hlink⟩ := h.found_delivery hs (ho.old rfl rfl rfl) ⟨row, hrow, hid⟩
          refine ⟨fun _ => nofun, (hi.grows hdb).conflict, (hi.grows hdb).event, ?_⟩
          intro ev' d' _ _ he hd
          cases he
          cases hd
          exact hdb.links _ hlink
    | _ => exact ⟨trivial, hi.stays hdb (by cases r <;> rfl)⟩
  | _ => exact ⟨trivial, hi.stays hdb rfl⟩

end Call

/-! ## The invariant -/

/-- The call reads a row that is not there. -/
def Event.misses : Event → Prop
  | ⟨.sql (.selectEventId _ _), .ok none⟩ => True
  | ⟨.sql (.selectDeliveryOfEvent _), .ok none⟩ => True
  | _ => False

/-- The execution has committed the event. -/
structure Intake.Creates (m : Intake) (ev : EventId) : Prop where
  key : m.key.isSome
  isNew : m.isNew = true
  done : m.done = true
  event : m.event = some ev

/-- **One ingestion.** -/
structure Thread.Ingested (db : Db) (th : Thread) : Prop where
  safe : Prog.Safe ingestion (intake th.trace) th.prog
    fun m r => ∀ x, r = .ok (.ingested x) → m.Returns x
  open_ : (intake th.trace).Open th.facts
  holds : (intake th.trace).Holds db
  reads : ∀ ev earlier, ev :: earlier <:+ th.trace → (intake earlier).key.isSome → ¬ ev.misses

/-- **The ingestions**, those that are over included. -/
structure Ingested (s : State) : Prop where
  threads : ∀ (t : Tid) (th : Thread), s.threads[t]? = some th → th.Ingested s.pg.db
  once : ∀ (t u : Tid) (th th' : Thread) ev, s.threads[t]? = some th → s.threads[u]? = some th' →
    (intake th.trace).Creates ev → (intake th'.trace).Creates ev → t = u

theorem Intake.Creates.committed {m : Intake} {ev : EventId} (h : m.Creates ev) (hi : m.Holds db) :
    ∃ row ∈ db.events, row.id = ev := by
  obtain ⟨⟨c, i⟩, hkey⟩ := Option.isSome_iff_exists.mp h.key
  obtain ⟨row, hrow, hid, -⟩ := hi.event c i ev hkey (Or.inr h.done) h.event
  exact ⟨row, hrow, hid⟩

theorem Thread.Ingested.permits {e : Eff} {k : e.Resp → Code Reply} (h : th.Ingested db)
    (hp : th.prog = .op e k) : permitsIntake (intake th.trace) e := by
  have hsafe := h.safe
  rw [hp] at hsafe
  exact hsafe.1

theorem not_misses {m : Intake} {e : Eff} {r : e.Resp} (h : expectsIntake m e r)
    (hm : m.key.isSome) : ¬ Event.misses ⟨e, r⟩ := by
  intro hmiss
  cases e with
  | sql q =>
    cases q with
    | selectEventId c i =>
      match r with
      | .error x => exact hmiss
      | .ok none => exact h rfl
      | .ok (some ev) => exact hmiss
    | selectDeliveryOfEvent ev =>
      match r with
      | .error x => exact hmiss
      | .ok none => exact h hm rfl
      | .ok (some d) => exact hmiss
    | _ => exact hmiss
  | _ => exact hmiss

/-- **A call keeps what an ingestion was told.** -/
theorem Thread.Ingested.call {c : Choice} {e : Eff} {r : e.Resp} {k : e.Resp → Code Reply} {w : World}
    {m : Memory} (hI : th.Ingested s.pg.db) (h : Advance s s' t c th e r k w m) (hs : s.Ok)
    (hdb : s.pg.db.Extends s'.pg.db) : (th.after e r k m).Ingested s'.pg.db := by
  have hp := hI.permits h.prog
  obtain ⟨hexp, hholds⟩ := h.holds hs hdb hp hI.open_ hI.holds
  refine ⟨?_, hI.open_.next hp ((hs.threads t th h.live).permits h.prog) r, hholds, ?_⟩
  · have hsafe := hI.safe
    rw [h.prog] at hsafe
    exact hsafe.2 r hexp
  · intro ev earlier hsuf
    rcases List.suffix_cons_iff.mp hsuf with heq | hsuf
    · cases heq
      exact not_misses hexp
    · exact hI.reads ev earlier hsuf

theorem Advance.creates {c : Choice} {e : Eff} {r : e.Resp} {k : e.Resp → Code Reply} {w : World}
    {m : Memory} {ev : EventId} (h : Advance s s' t c th e r k w m) (hs : s.Ok)
    (hI : th.Ingested s.pg.db) (hc : ((intake th.trace).next e r).Creates ev) :
    (intake th.trace).Creates ev ∨ ∀ row ∈ s.pg.db.events, row.id ≠ ev := by
  have hp := hI.permits h.prog
  have hopen := hI.open_
  generalize intake th.trace = i at hc hp hopen ⊢
  cases e with
  | sql q =>
    cases q with
    | commit =>
      cases r with
      | error x => exact Or.inl hc
      | ok x =>
        cases hd : i.done with
        | true => exact Or.inl ⟨hc.key, hc.isNew, hd, hc.event⟩
        | false =>
          have hok := hs.threads t th h.live
          obtain ⟨tx, htx, -⟩ := hok.permits h.prog
          have hmine : th.tx = tx := by rw [Thread.tx, htx]; rfl
          obtain ⟨⟨y, z⟩, hkey⟩ := Option.isSome_iff_exists.mp hc.key
          obtain ⟨⟨ty, p, hmem⟩, -⟩ := hopen.new y z ev tx hkey hc.isNew hd hc.event htx
          exact Or.inr ((h.committed hs).creates hok.tx (hmine ▸ hmem)).1
    | write st =>
      cases st with
      | insertEvent y z ty p =>
        rcases r with x | _ | ev
        · exact Or.inl hc
        · cases hc.isNew
        · cases hc.done
      | insertDelivery ev ep =>
        obtain ⟨y, z, rfl⟩ := hp
        cases r with
        | error x => exact Or.inl hc
        | ok d => cases hc.done
      | _ => cases r <;> exact Or.inl hc
    | selectEventId y z =>
      rw [show i = { key := some (y, z) } from hp] at hc
      cases r with
      | error x => cases hc.isNew
      | ok o => cases hc.isNew
    | selectDeliveryOfEvent ev =>
      cases r with
      | error x => exact Or.inl hc
      | ok o => exact Or.inl ⟨hc.key, hc.isNew, hc.done, hc.event⟩
    | _ => cases r <;> exact Or.inl hc
  | _ => exact Or.inl hc

theorem Comes.creates {ev : EventId} (h : Comes env s l s' t th') (hs : s.Ok) (hI : Ingested s)
    (hc : (intake th'.trace).Creates ev) :
    (∃ th, s.threads[t]? = some th ∧ (intake th.trace).Creates ev) ∨
      (∃ c, l = .op t c) ∧ ∀ row ∈ s.pg.db.events, row.id ≠ ev := by
  cases h with
  | call hl h hth =>
    subst hth
    have hget := (State.live?_eq_some.mp h.live).1
    rcases h.creates hs (hI.threads t _ hget) hc with hc | hnew
    · exact Or.inl ⟨_, hget, hc⟩
    · exact Or.inr ⟨⟨_, hl⟩, hnew⟩
  | kept h hprog htrace => exact Or.inl ⟨_, h, htrace ▸ hc⟩
  | fresh hprog htrace =>
    rw [htrace] at hc
    cases hc.key

theorem Ingested.step (hI : Ingested s) (hs : s.Ok) (h : step env s l = some s') : Ingested s' where
  threads t th' ht := by
    have hdb := step_extends hs h
    cases step_comes h ht with
    | call hl hadv hth =>
      subst hth
      exact (hI.threads t _ (State.live?_eq_some.mp hadv.live).1).call hadv hs hdb
    | kept hget hprog htrace =>
      obtain ⟨h1, h2, h3, h4⟩ := hI.threads t _ hget
      refine ⟨?_, ?_, ?_, ?_⟩
      · rw [htrace, hprog]
        exact h1
      · rw [Thread.facts, htrace]
        exact h2
      · rw [htrace]
        exact h3.grows hdb
      · rw [htrace]
        exact h4
    | @fresh k hprog htrace =>
      refine ⟨?_, ?_, ?_, ?_⟩
      · rw [htrace, hprog]
        exact safe_intake t k
      · rw [htrace]
        exact Intake.open_empty _
      · rw [htrace]
        exact Intake.holds_empty _
      · rw [htrace]
        exact fun ev earlier hsuf => absurd hsuf (by simp)
  once t u th th' ev ht hu hc hc' := by
    have hrow : ∀ (v : Tid) (th : Thread), s.threads[v]? = some th → (intake th.trace).Creates ev →
        ∃ row ∈ s.pg.db.events, row.id = ev :=
      fun v th hv hc => hc.committed (hI.threads v th hv).holds
    rcases (step_comes h ht).creates hs hI hc with ⟨th₀, ht₀, hc₀⟩ | ⟨⟨c, hl⟩, hnew⟩
    · rcases (step_comes h hu).creates hs hI hc' with ⟨th₁, hu₁, hc₁⟩ | ⟨-, hnew⟩
      · exact hI.once t u th₀ th₁ ev ht₀ hu₁ hc₀ hc₁
      · obtain ⟨row, hmem, hid⟩ := hrow t th₀ ht₀ hc₀
        exact absurd hid (hnew row hmem)
    · rcases (step_comes h hu).creates hs hI hc' with ⟨th₁, hu₁, hc₁⟩ | ⟨⟨c', hl'⟩, -⟩
      · obtain ⟨row, hmem, hid⟩ := hrow u th₁ hu₁ hc₁
        exact absurd hid (hnew row hmem)
      · rw [hl] at hl'
        cases hl'
        rfl

theorem reachable_ingested {C : State → Label → Prop} (h : Reachable env C s) : Ingested s := by
  have hinv : Reachable env C s ∧ Ingested s := by
    refine h.invariant (I := fun s => Reachable env C s ∧ Ingested s)
      ⟨.refl _, ⟨fun t th ht => ?_, fun t u th th' ev ht => ?_⟩⟩ ?_
    · cases ht
    · cases ht
    · rintro s l s' ⟨hr, hI⟩ hl hstep
      exact ⟨hr.snoc hl hstep, hI.step (reachable_ok hr) hstep⟩
  exact hinv.2

/-! ## Exactly once -/

/-- The execution took the database path with this `client_id` and `idempotency_key`, and returned. -/
structure Thread.Answered (th : Thread) (key : String × String) (r : IngestResult) : Prop where
  prog : th.prog = .ret (.ingested r)
  key : (intake th.trace).key = some key

/-- **Exactly-once creation.** -/
structure CreatedOnce (s : State) : Prop where
  event : ∀ c i, s.pg.db.events.countP (fun r => r.clientId = c ∧ r.idempotencyKey = i) ≤ 1
  delivery : ∀ ev ∈ s.pg.db.events, s.pg.db.deliveries.countP (fun r => r.eventId = ev.id) = 1
  created : ∀ d ∈ s.pg.db.deliveries, (s.pg.db.log d.id).countP (fun r => r.fromStatus = none) = 1
  isNew : ∀ (t u : Tid) (th th' : Thread) key r r', s.threads[t]? = some th →
    s.threads[u]? = some th' → th.Answered key r → th'.Answered key r' → r.isNew = true →
      r'.isNew = true → t = u
  same : ∀ (t u : Tid) (th th' : Thread) key r r', s.threads[t]? = some th →
    s.threads[u]? = some th' → th.Answered key r → th'.Answered key r' →
      r.eventId = r'.eventId ∧ r.deliveryId = r'.deliveryId
  reads : ∀ (t : Tid) (th : Thread) ev earlier, s.threads[t]? = some th →
    ev :: earlier <:+ th.trace → (intake earlier).key.isSome → ¬ ev.misses

theorem Thread.Ingested.answered {c i : String} {r : IngestResult} (h : th.Ingested db)
    (ha : th.Answered (c, i) r) :
    (∃ row ∈ db.events, row.id = r.eventId ∧ row.clientId = c ∧ row.idempotencyKey = i) ∧
      (r.deliveryId, r.eventId) ∈ db.links ∧
        (r.isNew = true → (intake th.trace).Creates r.eventId) := by
  have hsafe := h.safe
  rw [ha.prog] at hsafe
  have hsome : (intake th.trace).key.isSome := by rw [ha.key]; rfl
  obtain ⟨hdone, hev, hd, hnew⟩ := hsafe r rfl hsome
  refine ⟨h.holds.event c i _ ha.key (Or.inr hdone) hev,
    h.holds.delivery _ _ hsome (Or.inr hdone) hev hd, fun hn => ⟨hsome, hnew.trans hn, hdone, hev⟩⟩

theorem DbOk.event_unique (hdb : DbOk db) {row row' : EventRow} (h : row ∈ db.events)
    (h' : row' ∈ db.events) (hc : row.clientId = row'.clientId)
    (hi : row.idempotencyKey = row'.idempotencyKey) : row = row' :=
  List.inj_on_of_nodup_map hdb.eventKeys h h' (Prod.ext hc hi)

theorem Db.Singles.unique (h : db.Singles) {d d' : DeliveryId} {ev : EventId}
    (hd : (d, ev) ∈ db.links) (hd' : (d', ev) ∈ db.links) : d = d' :=
  congrArg Prod.fst (List.inj_on_of_nodup_map h hd hd' rfl)

/-- **Exactly-once creation**: in every reachable state, whatever the other executions do and wherever
they fail. -/
theorem created_once {C : State → Label → Prop} (h : Reachable env C s) : CreatedOnce s := by
  have hs := reachable_ok h
  have hI := reachable_ingested h
  have hsingles := reachable_singles h
  refine ⟨fun c i => ?_, fun ev hev => ?_, fun d hd => ?_, ?_, ?_, ?_⟩
  · have hkeys := List.nodup_iff_count_le_one.mp hs.db.eventKeys (c, i)
    rw [← Table.countP_key] at hkeys
    simpa using hkeys
  · obtain ⟨d, hd, he⟩ := hs.db.eventDelivery ev hev
    rw [Table.countP_key]
    refine List.count_eq_one_of_mem ?_ (he ▸ List.mem_map_of_mem hd)
    simpa [Db.Singles, Db.links, Function.comp_def] using hsingles
  · exact reachable_first h (hs.db.dossier?_of_mem hd)
  · rintro t u th th' ⟨c, i⟩ r r' ht hu ha ha' hn hn'
    obtain ⟨⟨row, hrow, hid, hc, hi⟩, -, hcr⟩ := (hI.threads t th ht).answered ha
    obtain ⟨⟨row', hrow', hid', hc', hi'⟩, -, hcr'⟩ := (hI.threads u th' hu).answered ha'
    have heq := hs.db.event_unique hrow hrow' (hc.trans hc'.symm) (hi.trans hi'.symm)
    have hev : r'.eventId = r.eventId := by rw [← hid, ← hid', heq]
    exact hI.once t u th th' r.eventId ht hu (hcr hn) (hev ▸ hcr' hn')
  · rintro t u th th' ⟨c, i⟩ r r' ht hu ha ha'
    obtain ⟨⟨row, hrow, hid, hc, hi⟩, hl, -⟩ := (hI.threads t th ht).answered ha
    obtain ⟨⟨row', hrow', hid', hc', hi'⟩, hl', -⟩ := (hI.threads u th' hu).answered ha'
    have heq := hs.db.event_unique hrow hrow' (hc.trans hc'.symm) (hi.trans hi'.symm)
    have hev : r.eventId = r'.eventId := by rw [← hid, ← hid', heq]
    exact ⟨hev, hsingles.unique hl (hev ▸ hl')⟩
  · exact fun t th ev earlier ht => (hI.threads t th ht).reads ev earlier

/-- Two requests with one key at the same time: the second has begun its transaction when the first
commits. -/
def sampleRace : List Label :=
  [.createEndpoint "client" "url" "secret",
    .request (.postEvent ⟨some "key", 0, 0, "type", "payload"⟩),
    .request (.postEvent ⟨some "key", 0, 0, "type", "payload"⟩)] ++
  calls 0 8 ++ calls 1 5 ++ calls 0 4 ++ calls 1 5

theorem created_once_race : ∃ s, Reachable sampleEnv NoCalls s ∧
    (s.threads.map fun th => ((intake th.trace).key, (intake th.trace).isNew,
      (intake th.trace).done)) =
        [(some ("client", "key"), true, true), (some ("client", "key"), false, true)] ∧
      CreatedOnce s := by
  obtain ⟨s, hreach, hs⟩ := sample_run (C := NoCalls) sampleRace
    (fun s => (s.threads.map fun th => ((intake th.trace).key, (intake th.trace).isNew,
      (intake th.trace).done)) =
        [(some ("client", "key"), true, true), (some ("client", "key"), false, true)])
    (by decide +kernel)
  exact ⟨s, hreach, by simpa using hs, created_once hreach⟩

end WebhookEngine
