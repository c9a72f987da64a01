import WebhookEngine.Proof.AuditLog
import WebhookEngine.Proof.Retry
import WebhookEngine.Proof.Walks

set_option autoImplicit false

/-!
# The two listings of DLQ

`listDlq` joins the latest transition to DLQ and compares uuids with a Date, `list` has no such join and
compares texts.

* `State.snapshot`: what a SELECT sees in a reachable state, in which every delivery in DLQ has its
  transition.
* `Issued`: the cursors the two endpoints hand out.
* **`dlq_listings_agree`**: with such a cursor or none both list the same rows.
-/

namespace WebhookEngine

open EffectProg TransitionSystem

variable {env : Env} {C : State → Label → Prop} {s : State} {rt : Runtime} {limit : ℕ} {σ : Snapshot}

/-! ## The tables of a reachable state -/

/-- How Postgres has the tables: ids as uuids, and times in microseconds. -/
structure Precision where
  uuid : ℕ → Uuid
  created : DeliveryRow → Micros
  updated : DeliveryRow → Micros
  next : DeliveryRow → Option Micros
  logged : TransitionRow → Micros

/-- The uuids in use are different, and the clock is between the years 1 and 9999. -/
structure Precision.Suits (P : Precision) (db : Db) : Prop where
  inj : Set.InjOn P.uuid {n | n < db.uuidSeq}
  plain : ∀ row ∈ db.deliveries, (P.updated row).toDate.Plain

def Precision.delivery (P : Precision) (r : DeliveryRow) : Snapshot.Delivery where
  id := P.uuid r.id
  eventId := P.uuid r.eventId
  endpointId := P.uuid r.endpointId
  status := r.status
  attemptCount := r.attemptCount
  nextAttemptAt := P.next r
  createdAt := P.created r
  updatedAt := P.updated r

def Precision.event (P : Precision) (r : EventRow) : Snapshot.Event := ⟨P.uuid r.id, r.eventType⟩

def Precision.transition (P : Precision) (r : TransitionRow) : Snapshot.Transition :=
  ⟨r.id, P.uuid r.deliveryId, r.toStatus, P.logged r⟩

theorem Precision.nodup {P : Precision} {α : Type} {db : Db} (h : P.Suits db) {rows : List α}
    {id : α → ℕ} (hn : (rows.map id).Nodup) (hlt : ∀ r ∈ rows, id r < db.uuidSeq) :
    (rows.map fun r => P.uuid (id r)).Nodup := by
  have hmap := hn.map_on (f := P.uuid) fun a ha b hb hab => by
    obtain ⟨r, hr, rfl⟩ := List.mem_map.mp ha
    obtain ⟨r', hr', rfl⟩ := List.mem_map.mp hb
    exact h.inj (hlt r hr) (hlt r' hr') hab
  rwa [List.map_map] at hmap

theorem dlq_entered (h : Reachable env C s) {row : DeliveryRow} (hrow : row ∈ s.pg.db.deliveries)
    (hst : row.status = .dlq) :
    ∃ tr ∈ s.pg.db.transitions, tr.deliveryId = row.id ∧ tr.toStatus = .dlq := by
  have hD := (reachable_ok h).db.dossier?_of_mem hrow
  obtain ⟨-, before, last, hlog, hto⟩ := reachable_projects h hD
  have hmem : last ∈ s.pg.db.log row.id := by
    change last ∈ (⟨row, s.pg.db.log row.id, s.pg.db.attemptsOf row.id⟩ : Dossier).log
    rw [hlog]
    simp
  exact ⟨last, (Db.mem_log.mp hmem).1, (Db.mem_log.mp hmem).2, hto.trans hst⟩

/-- **What a SELECT sees in a reachable state.** -/
def State.snapshot (P : Precision) (h : Reachable env C s) (hP : P.Suits s.pg.db) : Snapshot where
  deliveries := s.pg.db.deliveries.map P.delivery
  events := s.pg.db.events.map P.event
  transitions := s.pg.db.transitions.map P.transition
  ids := by
    have hdb := (reachable_ok h).db
    rw [List.map_map]
    exact Precision.nodup hP hdb.ids hdb.idsLt
  eventIds := by
    have hdb := (reachable_ok h).db
    rw [List.map_map]
    exact Precision.nodup hP hdb.eventIds hdb.eventIdsLt
  eventRef := by
    intro d hd
    obtain ⟨row, hrow, rfl⟩ := List.mem_map.mp hd
    obtain ⟨ev, hev, hid⟩ := (reachable_ok h).db.deliveryEvent row hrow
    exact ⟨P.event ev, List.mem_map_of_mem hev, congrArg P.uuid hid⟩
  entered := by
    intro d hd hst
    obtain ⟨row, hrow, rfl⟩ := List.mem_map.mp hd
    obtain ⟨tr, htr, hid, hto⟩ := dlq_entered h hrow hst
    exact ⟨P.transition tr, List.mem_map_of_mem htr, congrArg P.uuid hid, hto⟩
  plain := by
    intro d hd
    obtain ⟨row, hrow, rfl⟩ := List.mem_map.mp hd
    exact hP.plain row hrow

/-! ## Cursors -/

/-- One of the endpoints has answered with the cursor. -/
def Issued (rt : Runtime) (c : String) : Prop :=
  ∃ σ limit cursor, (∃ filters rows, getDeliveries rt filters limit cursor σ = .ok (rows, some c)) ∨
    ∃ rows, getDlq rt limit cursor σ = .ok (rows, some c)

theorem nextCursor_some {last : Option DeliveryListRow} {more : Bool} {c : String}
    (h : nextCursor rt last more = some c) :
    ∃ r, last = some r ∧ c = encodeCursor rt ⟨rt.toISOString r.updatedAt, r.id.text⟩ := by
  unfold nextCursor at h
  split at h
  · obtain ⟨r, hr, hc⟩ := Option.map_eq_some_iff.mp h
    exact ⟨r, hr, hc.symm⟩
  · cases h

theorem mem_of_list {filters : DeliveryListFilters} {cursor : Option Cursor}
    {rows : List DeliveryListRow} {more : Bool}
    (h : list rt filters cursor limit σ = .ok (rows, more)) {r : DeliveryListRow} (hr : r ∈ rows) :
    ∃ d ∈ σ.deliveries, ∃ ev, r = d.row ev := by
  obtain ⟨from_, to_, after, -, -, -, rfl⟩ := of_list h
  obtain ⟨d, hd, rfl⟩ := List.mem_map.mp hr
  have hmem := List.mem_of_mem_take hd
  rw [Keyset.descending, List.mem_insertionSort, List.mem_filter] at hmem
  exact ⟨d, hmem.1, _, rfl⟩

theorem mem_of_listDlq {cursor : Option (JsDate × String)} {rows : List DlqRow} {more : Bool}
    (h : listDlq rt cursor limit σ = .ok (rows, more)) {r : DlqRow} (hr : r ∈ rows) :
    ∃ d ∈ σ.deliveries, ∃ ev, r.toDeliveryListRow = d.row ev := by
  obtain ⟨place, hafter, -⟩ := ok_of_bind h
  rw [listDlq_eq hafter] at h
  cases h
  obtain ⟨d, hd, rfl⟩ := List.mem_map.mp hr
  have hmem := (Keyset.mem_below Snapshot.order).mp (List.mem_of_mem_take hd)
  exact ⟨d, inDlq_sublist.subset hmem.1, _, rfl⟩

/-- **A cursor that was handed out** is that of a delivery. -/
theorem Issued.delivery {c : String} (h : Issued rt c) :
    ∃ d : Snapshot.Delivery, d.updatedAt.toDate.Plain ∧ c = cursorAfter rt d := by
  obtain ⟨σ, limit, cursor, ⟨filters, rows, h⟩ | ⟨rows, h⟩⟩ := h
  · obtain ⟨c₀, -, h⟩ := ok_of_bind h
    obtain ⟨⟨rows', more⟩, hlist, h⟩ := ok_of_bind h
    obtain ⟨-, hnext⟩ := Prod.mk.inj (Except.ok.inj h)
    obtain ⟨r, hlast, hc⟩ := nextCursor_some hnext
    obtain ⟨d, hd, ev, rfl⟩ := mem_of_list hlist (List.mem_of_getLast? hlast)
    exact ⟨d, σ.plain d hd, hc⟩
  · obtain ⟨c₀, -, h⟩ := ok_of_bind h
    obtain ⟨c₁, -, h⟩ := ok_of_bind h
    obtain ⟨⟨rows', more⟩, hlist, h⟩ := ok_of_bind h
    obtain ⟨-, hnext⟩ := Prod.mk.inj (Except.ok.inj h)
    obtain ⟨r, hlast, hc⟩ := nextCursor_some hnext
    obtain ⟨x, hx, rfl⟩ := Option.map_eq_some_iff.mp hlast
    obtain ⟨d, hd, ev, hr⟩ := mem_of_listDlq hlist (List.mem_of_getLast? hx)
    rw [hr] at hc
    exact ⟨d, σ.plain d hd, hc⟩

/-! ## Both listings -/

theorem matching_dlq : matching rt { statuses := [.dlq] } σ = inDlq σ := by
  change σ.deliveries.filter (DeliveryListFilters.accepts { statuses := [.dlq] } none none) = _
  refine List.filter_congr fun d _ => ?_
  simp [DeliveryListFilters.accepts]

theorem listings_agree {c : Option Cursor} {c' : Option (JsDate × String)}
    {after : Option (Micros ×ₗ String)} {place : Option (Micros ×ₗ Uuid)}
    (hafter : listAfter rt c = .ok after) (hplace : dlqAfter rt c' = .ok place)
    (hsame : ∀ d : Snapshot.Delivery, (after.all fun p => d.textKey < p) =
      place.all fun p => d.key < p) :
    ∃ rows more, listDlq rt c' limit σ = .ok (rows, more) ∧
      list rt { statuses := [.dlq] } c limit σ = .ok (rows.map (·.toDeliveryListRow), more) ∧
        ∀ r ∈ rows, ∃ d ∈ σ.deliveries, d.status = .dlq ∧ r.id = d.id ∧
          r.dlqEnteredAt = (σ.enteredBy d).createdAt.toDate := by
  refine ⟨_, _, listDlq_eq hplace, ?_, fun r hr => ?_⟩
  · rw [@list_eq _ _ _ _ none none rfl rfl _ _ _ hafter hsame, matching_dlq, List.map_map]
    rfl
  · obtain ⟨d, hd, rfl⟩ := List.mem_map.mp hr
    have hmem := ((Keyset.mem_below Snapshot.order).mp (List.mem_of_mem_take hd)).1
    obtain ⟨hin, hst⟩ := List.mem_filter.mp hmem
    exact ⟨d, hin, of_decide_eq_true hst, rfl, rfl⟩

/-- The transition `listDlq` joins is the latest one to DLQ. -/
theorem enteredBy_latest {d : Snapshot.Delivery} (hd : d ∈ σ.deliveries) (hst : d.status = .dlq) :
    σ.enteredBy d ∈ σ.transitions ∧ (σ.enteredBy d).deliveryId = d.id ∧
      (σ.enteredBy d).toStatus = .dlq ∧
        ∀ tr ∈ σ.transitions, tr.deliveryId = d.id → tr.toStatus = .dlq →
          tr.id ≤ (σ.enteredBy d).id := by
  obtain ⟨tr, htr⟩ := Option.isSome_iff_exists.mp (σ.lastDlq_isSome hd hst)
  have heq : σ.enteredBy d = tr := by rw [Snapshot.enteredBy, htr]; rfl
  rw [heq]
  obtain ⟨hin, hof⟩ := List.mem_filter.mp (List.argmax_mem htr)
  obtain ⟨hid, hto⟩ := of_decide_eq_true hof
  refine ⟨hin, hid, hto, fun tr' hin' hid' hto' => ?_⟩
  exact List.le_of_mem_argmax (List.mem_filter.mpr ⟨hin', decide_eq_true ⟨hid', hto'⟩⟩) htr

/-- The cursor an endpoint handed out, or none, as both statements read it. -/
theorem place_of_issued {cursor : Option String} (hc : ∀ c ∈ cursor, Issued rt c) :
    ∃ c c' after place, cursorParam rt cursor = .ok c ∧ dlqCursor rt c = .ok c' ∧
      listAfter rt c = .ok after ∧ dlqAfter rt c' = .ok place ∧
        ∀ d : Snapshot.Delivery, (after.all fun p => d.textKey < p) =
          place.all fun p => d.key < p := by
  cases cursor with
  | none => exact ⟨none, none, none, none, rfl, rfl, rfl, rfl, fun _ => rfl⟩
  | some c =>
    obtain ⟨d, hplain, rfl⟩ := (hc c rfl).delivery
    refine ⟨_, some (d.updatedAt.toDate, d.id.text),
      some (toLex (d.updatedAt.toDate.toMicros, d.id.text)), some d.place,
      cursorParam_after hplain, ?_, ?_, ?_, fun d' => ?_⟩
    · rw [dlqCursor, rt.newDate_iso _ hplain]
      rfl
    · rw [listAfter, rt.timestamptz_iso _ hplain, textParam_text]
      rfl
    · rw [dlqAfter, rt.dateTimestamptz_plain _ hplain, rt.uuid_text]
      rfl
    · exact decide_eq_decide.mpr (textKey_lt d' d)

/-- The latest transition of the delivery to DLQ. -/
def LastDlq (db : Db) (d : DeliveryId) (tr : TransitionRow) : Prop :=
  tr ∈ db.transitions ∧ tr.deliveryId = d ∧ tr.toStatus = .dlq ∧
    ∀ tr' ∈ db.transitions, tr'.deliveryId = d → tr'.toStatus = .dlq → tr'.id ≤ tr.id

theorem lastDlq_of_enteredBy {P : Precision} (h : Reachable env C s) (hP : P.Suits s.pg.db)
    {row : DeliveryRow} (hrow : row ∈ s.pg.db.deliveries) (hst : row.status = .dlq) :
    ∃ tr, LastDlq s.pg.db row.id tr ∧
      ((s.snapshot P h hP).enteredBy (P.delivery row)).createdAt = P.logged tr := by
  have hdb := (reachable_ok h).db
  have hd : P.delivery row ∈ (s.snapshot P h hP).deliveries := List.mem_map_of_mem hrow
  obtain ⟨hin, hid, hto, hlast⟩ := enteredBy_latest hd hst
  obtain ⟨tr, htr, heq⟩ := List.mem_map.mp hin
  rw [← heq] at hid hto hlast
  obtain ⟨row', hrow'⟩ := Option.isSome_iff_exists.mp (hdb.logRef tr htr)
  have hlt : tr.deliveryId < s.pg.db.uuidSeq := by
    have := hdb.idsLt row' (List.mem_of_find?_eq_some hrow')
    rwa [show row'.id = tr.deliveryId from by simpa using List.find?_some hrow'] at this
  refine ⟨tr, ⟨htr, hP.inj hlt (hdb.idsLt row hrow) hid, hto, fun tr' htr' hid' hto' => ?_⟩, ?_⟩
  · exact hlast (P.transition tr') (List.mem_map_of_mem htr') (congrArg P.uuid hid') hto'
  · rw [← heq]
    rfl

/-- **In every reachable state** `GET /v1/dlq` lists what `GET /v1/deliveries?status=DLQ` does, with the
time each delivery entered DLQ. -/
theorem dlq_listings_agree {P : Precision} (h : Reachable env C s) (hP : P.Suits s.pg.db)
    (limit : ℕ) (cursor : Option String) (hc : ∀ c ∈ cursor, Issued rt c) :
    ∃ c c' rows more, cursorParam rt cursor = .ok c ∧ dlqCursor rt c = .ok c' ∧
      listDlq rt c' limit (s.snapshot P h hP) = .ok (rows, more) ∧
      list rt { statuses := [.dlq] } c limit (s.snapshot P h hP) =
        .ok (rows.map (·.toDeliveryListRow), more) ∧
      ∀ r ∈ rows, ∃ row ∈ s.pg.db.deliveries, ∃ tr, r.id = P.uuid row.id ∧ row.status = .dlq ∧
        LastDlq s.pg.db row.id tr ∧ r.dlqEnteredAt = (P.logged tr).toDate := by
  obtain ⟨c, c', after, place, hparam, hdlq, hafter, hplace, hsame⟩ := place_of_issued hc
  obtain ⟨rows, more, hrows, hlist, hall⟩ :=
    listings_agree (σ := s.snapshot P h hP) hafter hplace hsame
  refine ⟨c, c', rows, more, hparam, hdlq, hrows, hlist, fun r hr => ?_⟩
  obtain ⟨d, hd, hst, hid, hat⟩ := hall r hr
  obtain ⟨row, hrow, rfl⟩ := List.mem_map.mp hd
  obtain ⟨tr, htr, hcreated⟩ := lastDlq_of_enteredBy h hP hrow hst
  exact ⟨row, hrow, tr, hid, hst, htr, hat.trans (congrArg Micros.toDate hcreated)⟩

/-! ## A delivery in DLQ -/

/-- The tables of the samples, some time after the date of the sample. -/
def samplePrecision : Precision where
  uuid := Uuid.ofNat
  created r := sampleDate.toMicros + r.createdAt * 1000
  updated r := sampleDate.toMicros + r.updatedAt * 1000
  next r := r.nextAttemptAt.map fun t => sampleDate.toMicros + t * 1000
  logged r := sampleDate.toMicros + r.createdAt * 1000

theorem samplePrecision_suits {db : Db} (hseq : db.uuidSeq ≤ 100)
    (hat : ∀ row ∈ db.deliveries, row.updatedAt ≤ 1000000) : samplePrecision.Suits db where
  inj n hn m hm h := by
    have hlt : ∀ k < db.uuidSeq, k % 2 ^ 128 = k := fun k hk =>
      Nat.mod_eq_of_lt ((hk.trans_le hseq).trans (by decide))
    have hval : n % 2 ^ 128 = m % 2 ^ 128 := congrArg Fin.val h
    rwa [hlt n hn, hlt m hm] at hval
  plain row hrow := by
    have : (row.updatedAt : ℤ) ≤ 1000000 := Int.ofNat_le.mpr (hat row hrow)
    change (-62135596800000 : ℤ) ≤ (1781481600000 * 1000 + (row.updatedAt : ℤ) * 1000) / 1000 ∧
      (1781481600000 * 1000 + (row.updatedAt : ℤ) * 1000) / 1000 < (253402300800000 : ℤ)
    omega

theorem issued_sample : Issued sampleRuntime (cursorAfter sampleRuntime (sampleRow 1 500)) := by
  refine ⟨sampleSnapshot, 1, none,
    Or.inl ⟨{}, [(sampleRow 1 500).row (sampleSnapshot.eventOf (sampleRow 1 500))], ?_⟩⟩
  rw [(@serves_deliveries sampleRuntime {} 1 none none rfl rfl).first, Keyset.answer,
    matching_sample, below_sample]
  rfl

/-- The sample delivery has moved to DLQ; the cursor is that of another one. -/
theorem dlq_listings_agree_one : ∃ s P, ∃ (h : Reachable sampleEnv (fun _ _ => True) s)
    (hP : Precision.Suits P s.pg.db), s.pg.db.status? 2 = some .dlq ∧
    ∀ cursor ∈ [none, some (cursorAfter sampleRuntime (sampleRow 1 500))],
      ∃ c c' rows more, cursorParam sampleRuntime cursor = .ok c ∧
        dlqCursor sampleRuntime c = .ok c' ∧
        listDlq sampleRuntime c' 1 (s.snapshot P h hP) = .ok (rows, more) ∧
        list sampleRuntime { statuses := [.dlq] } c 1 (s.snapshot P h hP) =
          .ok (rows.map (·.toDeliveryListRow), more) ∧
        ∀ r ∈ rows, ∃ row ∈ s.pg.db.deliveries, ∃ tr, r.id = P.uuid row.id ∧ row.status = .dlq ∧
          LastDlq s.pg.db row.id tr ∧ r.dlqEnteredAt = (P.logged tr).toDate := by
  obtain ⟨s, hreach, hs⟩ := sample_run (C := fun _ _ => True) sampleDlq
    (fun s => s.pg.db.status? 2 = some .dlq ∧ s.pg.db.uuidSeq ≤ 100 ∧
      ∀ row ∈ s.pg.db.deliveries, row.updatedAt ≤ 1000000) (by decide +kernel)
  obtain ⟨hst, hseq, hat⟩ := of_decide_eq_true hs
  have hP := samplePrecision_suits hseq hat
  refine ⟨s, samplePrecision, hreach, hP, hst, fun cursor hmem => ?_⟩
  refine dlq_listings_agree hreach hP 1 cursor fun c hc => ?_
  rcases List.mem_cons.mp hmem with rfl | hmem
  · cases hc
  · obtain rfl := List.mem_singleton.mp hmem
    obtain rfl := Option.some_inj.mp (Option.mem_def.mp hc)
    exact issued_sample

end WebhookEngine
