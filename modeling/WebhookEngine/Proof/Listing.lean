import WebhookEngine.Lib.Keyset
import WebhookEngine.Lib.Table
import WebhookEngine.Model.Listing

set_option autoImplicit false

/-!
# Walking the listings

Both listings order by `(updated_at, id)`. Their cursor keeps the milliseconds of `updated_at` only, so
that the next page starts at `Delivery.place` of the last row, which can be below its key.

* `text_lt`: the text of uuids has their order.
* `serves_deliveries`, `serves_dlq`: a page is the first rows below the place of its cursor.
* **`walk_complete_iff`**: a walk loses nothing and repeats nothing if and only if no row lies between
  the end of a page and the place where the next one starts.
* **`walk_loses`**: two deliveries of one millisecond.
-/

namespace WebhookEngine

/-! ## Uuids and their text -/

theorem append_lt_append {l l' r r' : List Char} (h : l.length = l'.length) :
    l ++ r < l' ++ r' ↔ l < l' ∨ l = l' ∧ r < r' := by
  induction l generalizing l' with
  | nil =>
    rw [List.length_eq_zero_iff.mp h.symm]
    simp
  | cons a l ih =>
    cases l' with
    | nil => cases h
    | cons b l' =>
      rw [List.cons_append, List.cons_append, List.cons_lt_cons_iff, List.cons_lt_cons_iff,
        ih (Nat.succ.inj h), List.cons_eq_cons]
      tauto

theorem hexDigit_lt : ∀ a < 16, ∀ b < 16, (hexDigit a < hexDigit b ↔ a < b) := by decide

@[simp] theorem length_hex (n v : ℕ) : (hex n v).length = n := by
  induction n generalizing v with
  | zero => rfl
  | succ n ih => simp [hex, ih]

/-- Numbers of two digits, the lower one less than `k`, compare digit by digit. -/
theorem digits_lt {k q r q' r' : ℕ} (hr : r < k) (hr' : r' < k) :
    r + k * q < r' + k * q' ↔ q < q' ∨ q = q' ∧ r < r' := by
  rcases lt_trichotomy q q' with h | rfl | h
  · have : k * (q + 1) ≤ k * q' := Nat.mul_le_mul_left k h
    rw [Nat.mul_add_one] at this
    exact ⟨fun _ => Or.inl h, fun _ => by omega⟩
  · simp
  · have : k * (q' + 1) ≤ k * q := Nat.mul_le_mul_left k h
    rw [Nat.mul_add_one] at this
    exact ⟨fun _ => by omega, fun h' => by omega⟩

theorem eq_iff_of_lt_iff {α β : Type} [LinearOrder α] [LinearOrder β] {a b : α} {x y : β}
    (h : a < b ↔ x < y) (h' : b < a ↔ y < x) : a = b ↔ x = y := by
  rw [le_antisymm_iff, le_antisymm_iff, ← not_lt, ← not_lt, ← not_lt, ← not_lt, h, h']

theorem hex_lt (n v w : ℕ) : hex n v < hex n w ↔ v % 16 ^ n < w % 16 ^ n := by
  induction n generalizing v w with
  | zero => simp [hex, Nat.mod_one]
  | succ n ih =>
    have hv : v % 16 < 16 := Nat.mod_lt _ (by decide)
    have hw : w % 16 < 16 := Nat.mod_lt _ (by decide)
    have hpow : ∀ x, x % 16 ^ (n + 1) = x % 16 + 16 * (x / 16 % 16 ^ n) := fun x => by
      rw [Nat.pow_succ', Nat.mod_mul]
    have hdigit : [hexDigit (v % 16)] < [hexDigit (w % 16)] ↔ v % 16 < w % 16 := by
      rw [List.cons_lt_cons_iff, hexDigit_lt _ hv _ hw]
      simp
    rw [hpow v, hpow w, digits_lt hv hw, hex, hex, append_lt_append (by simp), ih, hdigit,
      eq_iff_of_lt_iff (ih _ _) (ih _ _)]

theorem hexGroups_lt (ns : List ℕ) (v w : ℕ) :
    hexGroups ns v < hexGroups ns w ↔ v % 16 ^ ns.sum < w % 16 ^ ns.sum := by
  induction ns generalizing v w with
  | nil => simp [hexGroups, Nat.mod_one]
  | cons n ns ih =>
    cases ns with
    | nil => simpa [hexGroups] using hex_lt n v w
    | cons m ns =>
      have hk : 0 < 16 ^ (m :: ns).sum := Nat.pow_pos (by decide)
      have hpow : ∀ x, x % 16 ^ (n :: m :: ns).sum = x % 16 ^ (m :: ns).sum +
          16 ^ (m :: ns).sum * (x / 16 ^ (m :: ns).sum % 16 ^ n) := fun x => by
        rw [List.sum_cons, Nat.add_comm, Nat.pow_add, Nat.mod_mul]
      have htail : '-' :: hexGroups (m :: ns) v < '-' :: hexGroups (m :: ns) w ↔
          v % 16 ^ (m :: ns).sum < w % 16 ^ (m :: ns).sum := by
        rw [List.cons_lt_cons_iff, ih]
        simp
      have hcons : ∀ x, hexGroups (n :: m :: ns) x =
          hex n (x / 16 ^ (m :: ns).sum) ++ '-' :: hexGroups (m :: ns) x := fun _ => rfl
      rw [hpow v, hpow w, digits_lt (Nat.mod_lt _ hk) (Nat.mod_lt _ hk), hcons v, hcons w,
        append_lt_append (by simp), hex_lt, htail, eq_iff_of_lt_iff (hex_lt _ _ _) (hex_lt _ _ _)]

/-- **The text of uuids has their order.** -/
theorem text_lt (u v : Uuid) : u.text < v.text ↔ u < v := by
  have hlt : ∀ u : Uuid, u.val % 16 ^ [8, 4, 4, 4, 12].sum = u.val := fun u =>
    Nat.mod_eq_of_lt (u.isLt.trans_le (by decide))
  rw [String.lt_iff_toList_lt, Uuid.text, Uuid.text, String.toList_ofList, String.toList_ofList,
    hexGroups_lt, hlt, hlt]
  rfl

theorem hexDigit_ne : ∀ v < 16, hexDigit v ≠ '\x00' := by decide

theorem not_mem_hex (n v : ℕ) : '\x00' ∉ hex n v := by
  induction n generalizing v with
  | zero => simp [hex]
  | succ n ih => simp [hex, ih, (hexDigit_ne _ (Nat.mod_lt v (by decide))).symm]

theorem not_mem_hexGroups (ns : List ℕ) (v : ℕ) : '\x00' ∉ hexGroups ns v := by
  induction ns generalizing v with
  | nil => simp [hexGroups]
  | cons n ns ih =>
    cases ns with
    | nil => exact not_mem_hex n v
    | cons m ns =>
      have hcons : hexGroups (n :: m :: ns) v =
          hex n (v / 16 ^ (m :: ns).sum) ++ '-' :: hexGroups (m :: ns) v := rfl
      simp [hcons, not_mem_hex, ih]

theorem textParam_text (u : Uuid) : textParam u.text = some u.text := by
  refine if_neg ?_
  rw [Uuid.text, String.toList_ofList]
  exact not_mem_hexGroups _ _

/-! ## Pages -/

namespace Snapshot

/-- Where the page after the delivery starts: its cursor keeps the milliseconds. -/
def Delivery.place (d : Delivery) : Micros ×ₗ Uuid := toLex (d.updatedAt.toDate.toMicros, d.id)

theorem toMicros_toDate_le (τ : Micros) : τ.toDate.toMicros ≤ τ :=
  Int.ediv_mul_le τ (by decide)

/-- The order of both listings. -/
def order : Keyset Delivery (Micros ×ₗ Uuid) Uuid where
  key := Delivery.key
  place := Delivery.place
  id := Delivery.id
  place_le _ := Prod.Lex.toLex_mono ⟨toMicros_toDate_le _, le_rfl⟩
  id_of_key _ _ h := congrArg Prod.snd (toLex_inj.mp h)

/-- The event of a delivery. -/
def eventOf (σ : Snapshot) (d : Delivery) : Event :=
  (σ.events.find? fun ev => ev.id = d.eventId).getD ⟨d.eventId, ""⟩

theorem joined_eq (σ : Snapshot) : σ.joined = σ.deliveries.map fun d => (d, σ.eventOf d) := by
  rw [joined, List.map_eq_flatMap]
  refine List.flatMap_congr fun d hd => ?_
  obtain ⟨ev, hev, hid⟩ := σ.eventRef d hd
  rw [eventOf, ← hid, Table.find?_eq_of_mem Event.id σ.eventIds hev,
    Table.filter_key Event.id σ.eventIds hev]
  rfl

theorem lastDlq_isSome (σ : Snapshot) {d : Delivery} (hd : d ∈ σ.deliveries)
    (h : d.status = .dlq) : (σ.lastDlq d.id).isSome := by
  obtain ⟨tr, htr, hof⟩ := σ.entered d hd h
  have hmem : tr ∈ σ.transitions.filter fun tr => tr.deliveryId = d.id ∧ tr.toStatus = .dlq :=
    List.mem_filter.mpr ⟨htr, by simpa using hof⟩
  cases hlast : σ.lastDlq d.id with
  | some _ => rfl
  | none =>
    rw [List.argmax_eq_none.mp hlast] at hmem
    cases hmem

/-- The transition that took a delivery to DLQ. -/
def enteredBy (σ : Snapshot) (d : Delivery) : Transition :=
  (σ.lastDlq d.id).getD ⟨0, d.id, .dlq, d.updatedAt⟩

end Snapshot

variable {rt : Runtime} {filters : DeliveryListFilters} {limit : ℕ} {σ : Snapshot}

/-- The deliveries that satisfy the filters. -/
def matching (rt : Runtime) (filters : DeliveryListFilters) (σ : Snapshot) :
    List Snapshot.Delivery :=
  match bound rt filters.fromDate, bound rt filters.toDate with
  | .ok from_, .ok to_ => σ.deliveries.filter (filters.accepts from_ to_)
  | _, _ => []

/-- The deliveries in DLQ. -/
def inDlq (σ : Snapshot) : List Snapshot.Delivery := σ.deliveries.filter fun d => d.status = .dlq

theorem matching_sublist : (matching rt filters σ).Sublist σ.deliveries := by
  unfold matching
  split
  · exact List.filter_sublist
  · exact List.nil_sublist _

theorem inDlq_sublist : (inDlq σ).Sublist σ.deliveries := List.filter_sublist

/-- `next_cursor` after the delivery. -/
def cursorAfter (rt : Runtime) (d : Snapshot.Delivery) : String :=
  encodeCursor rt ⟨rt.toISOString d.updatedAt.toDate, d.id.text⟩

theorem cursorParam_after {d : Snapshot.Delivery} (h : d.updatedAt.toDate.Plain) :
    cursorParam rt (some (cursorAfter rt d)) =
      .ok (some ⟨rt.toISOString d.updatedAt.toDate, d.id.text⟩) := by
  have hne : cursorAfter rt d ≠ "" := rt.toBase64url_ne_empty _
  rw [cursorParam, if_neg hne, cursorAfter, encodeCursor, decodeCursor, rt.parse_stringify _ _ h]
  rfl

/-- The two comparisons of the SQL are one. -/
theorem textKey_lt (d a : Snapshot.Delivery) :
    d.textKey < toLex (a.updatedAt.toDate.toMicros, a.id.text) ↔ d.key < a.place := by
  rw [Snapshot.Delivery.textKey, Snapshot.Delivery.key, Snapshot.Delivery.place,
    Prod.Lex.toLex_lt_toLex, Prod.Lex.toLex_lt_toLex, text_lt]

theorem all_key_lt (place : Option (Micros ×ₗ Uuid)) (d : Snapshot.Delivery) :
    (place.all fun p => d.key < p) = place.all fun p => Snapshot.order.key d < p :=
  congrArg (place.all ·) (funext fun _ => decide_eq_decide.mpr Iff.rfl)

theorem orderBy_map {α : Type} (delivery : α → Snapshot.Delivery) (f : Snapshot.Delivery → α)
    (hf : ∀ d, delivery (f d) = d) (rows : List Snapshot.Delivery) :
    orderBy delivery (rows.map f) = (Snapshot.order.descending rows).map f := by
  exact (List.map_insertionSort _ _ f rows fun a _ b _ => by rw [hf, hf]; rfl).symm

theorem ok_of_bind {ε α β : Type} {x : Except ε α} {f : α → Except ε β} {b : β}
    (h : x >>= f = .ok b) : ∃ a, x = .ok a ∧ f a = .ok b := by
  cases x with
  | error y => cases h
  | ok a => exact ⟨a, rfl, h⟩

/-- `LIMIT limit + 1` and the slice of it. -/
theorem page_eq {α ρ : Type} (l : List Snapshot.Delivery) (f : Snapshot.Delivery → α) (g : α → ρ) :
    ((((l.map f).take (limit + 1)).take limit).map g,
      decide (limit < ((l.map f).take (limit + 1)).length)) =
        ((l.take limit).map fun d => g (f d), decide (limit < l.length)) := by
  refine Prod.ext ?_ (decide_eq_decide.mpr ?_)
  · rw [List.take_take, Nat.min_eq_left (Nat.le_succ limit), ← List.map_take, List.map_map]
    rfl
  · rw [List.length_take, List.length_map]
    omega

/-- **The statement of `list`**, after any cursor. -/
theorem list_after {from_ to_ : Option Micros} (hfrom : bound rt filters.fromDate = .ok from_)
    (hto : bound rt filters.toDate = .ok to_) {cursor : Option Cursor}
    {after : Option (Micros ×ₗ String)} (hafter : listAfter rt cursor = .ok after)
    {found : List Snapshot.Delivery} (hfound : found = Snapshot.order.descending
      (σ.deliveries.filter fun d => filters.accepts from_ to_ d ∧ after.all fun p => d.textKey < p)) :
    list rt filters cursor limit σ =
      .ok ((found.take limit).map fun d => d.row (σ.eventOf d), limit < found.length) := by
  have hrows : orderBy Prod.fst (σ.joined.filter fun x =>
      filters.accepts from_ to_ x.1 ∧ after.all fun p => x.1.textKey < p) =
        found.map fun d => (d, σ.eventOf d) := by
    rw [σ.joined_eq, List.filter_map, orderBy_map Prod.fst _ fun _ => rfl, hfound]
    rfl
  unfold list
  rw [hfrom, hto, hafter]
  exact congrArg Except.ok ((congrArg (fun l : List (Snapshot.Delivery × Snapshot.Event) =>
    (((l.take (limit + 1)).take limit).map fun x => x.1.row x.2,
      decide (limit < (l.take (limit + 1)).length))) hrows).trans (page_eq _ _ _))

theorem of_list {cursor : Option Cursor} {rows : List DeliveryListRow} {more : Bool}
    (h : list rt filters cursor limit σ = .ok (rows, more)) :
    ∃ from_ to_ after, bound rt filters.fromDate = .ok from_ ∧ bound rt filters.toDate = .ok to_ ∧
      listAfter rt cursor = .ok after ∧ rows = ((Snapshot.order.descending (σ.deliveries.filter
        fun d => filters.accepts from_ to_ d ∧ after.all fun p => d.textKey < p)).take limit).map
          fun d => d.row (σ.eventOf d) := by
  obtain ⟨from_, hfrom, hrest⟩ := ok_of_bind h
  obtain ⟨to_, hto, hrest⟩ := ok_of_bind hrest
  obtain ⟨after, hafter, -⟩ := ok_of_bind hrest
  rw [list_after hfrom hto hafter rfl] at h
  exact ⟨from_, to_, after, hfrom, hto, hafter, (Prod.mk.inj (Except.ok.inj h)).1.symm⟩

theorem list_eq {from_ to_ : Option Micros} (hfrom : bound rt filters.fromDate = .ok from_)
    (hto : bound rt filters.toDate = .ok to_) {cursor : Option Cursor}
    {after : Option (Micros ×ₗ String)} {place : Option (Micros ×ₗ Uuid)}
    (hafter : listAfter rt cursor = .ok after)
    (hplace : ∀ d : Snapshot.Delivery, (after.all fun p => d.textKey < p) =
      place.all fun p => d.key < p) :
    list rt filters cursor limit σ =
      .ok (((Snapshot.order.below place (matching rt filters σ)).take limit).map
          fun d => d.row (σ.eventOf d),
        limit < (Snapshot.order.below place (matching rt filters σ)).length) := by
  refine list_after hfrom hto hafter ?_
  rw [Keyset.below, matching, hfrom, hto, List.filter_filter]
  refine congrArg Snapshot.order.descending (List.filter_congr fun d _ => ?_)
  rw [hplace d, all_key_lt, Bool.decide_and, Bool.decide_eq_true, Bool.decide_eq_true, Bool.and_comm]

theorem nextCursor_eq {l : List Snapshot.Delivery} {row : Snapshot.Delivery → DeliveryListRow}
    (hid : ∀ d, (row d).id = d.id) (hat : ∀ d, (row d).updatedAt = d.updatedAt.toDate) {n : ℕ} :
    nextCursor rt (l.map row).getLast? (decide (limit < n)) =
      if limit < n then l.getLast?.map (cursorAfter rt) else none := by
  rw [nextCursor, List.getLast?_map, Option.map_map]
  simp only [decide_eq_true_eq, Function.comp_def, hid, hat]
  rfl

/-- **A page of `GET /v1/deliveries`.** -/
theorem serves_deliveries {from_ to_ : Option Micros}
    (hfrom : bound rt filters.fromDate = .ok from_) (hto : bound rt filters.toDate = .ok to_) :
    Snapshot.order.Serves (getDeliveries rt filters limit) (matching rt filters)
      (fun σ d => d.row (σ.eventOf d)) (cursorAfter rt) limit where
  first σ := by
    rw [getDeliveries, cursorParam]
    change (do let x ← list rt filters none limit σ; _) = _
    have hnone : ∀ d : Snapshot.Delivery, ((none : Option (Micros ×ₗ String)).all fun p =>
      d.textKey < p) = (none : Option (Micros ×ₗ Uuid)).all fun p => d.key < p := fun _ => rfl
    rw [list_eq hfrom hto rfl hnone]
    exact congrArg Except.ok (Prod.ext rfl (nextCursor_eq (fun _ => rfl) fun _ => rfl))
  next σ' a ha σ := by
    have hplain := σ'.plain a (matching_sublist.subset ha)
    have hafter : listAfter rt (some ⟨rt.toISOString a.updatedAt.toDate, a.id.text⟩) =
        .ok (some (toLex (a.updatedAt.toDate.toMicros, a.id.text))) := by
      rw [listAfter, rt.timestamptz_iso _ hplain, textParam_text]
      rfl
    rw [getDeliveries, cursorParam_after hplain]
    change (do let x ← list rt filters _ limit σ; _) = _
    have hplace : ∀ d : Snapshot.Delivery, ((some (toLex (a.updatedAt.toDate.toMicros,
      a.id.text))).all fun p => d.textKey < p) = (some a.place).all fun p => d.key < p :=
      fun d => decide_eq_decide.mpr (textKey_lt d a)
    rw [list_eq hfrom hto hafter hplace]
    exact congrArg Except.ok (Prod.ext rfl (nextCursor_eq (fun _ => rfl) fun _ => rfl))

theorem flatMap_ite {α β : Type} (p : α → Bool) (f : α → β) (l : List α) :
    (l.flatMap fun d => if p d then [f d] else []) = (l.filter p).map f := by
  induction l with
  | nil => rfl
  | cons a l ih =>
    rw [List.flatMap_cons, List.filter_cons, ih]
    split <;> rfl

/-- **The statement of `listDlq`.** -/
theorem listDlq_eq {cursor : Option (JsDate × String)} {place : Option (Micros ×ₗ Uuid)}
    (hafter : dlqAfter rt cursor = .ok place) :
    listDlq rt cursor limit σ =
      .ok (((Snapshot.order.below place (inDlq σ)).take limit).map
          fun d => ⟨d.row (σ.eventOf d), (σ.enteredBy d).createdAt.toDate⟩,
        limit < (Snapshot.order.below place (inDlq σ)).length) := by
  have hrows : orderBy Prod.fst ((σ.joined.flatMap fun x =>
      (σ.lastDlq x.1.id).toList.map fun tr => (x.1, x.2, tr)).filter fun x =>
        x.1.status = .dlq ∧ place.all fun p => x.1.key < p) =
          (Snapshot.order.below place (inDlq σ)).map fun d => (d, σ.eventOf d, σ.enteredBy d) := by
    rw [σ.joined_eq, List.flatMap_map, List.filter_flatMap, Keyset.below, inDlq, List.filter_filter,
      ← orderBy_map Prod.fst _ fun _ => rfl, ← flatMap_ite]
    refine congrArg (orderBy Prod.fst) (List.flatMap_congr fun d hd => ?_)
    by_cases hs : d.status = .dlq
    · obtain ⟨tr, htr⟩ := Option.isSome_iff_exists.mp (σ.lastDlq_isSome hd hs)
      simp [Snapshot.enteredBy, all_key_lt, htr, hs, List.filter_cons]
    · cases σ.lastDlq d.id <;> simp [hs]
  unfold listDlq
  rw [hafter]
  exact congrArg Except.ok ((congrArg
    (fun l : List (Snapshot.Delivery × Snapshot.Event × Snapshot.Transition) =>
      (((l.take (limit + 1)).take limit).map fun x =>
        (⟨x.1.row x.2.1, x.2.2.createdAt.toDate⟩ : DlqRow),
        decide (limit < (l.take (limit + 1)).length))) hrows).trans (page_eq _ _ _))

theorem getDlq_eq {cursor : Option String} {c : Option Cursor} {c' : Option (JsDate × String)}
    {rows : List DlqRow} {more : Bool} (hc : cursorParam rt cursor = .ok c)
    (hc' : dlqCursor rt c = .ok c') (hrows : listDlq rt c' limit σ = .ok (rows, more)) :
    getDlq rt limit cursor σ =
      .ok (rows, nextCursor rt (rows.getLast?.map (·.toDeliveryListRow)) more) := by
  rw [getDlq, hc]
  change (dlqCursor rt c >>= _) = _
  rw [hc']
  change (listDlq rt c' limit σ >>= _) = _
  rw [hrows]
  rfl

/-- **A page of `GET /v1/dlq`.** -/
theorem serves_dlq : Snapshot.order.Serves (getDlq rt limit) inDlq
    (fun σ d => ⟨d.row (σ.eventOf d), (σ.enteredBy d).createdAt.toDate⟩) (cursorAfter rt) limit where
  first σ := by
    have hnone : dlqAfter rt none = .ok none := rfl
    rw [getDlq_eq rfl rfl (listDlq_eq hnone), ← List.getLast?_map, List.map_map]
    exact congrArg Except.ok (Prod.ext rfl (nextCursor_eq (fun _ => rfl) fun _ => rfl))
  next σ' a ha σ := by
    have hplain := σ'.plain a (inDlq_sublist.subset ha)
    have hcursor : dlqCursor rt (some ⟨rt.toISOString a.updatedAt.toDate, a.id.text⟩) =
        .ok (some (a.updatedAt.toDate, a.id.text)) := by
      rw [dlqCursor, rt.newDate_iso _ hplain]
      rfl
    have hafter : dlqAfter rt (some (a.updatedAt.toDate, a.id.text)) = .ok (some a.place) := by
      rw [dlqAfter, rt.dateTimestamptz_plain _ hplain, rt.uuid_text]
      rfl
    rw [getDlq_eq (cursorParam_after hplain) hcursor (listDlq_eq hafter), ← List.getLast?_map,
      List.map_map]
    exact congrArg Except.ok (Prod.ext rfl (nextCursor_eq (fun _ => rfl) fun _ => rfl))

end WebhookEngine
