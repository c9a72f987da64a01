import WebhookEngine.Proof.Filters

set_option autoImplicit false

/-!
# Bad input to the listings

The schemas and `decodeCursor` take any text for a date and for the two fields of a cursor.

* `Handled`: an answer is 200 or an AppError with status 400.
* `Dates`, `Comparable`, `DlqComparable`: what the statements can read.
* **`bad_input_iff`**: a listing is handled if and only if what was admitted can be read.
* **`bad_input_unhandled`**: a date that is none.
-/

namespace WebhookEngine

variable {rt : QueryRuntime} {q : ListQuery} {σ : Snapshot} {α β : Type}

/-! ## Answers -/

/-- 200, or an AppError with status 400. -/
def Handled (x : Except Err α) : Prop := (∃ a, x = .ok a) ∨ ∃ code, x = .error (.app 400 code)

/-- Only what the handler does not expect is thrown. -/
def Unexpected (x : Except Err α) : Prop := ∀ err, x = .error err → err = .infra

theorem handled_ok (a : α) : Handled (.ok a : Except Err α) := Or.inl ⟨a, rfl⟩

theorem handled_invalid (code : String) : Handled (.error (.app 400 code) : Except Err α) :=
  Or.inr ⟨code, rfl⟩

theorem handled_bind {x : Except Err α} {f : α → Except Err β} :
    Handled (x >>= f) ↔ Handled x ∧ ∀ a, x = .ok a → Handled (f a) := by
  cases x with
  | error err =>
    refine ⟨fun h => ⟨?_, fun a ha => by cases ha⟩, fun h => ?_⟩
    · rcases h with ⟨b, hb⟩ | ⟨code, hcode⟩
      · cases hb
      · cases hcode
        exact handled_invalid code
    · rcases h.1 with ⟨a, ha⟩ | ⟨code, hcode⟩
      · cases ha
      · cases hcode
        exact handled_invalid code
  | ok a =>
    refine ⟨fun h => ⟨handled_ok a, fun a' ha' => ?_⟩, fun h => h.2 a rfl⟩
    cases ha'
    exact h

theorem Unexpected.handled_iff {x : Except Err α} (h : Unexpected x) :
    Handled x ↔ ∃ a, x = .ok a := by
  refine ⟨fun hx => hx.resolve_right ?_, Or.inl⟩
  rintro ⟨code, hcode⟩
  cases h _ hcode

theorem unexpected_ok (a : α) : Unexpected (.ok a : Except Err α) := fun err h => by cases h

theorem unexpected_cast (o : Option α) : Unexpected (cast o) := by
  intro err h
  cases o <;> cases h
  rfl

theorem Unexpected.bind {x : Except Err α} {f : α → Except Err β} (hx : Unexpected x)
    (hf : ∀ a, Unexpected (f a)) : Unexpected (x >>= f) := by
  intro err h
  cases x with
  | error err' =>
    cases h
    exact hx err rfl
  | ok a => exact hf a err h

theorem unexpected_castOption (f : α → Option β) (o : Option α) : Unexpected (castOption f o) := by
  cases o with
  | none => exact unexpected_ok _
  | some a => exact (unexpected_cast _).bind fun _ => unexpected_ok _

/-! ## What is admitted -/

theorem handled_optionalString (values : List String) : Handled (optionalString values) := by
  unfold optionalString
  split
  · exact handled_ok _
  · exact handled_ok _
  · exact handled_invalid _

theorem handled_optionalUuid (values : List String) : Handled (optionalUuid values) := by
  refine handled_bind.mpr ⟨handled_optionalString values, fun v _ => ?_⟩
  split
  · exact handled_ok _
  · exact handled_invalid _

theorem handled_listQuerySchema (q : ListQuery) : Handled (listQuerySchema rt q) :=
  handled_bind.mpr ⟨handled_optionalString _, fun _ _ =>
    handled_bind.mpr ⟨handled_optionalUuid _, fun _ _ =>
      handled_bind.mpr ⟨handled_optionalString _, fun _ _ =>
        handled_bind.mpr ⟨handled_optionalString _, fun _ _ =>
          handled_bind.mpr ⟨handled_optionalString _, fun _ _ => handled_ok _⟩⟩⟩⟩⟩

theorem handled_dlqQuerySchema (q : ListQuery) : Handled (dlqQuerySchema rt q) := by
  refine handled_bind.mpr ⟨handled_optionalString _, fun v _ => ?_⟩
  split
  · exact handled_invalid _
  · exact handled_ok _

theorem handled_cursorParam (rt : Runtime) (v : Option String) : Handled (cursorParam rt v) := by
  have hdecode : ∀ s, Handled (decodeCursor rt s) := fun s => by
    unfold decodeCursor
    split
    · exact handled_ok _
    · exact handled_invalid _
    · exact handled_invalid _
  unfold cursorParam
  split
  · exact handled_ok _
  · split
    · exact handled_ok _
    · exact handled_bind.mpr ⟨hdecode _, fun _ _ => handled_ok _⟩

variable (rt q) in
/-- The schema and `decodeCursor` accept the query string. -/
def Admitted : Prop :=
  ∃ params c, listQuerySchema rt q = .ok params ∧ cursorParam rt.toRuntime params.cursor = .ok c

variable (rt q) in
/-- The bounds are dates, and timestamps for Postgres. -/
def Dates : Prop :=
  ∀ v ∈ q.from_ ++ q.to_, v ≠ "" →
    ∃ d, rt.newDate v = some d ∧ (rt.timestamptz (rt.toISOString d)).isSome

variable (rt q) in
/-- The decoded cursor is a timestamp and a text for Postgres. -/
def Comparable : Prop :=
  ∀ v ∈ q.cursor, v ≠ "" → ∀ c, decodeCursor rt.toRuntime v = .ok c →
    (rt.timestamptz c.updatedAt).isSome ∧ '\x00' ∉ c.id.toList

variable (rt q) in
/-- The decoded cursor is a date, a timestamp for Postgres, and a uuid. -/
def DlqComparable : Prop :=
  ∀ v ∈ q.cursor, v ≠ "" → ∀ c, decodeCursor rt.toRuntime v = .ok c →
    ∃ d, rt.newDate c.updatedAt = some d ∧ (rt.dateTimestamptz d).isSome ∧ (rt.uuid c.id).isSome

/-! ## What is sent -/

theorem cast_eq_ok {o : Option α} : (∃ a, cast o = .ok a) ↔ o.isSome := by
  cases o <;> simp [cast]

theorem bind_eq_ok {x : Except Err α} {f : α → Except Err β} :
    (∃ b, x >>= f = .ok b) ↔ ∃ a, x = .ok a ∧ ∃ b, f a = .ok b := by
  refine ⟨fun h => ?_, fun h => ?_⟩
  · obtain ⟨b, hb⟩ := h
    obtain ⟨a, ha, hf⟩ := ok_of_bind hb
    exact ⟨a, ha, b, hf⟩
  · obtain ⟨a, rfl, hf⟩ := h
    exact hf

theorem castOption_eq_ok {f : α → Option β} {o : Option α} :
    (∃ o', castOption f o = .ok o') ↔ ∀ a ∈ o, (f a).isSome := by
  cases o with
  | none => exact ⟨fun _ a ha => (by cases ha), fun _ => ⟨none, rfl⟩⟩
  | some a =>
    rw [castOption, bind_eq_ok]
    refine ⟨fun h a' ha' => ?_, fun h => ?_⟩
    · obtain ⟨b, hb, -⟩ := h
      cases ha'
      exact cast_eq_ok.mp ⟨b, hb⟩
    · obtain ⟨b, hb⟩ := cast_eq_ok.mpr (h a rfl)
      exact ⟨b, hb, some b, rfl⟩

theorem dates_ok_iff {v : Option String} :
    (∃ date τ, castOption id (dateParam rt v) = .ok date ∧ bound rt.toRuntime date = .ok τ) ↔
      ∀ s ∈ v.toList, s ≠ "" →
        ∃ d, rt.newDate s = some d ∧ (rt.timestamptz (rt.toISOString d)).isSome := by
  rcases v with _ | s
  · exact ⟨fun _ s hs => (by cases hs), fun _ => ⟨none, none, rfl, rfl⟩⟩
  · by_cases hs : s = ""
    · rw [hs]
      exact ⟨fun _ s' hs' hne => absurd (List.mem_singleton.mp hs') hne,
        fun _ => ⟨none, none, rfl, rfl⟩⟩
    · have hparam : dateParam rt (some s) = some (rt.newDate s) := by simp [dateParam, hs]
      rw [hparam]
      refine ⟨fun h => ?_, fun h => ?_⟩
      · obtain ⟨date, τ, hdate, hτ⟩ := h
        rw [bound_eq] at hτ
        have hdate := castOption_ok hdate
        have hτ := castOption_eq_ok.mp ⟨τ, hτ⟩
        intro s' hs' _
        rw [List.mem_singleton.mp hs']
        obtain ⟨d, rfl, hd⟩ := Option.map_eq_some_iff.mp hdate.symm
        exact ⟨d, hd.symm, hτ d rfl⟩
      · obtain ⟨d, hd, hts⟩ := h s List.mem_cons_self hs
        obtain ⟨τ, hτ⟩ := Option.isSome_iff_exists.mp hts
        refine ⟨some d, some τ, ?_, ?_⟩
        · rw [hd]
          rfl
        · rw [bound, hτ]
          rfl

theorem textParam_isSome {s : String} : (textParam s).isSome ↔ '\x00' ∉ s.toList := by
  unfold textParam
  split <;> simp_all

theorem decoded_iff {rt : Runtime} {v : Option String} {c : Option Cursor}
    (hc : cursorParam rt v = .ok c) (p : Cursor → Prop) : (∀ x ∈ c, p x) ↔
      ∀ s ∈ v.toList, s ≠ "" → ∀ x, decodeCursor rt s = .ok x → p x := by
  rcases v with _ | s
  · cases hc
    exact ⟨fun _ s hs => (by cases hs), fun _ x hx => (by cases hx)⟩
  · rw [cursorParam] at hc
    split at hc
    · rename_i hs
      cases hc
      exact ⟨fun _ s' hs' hne => absurd ((List.mem_singleton.mp hs').trans hs) hne,
        fun _ x hx => (by cases hx)⟩
    · rename_i hs
      obtain ⟨x, hx, hc⟩ := ok_of_bind hc
      cases hc
      refine ⟨fun h s' hs' _ x' hx' => ?_, fun h x' hx' => ?_⟩
      · rw [List.mem_singleton.mp hs'] at hx'
        cases hx.symm.trans hx'
        exact h x rfl
      · cases hx'
        exact h s List.mem_cons_self hs x hx

theorem listAfter_eq_ok {rt : Runtime} {c : Option Cursor} : (∃ after, listAfter rt c = .ok after) ↔
    ∀ x ∈ c, (rt.timestamptz x.updatedAt).isSome ∧ '\x00' ∉ x.id.toList := by
  cases c with
  | none => exact ⟨fun _ x hx => (by cases hx), fun _ => ⟨none, rfl⟩⟩
  | some x =>
    rw [listAfter, bind_eq_ok]
    refine ⟨fun h x' hx' => ?_, fun h => ?_⟩
    · cases hx'
      obtain ⟨τ, hτ, h⟩ := h
      obtain ⟨id, hid, -⟩ := bind_eq_ok.mp h
      exact ⟨cast_eq_ok.mp ⟨τ, hτ⟩, textParam_isSome.mp (cast_eq_ok.mp ⟨id, hid⟩)⟩
    · obtain ⟨hts, hid⟩ := h x rfl
      obtain ⟨τ, hτ⟩ := cast_eq_ok.mpr hts
      obtain ⟨id, hid⟩ := cast_eq_ok.mpr (textParam_isSome.mpr hid)
      exact ⟨τ, hτ, bind_eq_ok.mpr ⟨id, hid, _, rfl⟩⟩

/-! ## The two routes -/

theorem unexpected_filters {params : ListParams} : Unexpected (params.filters rt) :=
  (unexpected_castOption _ _).bind fun _ => (unexpected_castOption _ _).bind fun _ =>
    (unexpected_castOption _ _).bind fun _ => unexpected_ok _

theorem unexpected_listAfter (rt : Runtime) (c : Option Cursor) : Unexpected (listAfter rt c) := by
  cases c with
  | none => exact unexpected_ok _
  | some x => exact (unexpected_cast _).bind fun _ => (unexpected_cast _).bind fun _ => unexpected_ok _

theorem unexpected_list {rt : Runtime} {filters : DeliveryListFilters} {c : Option Cursor}
    {limit : ℕ} : Unexpected (list rt filters c limit σ) := by
  have hbound : ∀ o, Unexpected (bound rt o) := fun o => by
    rw [bound_eq]
    exact unexpected_castOption _ _
  exact (hbound _).bind fun _ => (hbound _).bind fun _ => (unexpected_listAfter rt c).bind fun _ =>
    unexpected_ok _

/-- After the schema and `decodeCursor` only what the statement cannot read fails. -/
theorem sent_iff {params : ListParams} {c : Option Cursor}
    (hschema : listQuerySchema rt q = .ok params)
    (hc : cursorParam rt.toRuntime params.cursor = .ok c) :
    (∃ filters, params.filters rt = .ok filters ∧
      ∃ x, list rt.toRuntime filters c params.limit σ = .ok x) ↔ Dates rt q ∧ Comparable rt q := by
  obtain ⟨status, endpointId, from_, to_, cursor, -, -, hep, hfrom, hto, hcursor, rfl⟩ :=
    schema_ok hschema
  have hdates : Dates rt q ↔ (∃ date τ, castOption id (dateParam rt from_) = .ok date ∧
      bound rt.toRuntime date = .ok τ) ∧ ∃ date τ, castOption id (dateParam rt to_) = .ok date ∧
        bound rt.toRuntime date = .ok τ := by
    rw [dates_ok_iff, dates_ok_iff, Dates, hfrom, hto]
    simp only [List.mem_append, or_imp, forall_and]
  have hcomparable : Comparable rt q ↔ ∃ after, listAfter rt.toRuntime c = .ok after := by
    rw [listAfter_eq_ok, decoded_iff hc fun x =>
      (rt.timestamptz x.updatedAt).isSome ∧ '\x00' ∉ x.id.toList, Comparable, hcursor]
  rw [hdates, hcomparable]
  constructor
  · rintro ⟨filters, hfilters, ⟨rows, more⟩, hlist⟩
    obtain ⟨u, -, hfilters⟩ := ok_of_bind hfilters
    obtain ⟨fromDate, hfromDate, hfilters⟩ := ok_of_bind hfilters
    obtain ⟨toDate, htoDate, hfilters⟩ := ok_of_bind hfilters
    cases hfilters
    obtain ⟨low, high, after, hlow, hhigh, hafter, -⟩ := of_list hlist
    exact ⟨⟨⟨fromDate, low, hfromDate, hlow⟩, toDate, high, htoDate, hhigh⟩, after, hafter⟩
  · rintro ⟨⟨⟨fromDate, low, hfromDate, hlow⟩, toDate, high, htoDate, hhigh⟩, after, hafter⟩
    obtain ⟨u, hu⟩ := castOption_eq_ok.mpr fun v hv =>
      rt.uuid_isSome v ((Option.all_eq_true _ _).mp hep v hv)
    refine ⟨⟨statusParam rt status, u, fromDate, toDate⟩, ?_, _, list_after hlow hhigh hafter rfl⟩
    rw [ListParams.filters, hu, hfromDate, htoDate]
    rfl

theorem sent_handled_iff {params : ListParams} {c : Option Cursor}
    (hschema : listQuerySchema rt q = .ok params)
    (hc : cursorParam rt.toRuntime params.cursor = .ok c)
    (answer : List DeliveryListRow × Bool → List DeliveryListRow × Option String) :
    Handled (params.filters rt >>= fun filters =>
      list rt.toRuntime filters c params.limit σ >>= fun x => .ok (answer x)) ↔
        Dates rt q ∧ Comparable rt q := by
  rw [← sent_iff (σ := σ) hschema hc]
  refine (Unexpected.handled_iff (unexpected_filters.bind fun _ => unexpected_list.bind fun _ =>
    unexpected_ok _)).trans ?_
  rw [bind_eq_ok]
  refine exists_congr fun filters => and_congr_right fun _ => ?_
  rw [bind_eq_ok]
  exact exists_congr fun x => and_iff_left ⟨_, rfl⟩

theorem deliveries_handled_iff : Handled (deliveriesRoute rt q σ) ↔
    (Admitted rt q → Dates rt q ∧ Comparable rt q) := by
  rw [deliveriesRoute, handled_bind]
  constructor
  · rintro ⟨-, h⟩ ⟨params, c, hschema, hc⟩
    exact (sent_handled_iff hschema hc fun x => (x.1, nextCursor rt.toRuntime x.1.getLast? x.2)).mp
      ((handled_bind.mp (h params hschema)).2 c hc)
  · intro h
    refine ⟨handled_listQuerySchema q, fun params hschema => handled_bind.mpr
      ⟨handled_cursorParam _ _, fun c hc => ?_⟩⟩
    exact (sent_handled_iff hschema hc fun x =>
      (x.1, nextCursor rt.toRuntime x.1.getLast? x.2)).mpr (h ⟨params, c, hschema, hc⟩)

/-- `listDlq` fails on what is no date, no timestamp or no uuid only. -/
theorem dlqAfter_eq_ok {rt : Runtime} {c : Option Cursor} :
    (∃ c', dlqCursor rt c = .ok c' ∧ ∃ place, dlqAfter rt c' = .ok place) ↔
      ∀ x ∈ c, ∃ d, rt.newDate x.updatedAt = some d ∧ (rt.dateTimestamptz d).isSome ∧
        (rt.uuid x.id).isSome := by
  cases c with
  | none => exact ⟨fun _ x hx => (by cases hx), fun _ => ⟨none, rfl, none, rfl⟩⟩
  | some x =>
    constructor
    · rintro ⟨c', hc', place, hplace⟩ x' hx'
      cases hx'
      obtain ⟨d, hd, hc'⟩ := ok_of_bind hc'
      cases hc'
      obtain ⟨τ, hτ, hplace⟩ := ok_of_bind hplace
      obtain ⟨u, hu, -⟩ := ok_of_bind hplace
      exact ⟨d, cast_ok hd, cast_eq_ok.mp ⟨τ, hτ⟩, cast_eq_ok.mp ⟨u, hu⟩⟩
    · intro h
      obtain ⟨d, hd, hτ, hu⟩ := h x rfl
      obtain ⟨τ, hτ⟩ := Option.isSome_iff_exists.mp hτ
      obtain ⟨u, hu⟩ := Option.isSome_iff_exists.mp hu
      refine ⟨some (d, x.id), ?_, some (toLex (τ, u)), ?_⟩
      · rw [dlqCursor, hd]
        rfl
      · rw [dlqAfter, hτ, hu]
        rfl

theorem unexpected_listDlq {rt : Runtime} {c : Option (JsDate × String)} {limit : ℕ} :
    Unexpected (listDlq rt c limit σ) := by
  have hafter : Unexpected (dlqAfter rt c) := by
    cases c with
    | none => exact unexpected_ok _
    | some x => exact (unexpected_cast _).bind fun _ => (unexpected_cast _).bind fun _ => unexpected_ok _
  exact hafter.bind fun _ => unexpected_ok _

theorem unexpected_dlqCursor (rt : Runtime) (c : Option Cursor) : Unexpected (dlqCursor rt c) := by
  cases c with
  | none => exact unexpected_ok _
  | some x => exact (unexpected_cast _).bind fun _ => unexpected_ok _

theorem dlqSchema_ok {v : Option String} {limit : ℕ} (h : dlqQuerySchema rt q = .ok (v, limit)) :
    q.cursor = v.toList := by
  obtain ⟨v', hv', h⟩ := ok_of_bind h
  split at h
  · cases h
  · cases h
    exact optionalString_ok hv'

theorem getDlq_handled_iff {v : Option String} {c : Option Cursor} {limit : ℕ}
    (hv : q.cursor = v.toList) (hc : cursorParam rt.toRuntime v = .ok c) :
    Handled (getDlq rt.toRuntime limit v σ) ↔ DlqComparable rt q := by
  have hcomparable : DlqComparable rt q ↔ ∃ c', dlqCursor rt.toRuntime c = .ok c' ∧
      ∃ place, dlqAfter rt.toRuntime c' = .ok place := by
    rw [dlqAfter_eq_ok, decoded_iff hc fun x => ∃ d, rt.newDate x.updatedAt = some d ∧
      (rt.dateTimestamptz d).isSome ∧ (rt.uuid x.id).isSome, DlqComparable, hv]
  rw [hcomparable, getDlq, hc]
  refine (Unexpected.handled_iff ((unexpected_ok c).bind fun _ => (unexpected_dlqCursor _ _).bind
    fun _ => unexpected_listDlq.bind fun _ => unexpected_ok _)).trans (bind_eq_ok.trans ?_)
  constructor
  · rintro ⟨c₀, hc₀, x, hx⟩
    cases hc₀
    obtain ⟨c', hc', hx⟩ := ok_of_bind hx
    obtain ⟨y, hy, -⟩ := ok_of_bind hx
    obtain ⟨place, hplace, -⟩ := ok_of_bind hy
    exact ⟨c', hc', place, hplace⟩
  · rintro ⟨c', hc', place, hplace⟩
    refine ⟨c, rfl, bind_eq_ok.mpr ⟨c', hc', bind_eq_ok.mpr ⟨_, listDlq_eq hplace, _, rfl⟩⟩⟩

theorem dlq_handled_iff : Handled (dlqRoute rt q σ) ↔
    ((∃ x, dlqQuerySchema rt q = .ok x) → DlqComparable rt q) := by
  rw [dlqRoute, handled_bind]
  constructor
  · rintro ⟨-, h⟩ ⟨⟨v, limit⟩, hschema⟩
    have hv := dlqSchema_ok hschema
    have hget := h (v, limit) hschema
    rcases handled_cursorParam rt.toRuntime v with ⟨c, hc⟩ | ⟨code, hcode⟩
    · exact (getDlq_handled_iff hv hc).mp hget
    · intro s hs hne x hx
      rw [hv, Option.mem_toList] at hs
      rw [Option.mem_def.mp hs, cursorParam, if_neg hne, hx] at hcode
      cases hcode
  · intro h
    refine ⟨handled_dlqQuerySchema q, ?_⟩
    rintro ⟨v, limit⟩ hschema
    have hv := dlqSchema_ok hschema
    rcases handled_cursorParam rt.toRuntime v with ⟨c, hc⟩ | ⟨code, hcode⟩
    · exact (getDlq_handled_iff hv hc).mpr (h ⟨_, hschema⟩)
    · change Handled (getDlq rt.toRuntime limit v σ)
      rw [getDlq, hcode]
      exact handled_invalid code

/-- **When bad input is a client error.** -/
theorem bad_input_iff (rt : QueryRuntime) (q : ListQuery) (σ : Snapshot) :
    (Handled (deliveriesRoute rt q σ) ↔ (Admitted rt q → Dates rt q ∧ Comparable rt q)) ∧
      (Handled (dlqRoute rt q σ) ↔ ((∃ x, dlqQuerySchema rt q = .ok x) → DlqComparable rt q)) :=
  ⟨deliveries_handled_iff, dlq_handled_iff⟩

/-- **A date that is none** is not answered with 400. -/
theorem bad_input_unhandled : ¬ ∀ (rt : QueryRuntime) (q : ListQuery) (σ : Snapshot),
    Handled (deliveriesRoute rt q σ) ∧ Handled (dlqRoute rt q σ) := by
  intro hall
  have hroute : deliveriesRoute sampleQueryRuntime { from_ := ["yesterday"] } sampleSnapshot =
      .error .infra := by decide +kernel
  rcases (hall sampleQueryRuntime { from_ := ["yesterday"] } sampleSnapshot).1 with
    ⟨x, hx⟩ | ⟨code, hcode⟩
  · cases hroute.symm.trans hx
  · cases hroute.symm.trans hcode

end WebhookEngine
