import WebhookEngine.Model.Query
import WebhookEngine.Proof.Walks

set_option autoImplicit false

/-!
# The filters of the deliveries

`listQuerySchema` leaves out the names of `status` that are not valid, and `list` takes no statuses for
no filter.

* `Exact`: the page is what the parameters of the query string ask for.
* `served`: the page that is answered; its bounds are Dates, without the microseconds of the text.
* **`filters_exact_iff`**: the page is exact if and only if one of the names given is valid, or no
  `status` is given, and the deliveries between a bound and its Date are beyond the page; or nothing
  satisfies the other parameters.
* **`filters_inexact`**: a misspelt status lists everything.
-/

namespace WebhookEngine

variable {rt : QueryRuntime} {q : ListQuery} {σ : Snapshot}

/-! ## What the parameters ask for -/

variable (rt q) in
/-- The status is one of the names given. -/
def OfStatus (d : Snapshot.Delivery) : Prop :=
  ∀ v ∈ q.status, v ≠ "" → ∃ name ∈ splitComma v, rt.toUpperCase (trim name) = d.status.text

variable (rt q) in
/-- The delivery satisfies the other parameters, with bounds as `moment` reads them, and comes after the
cursor. -/
structure Within (moment : String → Option ℚ) (d : Snapshot.Delivery) : Prop where
  endpoint : ∀ v ∈ q.endpointId, rt.uuid v = some d.endpointId
  from_ : ∀ v ∈ q.from_, v ≠ "" → ∃ t, moment v = some t ∧ t ≤ d.createdAt
  to_ : ∀ v ∈ q.to_, v ≠ "" → ∃ t, moment v = some t ∧ d.createdAt ≤ t
  after : ∀ v ∈ q.cursor, v ≠ "" → ∃ c τ, decodeCursor rt.toRuntime v = .ok c ∧
    rt.timestamptz c.updatedAt = some τ ∧ d.textKey < toLex (τ, c.id)

variable (rt q) in
/-- `limit` is an integer from 1 to 200. -/
def Limits (n : ℤ) : Prop := ∃ v, q.limit = [v] ∧ rt.number v = some n ∧ 1 ≤ n ∧ n ≤ 200

variable (rt q) in
/-- The number of rows of a page. -/
def PageSize (L : ℕ) : Prop :=
  (∀ n, Limits rt q n → (L : ℤ) = n) ∧ ((∀ n, ¬ Limits rt q n) → L = 50)

variable (rt q σ) in
/-- **The first rows, in descending order, of the deliveries that satisfy every parameter.** -/
def Exact (rows : List DeliveryListRow) : Prop :=
  ∃ (L : ℕ) (found : List Snapshot.Delivery), PageSize rt q L ∧
    (∀ d, d ∈ found ↔ d ∈ σ.deliveries ∧ OfStatus rt q d ∧ Within rt q rt.instant d) ∧
    found.Pairwise (fun a b => b.key < a.key) ∧
    List.Forall₂ (fun d r => ∃ ev ∈ σ.events, ev.id = d.eventId ∧ r = d.row ev) (found.take L) rows

/-! ## What the schema makes of them -/

theorem optionalString_ok {values : List String} {v : Option String}
    (h : optionalString values = .ok v) : values = v.toList := by
  unfold optionalString at h
  split at h <;> cases h <;> rfl

theorem optionalUuid_ok {values : List String} {v : Option String}
    (h : optionalUuid values = .ok v) : values = v.toList ∧ v.all isUuid = true := by
  obtain ⟨v', hv', h⟩ := ok_of_bind h
  split at h <;> cases h
  exact ⟨optionalString_ok hv', by assumption⟩

/-- What the schema accepts: every parameter at most once. -/
theorem schema_ok {params : ListParams} (h : listQuerySchema rt q = .ok params) :
    ∃ status endpointId from_ to_ cursor : Option String, q.status = status.toList ∧
      q.endpointId = endpointId.toList ∧ endpointId.all isUuid = true ∧ q.from_ = from_.toList ∧
      q.to_ = to_.toList ∧ q.cursor = cursor.toList ∧
      params = ⟨statusParam rt status, endpointId, dateParam rt from_, dateParam rt to_,
        (limitParam rt q.limit).getD 50, cursor⟩ := by
  obtain ⟨status, hstatus, h⟩ := ok_of_bind h
  obtain ⟨endpointId, hendpoint, h⟩ := ok_of_bind h
  obtain ⟨from_, hfrom, h⟩ := ok_of_bind h
  obtain ⟨to_, hto, h⟩ := ok_of_bind h
  obtain ⟨cursor, hcursor, h⟩ := ok_of_bind h
  cases h
  exact ⟨status, endpointId, from_, to_, cursor, optionalString_ok hstatus,
    (optionalUuid_ok hendpoint).1, (optionalUuid_ok hendpoint).2, optionalString_ok hfrom,
    optionalString_ok hto, optionalString_ok hcursor, rfl⟩

theorem cast_ok {α : Type} {o : Option α} {a : α} (h : cast o = .ok a) : o = some a := by
  cases o <;> cases h
  rfl

theorem castOption_ok {α β : Type} {f : α → Option β} {o : Option α} {o' : Option β}
    (h : castOption f o = .ok o') : o.map f = o'.map some := by
  cases o with
  | none =>
    cases h
    rfl
  | some a =>
    obtain ⟨b, hb, h⟩ := ok_of_bind h
    cases h
    exact congrArg some (cast_ok hb)

theorem bound_eq (rt : Runtime) (o : Option JsDate) :
    bound rt o = castOption (fun d => rt.timestamptz (rt.toISOString d)) o := by
  cases o <;> rfl

/-- The moment of the Date of a text. -/
def QueryRuntime.dated (rt : QueryRuntime) (v : String) : Option ℚ :=
  (rt.newDate v).map fun d => (d.toMicros : ℚ)

theorem bound_iff {v : Option String} {date : Option JsDate} {τ : Option Micros}
    (hdate : castOption id (dateParam rt v) = .ok date) (hτ : bound rt.toRuntime date = .ok τ)
    (p : ℚ → Prop) [DecidablePred p] : (τ.all fun t : ℤ => p t) = true ↔
      ∀ s ∈ v.toList, s ≠ "" → ∃ t, rt.dated s = some t ∧ p t := by
  rw [bound_eq] at hτ
  have hdate := castOption_ok hdate
  have hτ := castOption_ok hτ
  unfold dateParam at hdate
  cases v with
  | none =>
    cases date <;> cases hdate
    cases τ <;> cases hτ
    simp
  | some s =>
    by_cases hs : s = ""
    · rw [hs] at hdate
      cases date <;> cases hdate
      cases τ <;> cases hτ
      simp [hs]
    · rw [Option.filter_some, if_pos (by simpa using hs)] at hdate
      obtain ⟨b, hb, hnew⟩ := Option.map_eq_some_iff.mp hdate.symm
      subst hb
      obtain ⟨t, ht, hread⟩ := Option.map_eq_some_iff.mp hτ.symm
      subst ht
      have hnew : rt.newDate s = some b := hnew.symm
      have ht : t = b.toMicros := rt.timestamptz_of_iso b t hread.symm
      simp [hs, hnew, ht, QueryRuntime.dated]

theorem after_iff {v : Option String} {c : Option Cursor} {after : Option (Micros ×ₗ String)}
    (hc : cursorParam rt.toRuntime v = .ok c) (hafter : listAfter rt.toRuntime c = .ok after)
    (d : Snapshot.Delivery) : (after.all fun p => d.textKey < p) = true ↔
      ∀ s ∈ v.toList, s ≠ "" → ∃ c τ, decodeCursor rt.toRuntime s = .ok c ∧
        rt.timestamptz c.updatedAt = some τ ∧ d.textKey < toLex (τ, c.id) := by
  cases v with
  | none =>
    cases hc
    cases hafter
    simp
  | some s =>
    rw [cursorParam] at hc
    split at hc
    · rename_i hs
      cases hc
      cases hafter
      simp [hs]
    · rename_i hs
      obtain ⟨c', hdecode, h⟩ := ok_of_bind hc
      cases h
      obtain ⟨τ, hτ, h⟩ := ok_of_bind hafter
      obtain ⟨id, hid, h⟩ := ok_of_bind h
      cases h
      have hτ := cast_ok hτ
      have hid : id = c'.id := by
        have hid := cast_ok hid
        unfold textParam at hid
        split at hid
        · cases hid
        · exact (Option.some_inj.mp hid).symm
      simp [hs, hdecode, hτ, hid]

theorem limitParam_many (v w : String) (l : List String) : limitParam rt (v :: w :: l) = none := by
  have hmem : ',' ∈ (",".intercalate (v :: w :: l)).toList := by simp [String.toList_intercalate]
  rw [limitParam, if_neg (by simp), rt.number_comma _ hmem]
  rfl

theorem limitParam_one (v : String) : limitParam rt [v] =
    (rt.number v).bind fun n => if 1 ≤ n ∧ n ≤ 200 then some n.toNat else none := by
  rw [limitParam, if_neg (by simp)]
  simp

theorem pageSize_limitParam :
    PageSize rt q ((limitParam rt q.limit).getD 50) ∧ 1 ≤ (limitParam rt q.limit).getD 50 := by
  unfold PageSize Limits
  rcases hlimit : q.limit with _ | ⟨v, _ | ⟨w, l⟩⟩
  · simp [limitParam]
  · rw [limitParam_one]
    rcases hn : rt.number v with _ | n
    · simp [hn]
    · rw [Option.bind_some]
      have hone : ∀ m, (∃ v', [v] = [v'] ∧ rt.number v' = some m ∧ 1 ≤ m ∧ m ≤ 200) →
          m = n ∧ 1 ≤ n ∧ n ≤ 200 := by
        rintro m ⟨v', hv, hm, hin⟩
        cases hv
        cases hn.symm.trans hm
        exact ⟨rfl, hin⟩
      by_cases hin : 1 ≤ n ∧ n ≤ 200
      · rw [if_pos hin, Option.getD_some]
        refine ⟨⟨fun m hm => ?_, fun h => absurd ⟨v, rfl, hn, hin⟩ (h n)⟩, by omega⟩
        rw [(hone m hm).1]
        omega
      · rw [if_neg hin, Option.getD_none]
        exact ⟨⟨fun m hm => absurd (hone m hm).2 hin, fun _ => rfl⟩, by omega⟩
  · simp [limitParam_many]

theorem PageSize.unique {L L' : ℕ} (h : PageSize rt q L) (h' : PageSize rt q L') : L = L' := by
  by_cases hn : ∃ n, Limits rt q n
  · obtain ⟨n, hn⟩ := hn
    exact Int.ofNat_inj.mp ((h.1 n hn).trans (h'.1 n hn).symm)
  · have hn := not_exists.mp hn
    exact (h.2 hn).trans (h'.2 hn).symm

theorem text_injective : Function.Injective Status.text := by
  intro a b h
  cases a <;> cases b <;> first | rfl | exact absurd h (by decide)

theorem validStatus_eq_some {name : String} {st : Status} :
    validStatus rt name = some st ↔ rt.toUpperCase (trim name) = st.text := by
  have hall : ∀ st : Status, st ∈ [Status.pending, .delivering, .delivered, .failed, .dlq] := by
    intro st
    cases st <;> decide
  refine ⟨fun h => ?_, fun h => ?_⟩
  · have hfound := List.find?_some h
    exact (of_decide_eq_true hfound).symm
  · obtain ⟨st', hst'⟩ := Option.isSome_iff_exists.mp
      ((List.find?_isSome (p := fun st : Status => st.text = rt.toUpperCase (trim name))).mpr
        ⟨st, hall st, decide_eq_true h.symm⟩)
    have hfound := List.find?_some hst'
    have heq : st' = st := text_injective ((of_decide_eq_true hfound).trans h)
    rw [← heq]
    exact hst'

theorem mem_statusParam {v : Option String} {st : Status} :
    st ∈ statusParam rt v ↔ ∃ s ∈ v.toList, s ≠ "" ∧
      ∃ name ∈ splitComma s, rt.toUpperCase (trim name) = st.text := by
  cases v with
  | none => simp [statusParam]
  | some s =>
    by_cases hs : s = ""
    · simp [statusParam, hs]
    · simp [statusParam, hs, List.mem_filterMap, validStatus_eq_some]

/-! ## The page that is answered -/

namespace Snapshot

theorem eventOf_mem {d : Delivery} (hd : d ∈ σ.deliveries) :
    σ.eventOf d ∈ σ.events ∧ (σ.eventOf d).id = d.eventId := by
  obtain ⟨ev, hev, hid⟩ := σ.eventRef d hd
  rw [eventOf, ← hid, Table.find?_eq_of_mem Event.id σ.eventIds hev]
  exact ⟨hev, rfl⟩

end Snapshot

/-- **A page of `GET /v1/deliveries`**: no statuses are no filter. -/
theorem served {rows : List DeliveryListRow} {next : Option String}
    (h : deliveriesRoute rt q σ = .ok (rows, next)) :
    ∃ (v : Option String) (found : List Snapshot.Delivery), q.status = v.toList ∧
      (∀ d, d ∈ found ↔ d ∈ σ.deliveries ∧
        (statusParam rt v = [] ∨ d.status ∈ statusParam rt v) ∧ Within rt q rt.dated d) ∧
      found.Pairwise (fun a b => b.key < a.key) ∧
      rows = (found.take ((limitParam rt q.limit).getD 50)).map fun d => d.row (σ.eventOf d) := by
  obtain ⟨params, hschema, h⟩ := ok_of_bind h
  obtain ⟨cursor, hcursor, h⟩ := ok_of_bind h
  obtain ⟨filters, hfilters, h⟩ := ok_of_bind h
  obtain ⟨⟨rows', more⟩, hlist, h⟩ := ok_of_bind h
  cases h
  obtain ⟨status, endpointId, from_, to_, text, hstatus, hendpoint, -, hfrom, hto, htext, rfl⟩ :=
    schema_ok hschema
  obtain ⟨u, hu, hfilters⟩ := ok_of_bind hfilters
  obtain ⟨fromDate, hfromDate, hfilters⟩ := ok_of_bind hfilters
  obtain ⟨toDate, htoDate, hfilters⟩ := ok_of_bind hfilters
  cases hfilters
  obtain ⟨low, high, after, hlow, hhigh, hafter, rfl⟩ := of_list hlist
  refine ⟨status, _, hstatus, fun d => ?_,
    Snapshot.order.pairwise_descending_lt (σ.ids.sublist (List.filter_sublist.map _)), rfl⟩
  rw [Keyset.descending, List.mem_insertionSort, List.mem_filter]
  refine and_congr_right fun _ => ?_
  have hu := castOption_ok hu
  have hep : (u.all fun ep => d.endpointId = ep) = true ↔
      ∀ s ∈ q.endpointId, rt.uuid s = some d.endpointId := by
    rw [hendpoint]
    cases endpointId with
    | none =>
      cases u <;> cases hu
      simp
    | some s =>
      obtain ⟨ep, rfl, hread⟩ := Option.map_eq_some_iff.mp hu.symm
      change some ep = rt.uuid s at hread
      simp [← hread, eq_comm]
  have hwithin : Within rt q rt.dated d ↔ (u.all fun ep => d.endpointId = ep) = true ∧
      (low.all fun τ => τ ≤ d.createdAt) = true ∧ (high.all fun τ => d.createdAt ≤ τ) = true ∧
        (after.all fun p => d.textKey < p) = true := by
    have hlow := bound_iff hfromDate hlow (· ≤ (d.createdAt : ℚ))
    have hhigh := bound_iff htoDate hhigh ((d.createdAt : ℚ) ≤ ·)
    simp only [Int.cast_le] at hlow hhigh
    rw [hep, hlow, hhigh, after_iff hcursor hafter, ← hfrom, ← hto, ← htext]
    exact ⟨fun h => ⟨h.endpoint, h.from_, h.to_, h.after⟩, fun h => ⟨h.1, h.2.1, h.2.2.1, h.2.2.2⟩⟩
  rw [hwithin, DeliveryListFilters.accepts]
  simp [and_assoc]

/-! ## When the page is exact -/

variable (rt q) in
/-- One of the names given in a `status` that is not empty is that of a status. -/
def NamesStatus : Prop :=
  ∀ v ∈ q.status, v ≠ "" → ∃ name ∈ splitComma v, ∃ st : Status, rt.toUpperCase (trim name) = st.text

theorem ofStatus_iff {v : Option String} (hv : q.status = v.toList) (hn : NamesStatus rt q)
    (d : Snapshot.Delivery) :
    statusParam rt v = [] ∨ d.status ∈ statusParam rt v ↔ OfStatus rt q d := by
  unfold OfStatus
  unfold NamesStatus at hn
  rw [mem_statusParam]
  rw [hv] at hn ⊢
  cases v with
  | none => simp [statusParam]
  | some s =>
    by_cases hs : s = ""
    · simp [statusParam, hs]
    · obtain ⟨name, hname, st, hst⟩ := hn s (by simp) hs
      have hne : statusParam rt (some s) ≠ [] :=
        List.ne_nil_of_mem (mem_statusParam.mpr ⟨s, by simp, hs, name, hname, hst⟩)
      simp [hne, hs]

theorem exists_of_not_namesStatus (h : ¬ NamesStatus rt q) : ∃ s ∈ q.status, s ≠ "" ∧
    ∀ name ∈ splitComma s, ∀ st : Status, rt.toUpperCase (trim name) ≠ st.text := by
  unfold NamesStatus at h
  push Not at h
  exact h

theorem not_ofStatus (h : ¬ NamesStatus rt q) (d : Snapshot.Delivery) : ¬ OfStatus rt q d := by
  obtain ⟨s, hs, hne, hnone⟩ := exists_of_not_namesStatus h
  intro hd
  obtain ⟨name, hname, hst⟩ := hd s hs hne
  exact hnone name hname d.status hst

theorem statusParam_eq_nil {v : Option String} (hv : q.status = v.toList) (h : ¬ NamesStatus rt q) :
    statusParam rt v = [] := by
  obtain ⟨s, hs, hne, hnone⟩ := exists_of_not_namesStatus h
  refine List.eq_nil_iff_forall_not_mem.mpr fun st hst => ?_
  obtain ⟨s', hs', -, name, hname, hst⟩ := mem_statusParam.mp hst
  rw [hv, Option.mem_toList] at hs
  obtain rfl := Option.some_inj.mp (hs.symm.trans (Option.mem_toList.mp hs'))
  exact hnone name hname st hst

/-- A Date is its moment without what is below a millisecond. -/
theorem dated_of_instant {v : String} {t : ℚ} (h : rt.instant v = some t) :
    ∃ t', rt.dated v = some t' ∧ t' ≤ t := by
  refine ⟨_, by rw [QueryRuntime.dated, rt.newDate_eq, h]; rfl, ?_⟩
  have hfloor := Int.floor_le (t / 1000)
  change ((⌊t / 1000⌋ * 1000 : ℤ) : ℚ) ≤ t
  push_cast
  linarith

theorem instant_of_dated {v : String} {t' : ℚ} (h : rt.dated v = some t') :
    ∃ t, rt.instant v = some t ∧ t' ≤ t := by
  have hdate := h
  rw [QueryRuntime.dated, rt.newDate_eq] at hdate
  cases ht : rt.instant v with
  | none => rw [ht] at hdate; cases hdate
  | some t =>
    obtain ⟨t'', hdated, hle⟩ := dated_of_instant ht
    rw [h] at hdated
    exact ⟨t, rfl, Option.some_inj.mp hdated ▸ hle⟩

variable (rt q) in
/-- The delivery lies between a bound and its Date: from the Date of `from` to before the moment given,
or from after the Date of `to` to the moment given. -/
def Misdated (d : Snapshot.Delivery) : Prop :=
  (Within rt q rt.dated d ∧
    ∃ v ∈ q.from_, v ≠ "" ∧ ∃ t, rt.instant v = some t ∧ (d.createdAt : ℚ) < t) ∨
  (Within rt q rt.instant d ∧
    ∃ v ∈ q.to_, v ≠ "" ∧ ∃ t, rt.dated v = some t ∧ t < (d.createdAt : ℚ))

theorem misdated_iff {d : Snapshot.Delivery} :
    Misdated rt q d ↔ ¬ (Within rt q rt.instant d ↔ Within rt q rt.dated d) := by
  constructor
  · rintro (⟨hd, v, hv, hne, t, ht, hlt⟩ | ⟨hd, v, hv, hne, t, ht, hlt⟩) hiff
    · obtain ⟨t', ht', hle⟩ := (hiff.mpr hd).from_ v hv hne
      rw [ht] at ht'
      cases ht'
      exact absurd hle (not_le.mpr hlt)
    · obtain ⟨t', ht', hle⟩ := (hiff.mp hd).to_ v hv hne
      rw [ht] at ht'
      cases ht'
      exact absurd hle (not_le.mpr hlt)
  · intro hnot
    by_cases hd : Within rt q rt.dated d
    · have hin : ¬ Within rt q rt.instant d := fun hin => hnot (iff_of_true hin hd)
      refine .inl ⟨hd, ?_⟩
      by_contra hfrom
      refine hin ⟨hd.endpoint, fun v hv hne => ?_, fun v hv hne => ?_, hd.after⟩
      · obtain ⟨t', ht', -⟩ := hd.from_ v hv hne
        obtain ⟨t, ht, -⟩ := instant_of_dated ht'
        exact ⟨t, ht, not_lt.mp fun hlt => hfrom ⟨v, hv, hne, t, ht, hlt⟩⟩
      · obtain ⟨t', ht', hle⟩ := hd.to_ v hv hne
        obtain ⟨t, ht, hle'⟩ := instant_of_dated ht'
        exact ⟨t, ht, hle.trans hle'⟩
    · have hin : Within rt q rt.instant d := by
        by_contra hin
        exact hnot (iff_of_false hin hd)
      refine .inr ⟨hin, ?_⟩
      by_contra hto
      refine hd ⟨hin.endpoint, fun v hv hne => ?_, fun v hv hne => ?_, hin.after⟩
      · obtain ⟨t, ht, hle⟩ := hin.from_ v hv hne
        obtain ⟨t', ht', hle'⟩ := dated_of_instant ht
        exact ⟨t', ht', hle'.trans hle⟩
      · obtain ⟨t, ht, -⟩ := hin.to_ v hv hne
        obtain ⟨t', ht', -⟩ := dated_of_instant ht
        exact ⟨t', ht', not_lt.mp fun hlt => hto ⟨v, hv, hne, t', ht', hlt⟩⟩

variable (rt q σ) in
/-- A whole page comes before the delivery, of deliveries that satisfy every parameter, the bounds as
given and as Dates. -/
def BeyondPage (d : Snapshot.Delivery) : Prop :=
  ∃ l : List Snapshot.Delivery, l.Nodup ∧ PageSize rt q l.length ∧ ∀ d' ∈ l, d' ∈ σ.deliveries ∧
    OfStatus rt q d' ∧ Within rt q rt.instant d' ∧ Within rt q rt.dated d' ∧ d.key < d'.key

namespace Snapshot

theorem eq_of_id {d d' : Delivery} (hd : d ∈ σ.deliveries) (hd' : d' ∈ σ.deliveries)
    (h : d.id = d'.id) : d = d' :=
  List.inj_on_of_nodup_map σ.ids hd hd' h

theorem eq_of_rows {l l' : List Delivery} (hl : ∀ d ∈ l, d ∈ σ.deliveries)
    (hl' : ∀ d ∈ l', d ∈ σ.deliveries)
    (h : List.Forall₂ (fun d r => ∃ ev ∈ σ.events, ev.id = d.eventId ∧ r = d.row ev) l
      (l'.map fun d => d.row (σ.eventOf d))) : l = l' := by
  rw [List.forall₂_map_right_iff] at h
  induction h with
  | nil => rfl
  | cons hrow _ ih =>
    obtain ⟨ev, -, -, hrow⟩ := hrow
    have hid := (congrArg DeliveryListRow.id hrow).symm
    rw [eq_of_id (hl _ List.mem_cons_self) (hl' _ List.mem_cons_self) hid,
      ih (fun d hd => hl d (List.mem_cons_of_mem _ hd)) fun d hd => hl' d (List.mem_cons_of_mem _ hd)]

theorem rows_forall₂ {l : List Delivery} (hl : ∀ d ∈ l, d ∈ σ.deliveries) :
    List.Forall₂ (fun d r => ∃ ev ∈ σ.events, ev.id = d.eventId ∧ r = d.row ev) l
      (l.map fun d => d.row (σ.eventOf d)) := by
  refine List.forall₂_map_right_iff.mpr (List.forall₂_same.mpr fun d hd => ?_)
  obtain ⟨hev, hid⟩ := eventOf_mem (hl d hd)
  exact ⟨_, hev, hid, rfl⟩

/-- Deliveries can be told apart by their place in the order. -/
theorem key_total {d d' : Delivery} (hd : d ∈ σ.deliveries) (hd' : d' ∈ σ.deliveries) :
    d'.key < d.key ∨ d = d' ∨ d.key < d'.key := by
  rcases lt_trichotomy d.key d'.key with h | h | h
  · exact .inr (.inr h)
  · exact .inr (.inl (eq_of_id hd hd' (order.id_of_key d d' h)))
  · exact .inl h

end Snapshot

theorem exact_iff_take {found : List Snapshot.Delivery} {L : ℕ} (hL : PageSize rt q L)
    (hfound : ∀ d ∈ found, d ∈ σ.deliveries) :
    Exact rt q σ ((found.take L).map fun d => d.row (σ.eventOf d)) ↔
      ∃ listed : List Snapshot.Delivery,
        (∀ d, d ∈ listed ↔ d ∈ σ.deliveries ∧ OfStatus rt q d ∧ Within rt q rt.instant d) ∧
        listed.Pairwise (fun a b => b.key < a.key) ∧ listed.take L = found.take L := by
  have hfound : ∀ d ∈ found.take L, d ∈ σ.deliveries := fun d hd => hfound d (List.mem_of_mem_take hd)
  constructor
  · rintro ⟨L', listed, hL', hlisted, hsorted, hrows⟩
    obtain rfl := hL.unique hL'
    refine ⟨listed, hlisted, hsorted, Snapshot.eq_of_rows (fun d hd => ?_) hfound hrows⟩
    exact ((hlisted d).mp (List.mem_of_mem_take hd)).1
  · rintro ⟨listed, hlisted, hsorted, heq⟩
    refine ⟨L, listed, hL, hlisted, hsorted, ?_⟩
    rw [heq]
    exact Snapshot.rows_forall₂ hfound

theorem exists_listed : ∃ listed : List Snapshot.Delivery,
    (∀ d, d ∈ listed ↔ d ∈ σ.deliveries ∧ OfStatus rt q d ∧ Within rt q rt.instant d) ∧
      listed.Pairwise fun a b => b.key < a.key := by
  classical
  refine ⟨Snapshot.order.descending
    (σ.deliveries.filter fun d => OfStatus rt q d ∧ Within rt q rt.instant d), fun d => ?_,
    Snapshot.order.pairwise_descending_lt (σ.ids.sublist (List.filter_sublist.map _))⟩
  rw [Keyset.descending, List.mem_insertionSort, List.mem_filter]
  simp

/-- **When the filters are exact.** -/
theorem filters_exact_iff {rows : List DeliveryListRow} {next : Option String}
    (h : deliveriesRoute rt q σ = .ok (rows, next)) :
    Exact rt q σ rows ↔
      (NamesStatus rt q → ∀ d ∈ σ.deliveries, OfStatus rt q d → Misdated rt q d →
        BeyondPage rt q σ d) ∧
      (¬ NamesStatus rt q → ∀ d ∈ σ.deliveries, ¬ Within rt q rt.dated d) := by
  obtain ⟨v, found, hv, hmem, hsorted, rfl⟩ := served h
  obtain ⟨hL, hpos⟩ := @pageSize_limitParam rt q
  rw [exact_iff_take hL fun d hd => ((hmem d).mp hd).1]
  generalize (limitParam rt q.limit).getD 50 = L at hL hpos
  have htake : ∀ {listed : List Snapshot.Delivery}, (∀ d, d ∈ listed ↔ d ∈ σ.deliveries ∧
      OfStatus rt q d ∧ Within rt q rt.instant d) → listed.Pairwise (fun a b => b.key < a.key) →
      (listed.take L = found.take L ↔ _) := fun hlisted hdescending =>
    Keyset.take_eq_take_iff (fun a b hab => not_lt.mpr hab.le) hdescending hsorted
      (fun a ha b hb => Snapshot.key_total ((hlisted a).mp ha).1 ((hmem b).mp hb).1) L
  have hnamed : NamesStatus rt q → ∀ d, d ∈ found ↔ d ∈ σ.deliveries ∧ OfStatus rt q d ∧
      Within rt q rt.dated d := fun hn d => by rw [hmem, ofStatus_iff hv hn]
  constructor
  · rintro ⟨listed, hlisted, hdescending, heq⟩
    obtain ⟨hmissing, hextra⟩ := (htake hlisted hdescending).mp heq
    refine ⟨fun hn d hd hst hmisdated => ?_, fun hn d hd hin => ?_⟩
    · have hbeyond : Keyset.Beyond (fun a b : Snapshot.Delivery => b.key < a.key) listed found L d := by
        rw [misdated_iff] at hmisdated
        by_cases hin : Within rt q rt.instant d
        · refine hmissing d ((hlisted d).mpr ⟨hd, hst, hin⟩) fun hfound => hmisdated ?_
          exact iff_of_true hin ((hnamed hn d).mp hfound).2.2
        · refine hextra d ((hnamed hn d).mpr ⟨hd, hst, ?_⟩) fun hin' => hin ((hlisted d).mp hin').2.2
          by_contra hdated
          exact hmisdated (iff_of_false hin hdated)
      obtain ⟨m, hnodup, rfl, hm⟩ := hbeyond
      refine ⟨m, hnodup, hL, fun b hb => ?_⟩
      obtain ⟨hb, hst', hin⟩ := (hlisted b).mp (hm b hb).1
      exact ⟨hb, hst', hin, ((hnamed hn b).mp (hm b ‹_›).2.1).2.2, (hm b ‹_›).2.2⟩
    · obtain ⟨m, -, hlength, hm⟩ := hextra d
        ((hmem d).mpr ⟨hd, .inl (statusParam_eq_nil hv hn), hin⟩)
        fun hl => not_ofStatus hn d ((hlisted d).mp hl).2.1
      obtain ⟨b, hb⟩ := List.exists_mem_of_length_pos (hlength ▸ hpos)
      exact not_ofStatus hn b ((hlisted b).mp (hm b hb).1).2.1
  · rintro ⟨hfar, hnone⟩
    obtain ⟨listed, hlisted, hdescending⟩ := @exists_listed rt q σ
    refine ⟨listed, hlisted, hdescending, (htake hlisted hdescending).mpr ?_⟩
    by_cases hn : NamesStatus rt q
    · have hbeyond : ∀ d ∈ σ.deliveries, OfStatus rt q d → Misdated rt q d →
          Keyset.Beyond (fun a b : Snapshot.Delivery => b.key < a.key) listed found L d := by
        intro d hd hst hmisdated
        obtain ⟨m, hnodup, hsize, hm⟩ := hfar hn d hd hst hmisdated
        refine ⟨m, hnodup, hsize.unique hL, fun b hb => ?_⟩
        obtain ⟨hb, hst', hin, hdated, hlt⟩ := hm b hb
        exact ⟨(hlisted b).mpr ⟨hb, hst', hin⟩, (hnamed hn b).mpr ⟨hb, hst', hdated⟩, hlt⟩
      refine ⟨fun d hl hfound => ?_, fun d hfound hl => ?_⟩
      · obtain ⟨hd, hst, hin⟩ := (hlisted d).mp hl
        refine hbeyond d hd hst (misdated_iff.mpr fun hiff => hfound ?_)
        exact (hnamed hn d).mpr ⟨hd, hst, hiff.mp hin⟩
      · obtain ⟨hd, hst, hdated⟩ := (hnamed hn d).mp hfound
        refine hbeyond d hd hst (misdated_iff.mpr fun hiff => hl ?_)
        exact (hlisted d).mpr ⟨hd, hst, hiff.mpr hdated⟩
    · refine ⟨fun d hl _ => absurd ((hlisted d).mp hl).2.1 (not_ofStatus hn d), fun d hfound _ => ?_⟩
      exact absurd ((hmem d).mp hfound).2.2 (hnone hn d ((hmem d).mp hfound).1)

/-! ## A misspelt status -/

/-- The cast to a uuid: the hexadecimal digits of the text. -/
def sampleCast (s : String) : Option Uuid :=
  if isUuid s then some (.ofNat (s.toList.foldl hexValue 0)) else sampleUuid s

theorem sampleCast_text (u : Uuid) : sampleCast u.text = some u := by
  unfold sampleCast
  split
  · rw [value_text]
    exact congrArg some (Fin.ext (Nat.mod_eq_of_lt u.isLt))
  · exact sampleUuid_text u

/-- A runtime that does what is documented; on texts of ASCII it does what the real one does. -/
def sampleQueryRuntime : QueryRuntime where
  toRuntime := { sampleRuntime with uuid := sampleCast, uuid_text := sampleCast_text }
  toUpperCase s := String.ofList (s.toList.map Char.toUpper)
  number s := if s ≠ "" ∧ s.toList.all Char.isDigit then some (Nat.ofDigitChars 10 s.toList 0) else none
  instant s := (sampleNewDate s).map fun d => d.toMicros
  newDate_eq s := by
    change sampleNewDate s = _
    cases sampleNewDate s with
    | none => rfl
    | some d => simp [JsDate.toMicros]
  number_comma s h := if_neg fun hs => absurd (List.all_eq_true.mp hs.2 ',' h) (by decide)
  uuid_isSome s h := by
    change (sampleCast s).isSome = true
    rw [sampleCast, if_pos h]
    rfl

/-- The rows of the sample. -/
def sampleRows : List DeliveryListRow :=
  sampleSnapshot.deliveries.map fun d => d.row (sampleSnapshot.eventOf d)

theorem filters_exact_iff_dlq : Exact sampleQueryRuntime { status := ["failed, dlq"] } sampleSnapshot
    sampleRows := by
  have hroute : deliveriesRoute sampleQueryRuntime { status := ["failed, dlq"] } sampleSnapshot =
      .ok (sampleRows, none) := by decide +kernel
  have hnames : NamesStatus sampleQueryRuntime { status := ["failed, dlq"] } := fun v hv _ =>
    ⟨" dlq", by rw [List.mem_singleton.mp hv]; decide +kernel, .dlq, by decide +kernel⟩
  refine (filters_exact_iff hroute).mpr ⟨fun _ d _ _ hmisdated => ?_, fun hn => absurd hnames hn⟩
  obtain ⟨-, v, hv, -⟩ | ⟨-, v, hv, -⟩ := hmisdated <;> cases hv

/-- **No delivery is `SUCCESS`, and all are listed.** -/
theorem filters_inexact : ¬ ∀ (rt : QueryRuntime) (q : ListQuery) (σ : Snapshot)
    (rows : List DeliveryListRow) (next : Option String),
    deliveriesRoute rt q σ = .ok (rows, next) → Exact rt q σ rows := by
  intro hall
  have hroute : deliveriesRoute sampleQueryRuntime { status := ["SUCCESS"] } sampleSnapshot =
      .ok (sampleRows, none) := by decide +kernel
  obtain ⟨L, found, -, hmem, -, hpage⟩ := hall _ _ _ _ _ hroute
  have hnil : found = [] := List.eq_nil_iff_forall_not_mem.mpr fun d hd => by
    obtain ⟨name, hname, hst⟩ := ((hmem d).mp hd).2.1 "SUCCESS" List.mem_cons_self (by decide)
    have hsplit : splitComma "SUCCESS" = ["SUCCESS"] := by decide +kernel
    rw [hsplit, List.mem_singleton] at hname
    have hupper : sampleQueryRuntime.toUpperCase (trim "SUCCESS") = "SUCCESS" := by decide +kernel
    rw [hname, hupper] at hst
    cases hstatus : d.status <;> rw [hstatus] at hst <;> exact absurd hst (by decide)
  rw [hnil, List.take_nil] at hpage
  cases hpage

end WebhookEngine
