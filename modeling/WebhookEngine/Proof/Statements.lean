import WebhookEngine.Model.Statements
import WebhookEngine.Proof.Filters

set_option autoImplicit false

/-!
# What the statement of a listing means

`list` numbers the placeholders of its statement as it goes. Whatever parts a request asks for, every
placeholder gets the value it was written for, Postgres gets as many parameters as it expects, and the
text is one of finitely many, whatever the values.

* `Sound`: a builder whose conditions mean what they should; one lemma for each part of a statement;
* **`deliveries_statement`**: `GET /v1/deliveries` through its statement is `GET /v1/deliveries`;
* **`text_fixed`**: no value gets into the text.
-/

namespace WebhookEngine

open Placeholders

section List

variable {rt : Runtime} {b : Builder Param Condition}
  {D : Except Err (Snapshot.Delivery → Bool)}

/-- The conditions are numbered, and accept the rows that `D` does. -/
structure Sound (rt : Runtime) (b : Builder Param Condition)
    (D : Except Err (Snapshot.Delivery → Bool)) : Prop where
  denotes : Denotes (Condition.bind rt) (fun _ => true) b D
  numbered : Numbered Condition.placeholders b

theorem Sound.add (h : Sound rt b D) {vs : List Param} {c : Condition}
    {f : (Snapshot.Delivery → Bool) → Except Err (Snapshot.Delivery → Bool)}
    (hc : ∀ later p, Condition.bind rt (b.params ++ vs ++ later) p c = f p)
    (hn : c.placeholders = List.range' (b.params.length + 1) vs.length) :
    Sound rt ⟨b.params ++ vs, b.pieces ++ [c]⟩ (D >>= f) :=
  ⟨h.denotes.add hc, h.numbered.add hn⟩

theorem Sound.skip (h : Sound rt b D)
    {f : (Snapshot.Delivery → Bool) → Except Err (Snapshot.Delivery → Bool)}
    (hf : ∀ p, f p = .ok p) : Sound rt b (D >>= f) := by
  have hD : (D >>= f) = D := by
    cases D with
    | error e => rfl
    | ok p => exact hf p
  rw [hD]
  exact h

theorem cast_some_bind {α β : Type} (a : α) (f : α → Except Err β) : (cast (some a) >>= f) = f a :=
  rfl

theorem param_last {α : Type} (read : Param → Option α) (params later : List Param) (p : Param) :
    param (params ++ [p] ++ later) (params.length + 1) read = cast (read p) := by
  simp [param]

theorem length_push (b : Builder Param Condition) (p : Param) :
    (b.push p).params.length = b.params.length + 1 := by
  simp [Builder.push]

theorem Sound.whereStatus (h : Sound rt b D) (statuses : List Status) :
    Sound rt (whereStatus statuses b) (D >>= fun p =>
      .ok fun d => p d && decide (statuses = [] ∨ d.status ∈ statuses)) := by
  unfold WebhookEngine.whereStatus
  split
  · rename_i hnil
    refine h.skip fun p => ?_
    simp [hnil]
  · rename_i hne
    refine h.add (fun later p => ?_) (by simp [length_push, Condition.placeholders])
    rw [length_push, Condition.bind, param_last]
    refine congrArg Except.ok (funext fun d => ?_)
    simp [hne, text_injective.eq_iff]

theorem Sound.whereEndpoint (h : Sound rt b D) (endpointId : Option String) :
    Sound rt (whereEndpoint endpointId b) (D >>= fun p =>
      castOption rt.uuid (endpointId.filter (· ≠ "")) >>= fun u =>
        .ok fun d => p d && u.all fun ep => d.endpointId = ep) := by
  unfold WebhookEngine.whereEndpoint
  cases endpointId.filter (· ≠ "") with
  | none =>
    refine h.skip fun p => ?_
    simp [castOption, pure, Except.pure, bind, Except.bind]
  | some v =>
    refine h.add (fun later p => ?_) (by simp [length_push, Condition.placeholders])
    rw [length_push, Condition.bind, param_last]
    simp only [Param.text?, castOption, cast_some_bind]
    cases rt.uuid v <;> rfl

/-- The Date is valid, and the part is as it should be; or `toISOString` throws. -/
theorem Sound.whereDate (h : Sound rt b D) (date : Option (Option JsDate)) {c : ℕ → Condition}
    {ok : Micros → Snapshot.Delivery → Bool} (hc : ∀ n, (c n).placeholders = [n])
    (hbind : ∀ params p n, (c n).bind rt params p = (do
      let τ ← cast (rt.timestamptz (← param params n Param.text?))
      return fun d => p d && ok τ d)) :
    (∃ d b', castOption id date = .ok d ∧ whereDate rt c date b = .ok b' ∧
      Sound rt b' (D >>= fun p => bound rt d >>= fun τ =>
        .ok fun row => p row && τ.all fun τ => ok τ row)) ∨
    castOption id date = .error .infra ∧ whereDate rt c date b = .error .infra := by
  cases date with
  | none =>
    refine .inl ⟨none, b, rfl, rfl, h.skip fun p => ?_⟩
    simp [bound, pure, Except.pure, bind, Except.bind]
  | some date =>
    cases date with
    | none => exact .inr ⟨rfl, rfl⟩
    | some d =>
      refine .inl ⟨some d, _, rfl, rfl, h.add (fun later p => ?_) ?_⟩
      · rw [hbind, length_push, param_last]
        simp only [Param.text?, bound, cast_some_bind]
        cases rt.timestamptz (rt.toISOString d) <;> rfl
      · simp [hc, length_push]

theorem Sound.whereCursor (h : Sound rt b D) (cursor : Option Cursor) :
    Sound rt (whereCursor cursor b) (D >>= fun p => listAfter rt cursor >>= fun after =>
      .ok fun d => p d && after.all fun q => d.textKey < q) := by
  unfold WebhookEngine.whereCursor
  cases cursor with
  | none =>
    refine h.skip fun p => ?_
    simp [listAfter, pure, Except.pure, bind, Except.bind]
  | some c =>
    have hadd : Sound rt ⟨b.params ++ [.text c.updatedAt, .text c.id],
        b.pieces ++ [.before (b.params.length + 1) (b.params.length + 2)]⟩ (D >>= fun p =>
          listAfter rt (some c) >>= fun after =>
            .ok fun d => p d && after.all fun q => d.textKey < q) := by
      refine h.add (fun later p => ?_) rfl
      simp only [Condition.bind, listAfter]
      simp [param, placeholder, cast_some_bind, Param.text?]
      cases rt.timestamptz c.updatedAt with
      | none => rfl
      | some τ => cases textParam c.id <;> rfl
    simpa [Builder.push, Builder.piece] using hadd

theorem allBound_range (params : List Param) :
    allBound params (List.range' 1 params.length) = true := by
  refine decide_eq_true ⟨List.all_eq_true.mpr fun n hn => ?_, List.all_eq_true.mpr fun n hn => ?_⟩
  · rw [List.mem_range'_1] at hn
    exact decide_eq_true (by omega)
  · exact decide_eq_true hn

theorem Sound.run (h : Sound rt b D) (limit : ℕ) (σ : Snapshot) :
    (withLimit limit b).run rt σ = D >>= fun accepts =>
      .ok ((orderBy Prod.fst (σ.joined.filter fun row => accepts row.1)).take limit) := by
  have hlen : (withLimit limit b).params.length = b.params.length + 1 := length_push b _
  have hbound : allBound (withLimit limit b).params
      ((withLimit limit b).pieces.flatMap Condition.placeholders ++ [(withLimit limit b).limit]) =
        true := by
    have hall := allBound_range (withLimit limit b).params
    rw [hlen, List.range'_1_concat, Nat.add_comm 1, ← h.numbered, ← hlen] at hall
    exact hall
  have hread : param (withLimit limit b).params (withLimit limit b).limit Param.int? = .ok limit := by
    have hlast := param_last Param.int? b.params [] (.int limit)
    rw [List.append_nil] at hlast
    exact (congrArg (fun n => param _ n Param.int?) hlen).trans hlast
  unfold ListStatement.run
  rw [if_pos hbound, hread]
  exact congrArg (· >>= _) (h.denotes [.int limit])

/-! ## The listing -/

/-- **`list`** is what its statement makes of it. -/
theorem listSql_eq (params : ListParams) (hep : params.endpointId ≠ some "") (rt : QueryRuntime)
    (cursor : Option Cursor) (σ : Snapshot) :
    listSql rt.toRuntime params cursor σ =
      params.filters rt >>= fun filters => list rt.toRuntime filters cursor params.limit σ := by
  have hfilter : params.endpointId.filter (· ≠ "") = params.endpointId := by
    cases hv : params.endpointId with
    | none => rfl
    | some v => simp [Option.filter, show v ≠ "" from fun h => hep (h ▸ hv)]
  have h0 : Sound rt.toRuntime {} (.ok fun _ => true) := ⟨denotes_nil, numbered_nil⟩
  have h2 := (h0.whereStatus params.status).whereEndpoint params.endpointId
  rw [hfilter] at h2
  rcases h2.whereDate params.from_ (c := .createdFrom) (fun _ => rfl) fun _ _ _ => rfl with
    ⟨d1, b3, hd1, hb3, h3⟩ | ⟨hd1, hb3⟩
  · rcases h3.whereDate params.to_ (c := .createdTo) (fun _ => rfl) fun _ _ _ => rfl with
      ⟨d2, b4, hd2, hb4, h4⟩ | ⟨hd2, hb4⟩
    · have hrun := (h4.whereCursor cursor).run (params.limit + 1) σ
      have hst : listStatement rt.toRuntime params cursor =
          .ok (withLimit (params.limit + 1) (whereCursor cursor b4)) := by
        show (whereDate rt.toRuntime .createdFrom params.from_ _ >>= fun b =>
          whereDate rt.toRuntime .createdTo params.to_ b >>= _) = _
        rw [hb3]
        show (whereDate rt.toRuntime .createdTo params.to_ b3 >>= _) = _
        rw [hb4]
        rfl
      have hlist : listSql rt.toRuntime params cursor σ =
          (withLimit (params.limit + 1) (whereCursor cursor b4)).run rt.toRuntime σ >>= fun rows =>
            .ok ((rows.take params.limit).map fun row => row.1.row row.2,
              decide (params.limit < rows.length)) := by
        unfold listSql
        rw [hst]
        rfl
      rw [hlist, hrun]
      unfold ListParams.filters
      rw [hd1, hd2]
      cases hu : castOption rt.uuid params.endpointId with
      | error e => rfl
      | ok u =>
        show _ = list rt.toRuntime ⟨params.status, u, d1, d2⟩ cursor params.limit σ
        unfold list
        cases bound rt.toRuntime d1 with
        | error e => rfl
        | ok τ1 =>
          cases bound rt.toRuntime d2 with
          | error e => rfl
          | ok τ2 =>
            cases listAfter rt.toRuntime cursor with
            | error e => rfl
            | ok after =>
              have hrows : (σ.joined.filter fun row =>
                  ((((true && decide (params.status = [] ∨ row.1.status ∈ params.status)) &&
                    u.all fun ep => row.1.endpointId = ep) && τ1.all fun τ => τ ≤ row.1.createdAt) &&
                      τ2.all fun τ => row.1.createdAt ≤ τ) &&
                        after.all fun q => row.1.textKey < q) =
                  σ.joined.filter fun row => decide (DeliveryListFilters.accepts
                    ⟨params.status, u, d1, d2⟩ τ1 τ2 row.1 = true ∧
                      after.all (fun p => row.1.textKey < p) = true) := by
                refine congrArg (List.filter · σ.joined) (funext fun row => ?_)
                simp [DeliveryListFilters.accepts, Bool.and_assoc]
              exact congrArg (fun found =>
                let rows := (orderBy Prod.fst found).take (params.limit + 1)
                Except.ok ((rows.take params.limit).map fun row => row.1.row row.2,
                  decide (params.limit < rows.length))) hrows
    · have hst : listStatement rt.toRuntime params cursor = .error .infra := by
        show (whereDate rt.toRuntime .createdFrom params.from_ _ >>= fun b =>
          whereDate rt.toRuntime .createdTo params.to_ b >>= _) = _
        rw [hb3]
        show (whereDate rt.toRuntime .createdTo params.to_ b3 >>= _) = _
        rw [hb4]
        rfl
      unfold listSql ListParams.filters
      rw [hst, hd1, hd2]
      cases params.endpointId with
      | none => rfl
      | some v => simp only [castOption]; cases rt.uuid v <;> rfl
  · have hst : listStatement rt.toRuntime params cursor = .error .infra := by
      show (whereDate rt.toRuntime .createdFrom params.from_ _ >>= _) = _
      rw [hb3]
      rfl
    unfold listSql ListParams.filters
    rw [hst, hd1]
    cases params.endpointId with
    | none => rfl
    | some v => simp only [castOption]; cases rt.uuid v <;> rfl

/-- **`GET /v1/deliveries` sends the statement it should**: whatever filters, bounds and cursor a
query has, the text and the parameters `list` puts together make Postgres return what the listing of
the model returns. -/
theorem deliveries_statement (rt : QueryRuntime) (q : ListQuery) (σ : Snapshot) :
    deliveriesRouteSql rt q σ = deliveriesRoute rt q σ := by
  unfold deliveriesRouteSql deliveriesRoute
  cases hparams : listQuerySchema rt q with
  | error e => rfl
  | ok params =>
    have hep : params.endpointId ≠ some "" := by
      obtain ⟨_, endpointId, _, _, _, _, _, huuid, _, _, _, rfl⟩ := schema_ok hparams
      rintro rfl
      exact absurd huuid (by decide)
    show (cursorParam rt.toRuntime params.cursor >>= _) = (cursorParam rt.toRuntime params.cursor >>= _)
    refine congrArg (cursorParam rt.toRuntime params.cursor >>= ·) (funext fun cursor => ?_)
    show (listSql rt.toRuntime params cursor σ >>= _) = _
    rw [listSql_eq params hep]
    cases params.filters rt <;> rfl

/-! ## The text -/

/-- The two builders have the same pieces, and the same number of parameters. -/
def Alike {C : Type} (b b' : Builder Param C) : Prop :=
  b.pieces = b'.pieces ∧ b.params.length = b'.params.length

variable {b' : Builder Param Condition}

theorem Alike.push (h : Alike b b') (p p' : Param) : Alike (b.push p) (b'.push p') := by
  refine ⟨h.1, ?_⟩
  rw [length_push, length_push, h.2]

theorem Alike.piece (h : Alike b b') (c : ℕ → Condition) :
    Alike (b.piece (c b.params.length)) (b'.piece (c b'.params.length)) := by
  refine ⟨?_, h.2⟩
  simp only [Builder.piece, h.1, h.2]

theorem Alike.whereStatus (h : Alike b b') {statuses statuses' : List Status}
    (hs : statuses = [] ↔ statuses' = []) :
    Alike (whereStatus statuses b) (whereStatus statuses' b') := by
  unfold WebhookEngine.whereStatus
  by_cases hnil : statuses = []
  · rw [if_pos hnil, if_pos (hs.mp hnil)]
    exact h
  · rw [if_neg hnil, if_neg fun h => hnil (hs.mpr h)]
    exact (h.push _ _).piece .statusAny

theorem Alike.whereEndpoint (h : Alike b b') {ep ep' : Option String}
    (hep : (ep.filter (· ≠ "")).isSome = (ep'.filter (· ≠ "")).isSome) :
    Alike (whereEndpoint ep b) (whereEndpoint ep' b') := by
  unfold WebhookEngine.whereEndpoint
  cases hv : ep.filter (· ≠ "") <;> cases hv' : ep'.filter (· ≠ "")
  all_goals simp only [hv, hv'] at hep
  · exact h
  · cases hep
  · cases hep
  · exact (h.push _ _).piece .endpointId

theorem Alike.whereDate {rt' : Runtime} (h : Alike b b') {date date' : Option (Option JsDate)}
    (hdate : date.isSome = date'.isSome) {c : ℕ → Condition} {b₁ b₁' : Builder Param Condition}
    (hb : whereDate rt c date b = .ok b₁) (hb' : whereDate rt' c date' b' = .ok b₁') :
    Alike b₁ b₁' := by
  cases date with
  | none =>
    cases date' with
    | none => cases hb; cases hb'; exact h
    | some d' => cases hdate
  | some d =>
    cases date' with
    | none => cases hdate
    | some d' =>
      cases d with
      | none => cases hb
      | some d =>
        cases d' with
        | none => cases hb'
        | some d' =>
          cases hb
          cases hb'
          exact (h.push _ _).piece c

theorem Alike.whereCursor (h : Alike b b') {cursor cursor' : Option Cursor}
    (hc : cursor.isSome = cursor'.isSome) :
    Alike (whereCursor cursor b) (whereCursor cursor' b') := by
  cases cursor <;> cases cursor'
  · exact h
  · cases hc
  · cases hc
  · exact ((h.push _ _).push _ _).piece fun n => .before (n - 1) n

/-- Which parts a request asks for. -/
def ListParams.parts (params : ListParams) (cursor : Option Cursor) : List Bool :=
  [params.status = [], (params.endpointId.filter (· ≠ "")).isSome, params.from_.isSome,
    params.to_.isSome, cursor.isSome]

theorem ListStatement.text_congr {st st' : ListStatement} (hpieces : st.pieces = st'.pieces)
    (hlimit : st.limit = st'.limit) : st.text = st'.text := by
  unfold ListStatement.text
  rw [hpieces, hlimit]

/-- **No value gets into the text**: it depends on nothing but which parts a request asks for. -/
theorem text_fixed {rt' : Runtime} {params params' : ListParams} {cursor cursor' : Option Cursor}
    {st st' : ListStatement} (hparts : params.parts cursor = params'.parts cursor')
    (h : listStatement rt params cursor = .ok st)
    (h' : listStatement rt' params' cursor' = .ok st') : st.text = st'.text := by
  simp only [ListParams.parts, List.cons.injEq, and_true, decide_eq_decide] at hparts
  obtain ⟨hstatus, hep, hfrom, hto, hcursor⟩ := hparts
  obtain ⟨b₁, hb₁, h⟩ := ok_of_bind h
  obtain ⟨b₂, hb₂, h⟩ := ok_of_bind h
  obtain ⟨b₁', hb₁', h'⟩ := ok_of_bind h'
  obtain ⟨b₂', hb₂', h'⟩ := ok_of_bind h'
  cases h
  cases h'
  have h0 : Alike ({} : Builder Param Condition) {} := ⟨rfl, rfl⟩
  have h1 := ((h0.whereStatus hstatus).whereEndpoint hep).whereDate hfrom hb₁ hb₁'
  have h2 := ((h1.whereDate hto hb₂ hb₂').whereCursor hcursor).push
    (.int (params.limit + 1)) (.int (params'.limit + 1))
  exact ListStatement.text_congr h2.1 h2.2

/-- A search for failed deliveries to an endpoint. -/
def plainSearch : ListParams := ⟨[.failed], some "1", none, none, 50, none⟩

/-- One by somebody who tries to close a quotation. -/
def quotedSearch : ListParams := ⟨[.dlq, .pending], some "' OR '1' = '1", none, none, 9, none⟩

theorem text_fixed_quoted : ∃ st st', listStatement sampleRuntime plainSearch none = .ok st ∧
    listStatement sampleRuntime quotedSearch none = .ok st' ∧ st.text = st'.text := by
  obtain ⟨st, hst⟩ : ∃ st, listStatement sampleRuntime plainSearch none = .ok st := ⟨_, rfl⟩
  obtain ⟨st', hst'⟩ : ∃ st, listStatement sampleRuntime quotedSearch none = .ok st := ⟨_, rfl⟩
  have hparts : plainSearch.parts none = quotedSearch.parts none := by decide
  exact ⟨st, st', hst, hst', text_fixed hparts hst hst'⟩

end List

end WebhookEngine
