import Mathlib.Data.List.Sort

set_option autoImplicit false

/-!
# Keyset pagination

A table is listed page by page in descending order of a key. A page ends with a row, and the next one
starts at a place that the cursor remembers of that row, which need not be its key. The table may be
another one at every page.

* `Keyset`: the keys of the rows, the places their cursors stand for, and their identities.
* `Walk`: a listing followed from page to page; `Keyset.Serves`: the listing answers with the rows
  below the place of its cursor.
* `Keyset.ends`, `Keyset.Gap`: the rows pages end with, and the rows that come after such a row but not
  after the place of its cursor.
* **`Serves.complete_iff`**: a walk returns every row that stays in the table once and in order, if and
  only if none of them lies in a gap.
* **`take_eq_take_iff`**: when two listings have the same first page.
-/

/-- Rows of type `α` are listed by keys of type `K`; they are the same if their `id` is. -/
structure Keyset (α K I : Type) [LinearOrder K] where
  key : α → K
  /-- Where the page after the row starts. -/
  place : α → K
  id : α → I
  place_le : ∀ a, place a ≤ key a
  id_of_key : ∀ a b, key a = key b → id a = id b

/-- Following a listing: `get` answers a page and the cursor of the next one, each time over another
table. -/
inductive Walk {T C ρ ε : Type} (get : Option C → T → Except ε (List ρ × Option C)) :
    Option C → List T → List (List ρ) → Prop where
  | last {c : Option C} {t : T} {page : List ρ} (h : get c t = .ok (page, none)) :
      Walk get c [t] [page]
  | more {c : Option C} {t : T} {page : List ρ} {c' : C} {ts : List T} {pages : List (List ρ)}
      (h : get c t = .ok (page, some c')) (hw : Walk get (some c') ts pages) :
      Walk get c (t :: ts) (page :: pages)

namespace Keyset

variable {α K I T C ρ ε : Type} [LinearOrder K] (S : Keyset α K I)

/-- `ORDER BY key DESC`. -/
def descending (rows : List α) : List α := rows.insertionSort fun a b => S.key b ≤ S.key a

/-- The rows below a place. -/
def below (place : Option K) (rows : List α) : List α :=
  S.descending (rows.filter fun r => place.all fun p => S.key r < p)

/-- The answer of a listing: the first `limit` rows below the place, and a cursor if there are more. -/
def answer (limit : ℕ) (row : α → ρ) (cursor : α → C) (place : Option K) (rows : List α) :
    List ρ × Option C :=
  let found := (S.below place rows).take limit
  (found.map row,
    if limit < (S.below place rows).length then found.getLast?.map cursor else none)

/-! ## Sorted rows -/

theorem mem_below {place : Option K} {rows : List α} {a : α} :
    a ∈ S.below place rows ↔ a ∈ rows ∧ ∀ p ∈ place, S.key a < p := by
  rw [below, descending, List.mem_insertionSort, List.mem_filter]
  cases place <;> simp

theorem pairwise_descending (rows : List α) :
    (S.descending rows).Pairwise fun a b => S.key b ≤ S.key a :=
  have : Std.Total fun a b => S.key b ≤ S.key a := ⟨fun _ _ => le_total _ _⟩
  have : IsTrans α fun a b => S.key b ≤ S.key a := ⟨fun _ _ _ h h' => h'.trans h⟩
  List.pairwise_insertionSort _ rows

theorem pairwise_descending_lt {rows : List α} (hn : (rows.map S.id).Nodup) :
    (S.descending rows).Pairwise fun a b => S.key b < S.key a := by
  have hids : ((S.descending rows).map S.id).Nodup :=
    ((List.perm_insertionSort _ _).map S.id).nodup_iff.mpr hn
  refine ((S.pairwise_descending _).and (List.pairwise_map.mp hids)).imp ?_
  rintro a b ⟨hle, hne⟩
  exact lt_of_le_of_ne hle fun h => hne (S.id_of_key a b h.symm)

theorem pairwise_below (place : Option K) {rows : List α} (hn : (rows.map S.id).Nodup) :
    (S.below place rows).Pairwise fun a b => S.key b < S.key a :=
  S.pairwise_descending_lt (hn.sublist (List.filter_sublist.map S.id))

theorem below_sublist {place : Option K} {rows : List α} {limit : ℕ} {a b : α}
    (hn : (rows.map S.id).Nodup) (ha : a ∈ (S.below place rows).take limit)
    (hb : b ∈ (S.below place rows).drop limit) : S.key b < S.key a := by
  have h := S.pairwise_below place hn
  rw [← List.take_append_drop limit (S.below place rows), List.pairwise_append] at h
  exact h.2.2 a ha b hb

theorem last_le {l : List α} (h : l.Pairwise fun a b => S.key b < S.key a) {z a : α}
    (hz : l.getLast? = some z) (ha : a ∈ l) : S.key z ≤ S.key a := by
  obtain ⟨l', rfl⟩ := List.getLast?_eq_some_iff.mp hz
  rcases List.mem_append.mp ha with ha | ha
  · exact ((List.pairwise_append.mp h).2.2 a ha z (List.mem_singleton_self _)).le
  · rw [List.mem_singleton.mp ha]

/-! ## Walks -/

/-- The listing `get` answers with the rows of the table below the place of its cursor, as `row` shows
them. -/
structure Serves (get : Option C → T → Except ε (List ρ × Option C)) (rows : T → List α)
    (row : T → α → ρ) (cursor : α → C) (limit : ℕ) : Prop where
  first : ∀ t, get none t = .ok (S.answer limit (row t) cursor none (rows t))
  next : ∀ t' a, a ∈ rows t' → ∀ t, get (some (cursor a)) t =
    .ok (S.answer limit (row t) cursor (some (S.place a)) (rows t))

/-- The last rows of the pages that are followed by another one, page after page over the tables. -/
def ends (limit : ℕ) (rows : T → List α) : Option K → List T → List α
  | _, [] => []
  | place, t :: ts =>
    if limit < (S.below place (rows t)).length then
      match ((S.below place (rows t)).take limit).getLast? with
      | some z => z :: ends limit rows (some (S.place z)) ts
      | none => []
    else []

/-- The row comes after `z`, but not after the place of the cursor. -/
def Gap (z r : α) : Prop := S.place z ≤ S.key r ∧ S.key r < S.key z

/-- What a walk from `place` has found. -/
structure Found (limit : ℕ) (rows : T → List α) (ident : ρ → I) (place : Option K) (ts : List T)
    (pages : List (List ρ)) (l : List α) : Prop where
  ids : pages.flatten.map ident = l.map S.id
  sorted : l.Pairwise fun a b => S.key b < S.key a
  below : ∀ a ∈ l, ∀ p ∈ place, S.key a < p
  mem : ∀ a ∈ l, ∃ t ∈ ts, a ∈ rows t
  upper : ∀ z ∈ S.ends limit rows place ts, ∀ p ∈ place, S.key z < p
  iff : ∀ r, (∀ t ∈ ts, r ∈ rows t) → (∀ p ∈ place, S.key r < p) →
    (r ∈ l ↔ ∀ z ∈ S.ends limit rows place ts, ¬ S.Gap z r)

variable {S} {get : Option C → T → Except ε (List ρ × Option C)} {rows : T → List α}
  {row : T → α → ρ} {cursor : α → C} {limit : ℕ} {ident : ρ → I}

/-- **What one page finds.** -/
theorem answer_cases {t : T} {place : Option K} {page : List ρ} {c' : Option C} (hlimit : 0 < limit)
    (h : S.answer limit (row t) cursor place (rows t) = (page, c')) :
    page = ((S.below place (rows t)).take limit).map (row t) ∧
      (c' = none ∧ ¬ limit < (S.below place (rows t)).length ∨
        ∃ z, c' = some (cursor z) ∧ limit < (S.below place (rows t)).length ∧
          ((S.below place (rows t)).take limit).getLast? = some z) := by
  obtain ⟨rfl, rfl⟩ := Prod.mk.inj h
  refine ⟨rfl, ?_⟩
  split
  · rename_i hlt
    have hne : (S.below place (rows t)).take limit ≠ [] := by
      intro hnil
      have := congrArg List.length hnil
      rw [List.length_take, List.length_nil] at this
      omega
    refine Or.inr ⟨_, ?_, hlt, List.getLast?_eq_some_getLast hne⟩
    rw [List.getLast?_eq_some_getLast hne]
    rfl
  · rename_i hlt
    exact Or.inl ⟨rfl, hlt⟩

/-- **What a walk finds**: all the rows below its start, but for those it skips. -/
theorem Serves.found (hs : S.Serves get rows row cursor limit) (hlimit : 0 < limit)
    (hn : ∀ t, ((rows t).map S.id).Nodup) (hrow : ∀ t a, ident (row t a) = S.id a)
    {c : Option C} {ts : List T} {pages : List (List ρ)} (hw : Walk get c ts pages) :
    ∀ {place : Option K}, (∀ t, get c t = .ok (S.answer limit (row t) cursor place (rows t))) →
      ∃ l, S.Found limit rows ident place ts pages l := by
  induction hw with
  | @last c t page h =>
    intro place hc
    rw [hc t, Except.ok.injEq] at h
    obtain ⟨rfl, ⟨-, hle⟩ | ⟨z, hz, -⟩⟩ := answer_cases hlimit h
    · have hends : S.ends limit rows place [t] = [] := by rw [ends, if_neg hle]
      refine ⟨S.below place (rows t), ?_, S.pairwise_below place (hn t), ?_, ?_, ?_, ?_⟩
      · rw [List.take_of_length_le (Nat.le_of_not_lt hle)]
        simp [hrow]
      · exact fun a ha => (S.mem_below.mp ha).2
      · exact fun a ha => ⟨t, List.mem_singleton_self _, (S.mem_below.mp ha).1⟩
      · rw [hends]
        exact nofun
      · intro r hr hp
        rw [hends]
        exact ⟨fun _ => nofun, fun _ => S.mem_below.mpr ⟨hr t (List.mem_singleton_self _), hp⟩⟩
    · cases hz
  | @more c t page c' ts pages h hw ih =>
    intro place hc
    rw [hc t, Except.ok.injEq] at h
    obtain ⟨rfl, ⟨hnone, -⟩ | ⟨z, hz, hlt, hlast⟩⟩ := answer_cases hlimit h
    · cases hnone
    cases hz
    have hzt : z ∈ rows t :=
      (S.mem_below.mp (List.take_subset limit _ (List.mem_of_getLast? hlast))).1
    have hends : S.ends limit rows place (t :: ts) =
        z :: S.ends limit rows (some (S.place z)) ts := by
      rw [ends, if_pos hlt, hlast]
    obtain ⟨l, hl⟩ := @ih (some (S.place z)) (hs.next t z hzt)
    generalize hfound : (S.below place (rows t)).take limit = found at *
    have hsorted : found.Pairwise fun a b => S.key b < S.key a :=
      hfound ▸ (S.pairwise_below place (hn t)).sublist (List.take_sublist _ _)
    have hfm : ∀ a ∈ found, a ∈ rows t ∧ ∀ p ∈ place, S.key a < p := fun a ha =>
      S.mem_below.mp (List.take_subset limit _ (hfound ▸ ha))
    have hzm : z ∈ found := List.mem_of_getLast? hlast
    have hunder : ∀ a ∈ l, S.key a < S.key z := fun a ha =>
      (hl.below a ha _ rfl).trans_le (S.place_le z)
    refine ⟨found ++ l, ?_, ?_, ?_, ?_, ?_, ?_⟩
    · rw [List.flatten_cons, List.map_append, List.map_append, hl.ids, List.map_map]
      exact congrArg (· ++ _) (List.map_congr_left fun a _ => hrow t a)
    · refine List.pairwise_append.mpr ⟨hsorted, hl.sorted, fun a ha b hb => ?_⟩
      exact (hunder b hb).trans_le (S.last_le hsorted hlast ha)
    · intro a ha p hp
      rcases List.mem_append.mp ha with ha | ha
      · exact (hfm a ha).2 p hp
      · exact (hunder a ha).trans ((hfm z hzm).2 p hp)
    · intro a ha
      rcases List.mem_append.mp ha with ha | ha
      · exact ⟨t, List.mem_cons_self, (hfm a ha).1⟩
      · obtain ⟨t', ht', ha⟩ := hl.mem a ha
        exact ⟨t', List.mem_cons_of_mem _ ht', ha⟩
    · intro y hy p hp
      have hzp := (hfm z hzm).2 p hp
      rw [hends] at hy
      rcases List.mem_cons.mp hy with rfl | hy
      · exact hzp
      · exact ((hl.upper y hy _ rfl).trans_le (S.place_le z)).trans hzp
    · intro r hr hp
      rw [hends, List.forall_mem_cons, List.mem_append]
      by_cases hrz : S.key r < S.key z
      · have hnot : r ∉ found := fun h => absurd (S.last_le hsorted hlast h) (not_le_of_gt hrz)
        by_cases hrp : S.key r < S.place z
        · have hiff := hl.iff r (fun t' ht' => hr t' (List.mem_cons_of_mem _ ht')) (by simpa using hrp)
          simp [hnot, hiff, Gap, not_le_of_gt hrp]
        · have hnot' : r ∉ l := fun h => hrp (hl.below r h _ rfl)
          simp [hnot, hnot', Gap, hrz, le_of_not_gt hrp]
      · have hmem : r ∈ found := by
          have hr : r ∈ S.below place (rows t) := S.mem_below.mpr ⟨hr t List.mem_cons_self, hp⟩
          rw [← List.take_append_drop limit (S.below place (rows t)), hfound] at hr
          rcases List.mem_append.mp hr with hr | hr
          · exact hr
          · exact absurd (S.below_sublist (hn t) (hfound.symm ▸ hzm) hr) hrz
        have hnot : ∀ y ∈ S.ends limit rows (some (S.place z)) ts, ¬ S.Gap y r := fun y hy h =>
          hrz (h.2.trans ((hl.upper y hy _ rfl).trans_le (S.place_le z)))
        refine ⟨fun _ => ⟨fun h => hrz h.2, hnot⟩, fun _ => Or.inl hmem⟩

/-! ## Complete walks -/

/-- **Nothing is lost and nothing is repeated**: the rows that stay in the table are returned once, in
descending order. -/
structure Complete [DecidableEq I] (S : Keyset α K I) (rows : T → List α) (ts : List T)
    (ids : List I) : Prop where
  once : ∀ r, (∀ t ∈ ts, r ∈ rows t) → ids.count (S.id r) = 1
  ordered : ∀ r r', (∀ t ∈ ts, r ∈ rows t) → (∀ t ∈ ts, r' ∈ rows t) → S.key r' < S.key r →
    [S.id r, S.id r'].Sublist ids

/-- Of two members of a list in descending order the greater comes first. -/
theorem pair_sublist {l : List α} (h : l.Pairwise fun a b => S.key b < S.key a) {a b : α}
    (ha : a ∈ l) (hb : b ∈ l) (hab : S.key b < S.key a) : [a, b].Sublist l := by
  induction h with
  | nil => cases ha
  | @cons x l hx hl ih =>
    rcases List.mem_cons.mp ha with rfl | ha'
    · rcases List.mem_cons.mp hb with rfl | hb'
      · exact absurd hab (lt_irrefl _)
      · exact (List.singleton_sublist.mpr hb').cons_cons a
    · rcases List.mem_cons.mp hb with rfl | hb'
      · exact absurd (hx a ha') hab.asymm
      · exact (ih ha' hb').cons x

/-- **A walk is complete if and only if no row** that stays in the table lies in the gap after the end
of a page. -/
theorem Serves.complete_iff [DecidableEq I] (hs : S.Serves get rows row cursor limit)
    (hlimit : 0 < limit) (hn : ∀ t, ((rows t).map S.id).Nodup)
    (hrow : ∀ t a, ident (row t a) = S.id a) {ts : List T} {pages : List (List ρ)}
    (hw : Walk get none ts pages) :
    S.Complete rows ts (pages.flatten.map ident) ↔
      ∀ r, (∀ t ∈ ts, r ∈ rows t) → ∀ z ∈ S.ends limit rows none ts, ¬ S.Gap z r := by
  obtain ⟨l, hl⟩ := hs.found hlimit hn hrow hw hs.first
  have hmem : ∀ r, (∀ t ∈ ts, r ∈ rows t) →
      (r ∈ l ↔ ∀ z ∈ S.ends limit rows none ts, ¬ S.Gap z r) := fun r hr => hl.iff r hr nofun
  have hsame : ∀ r, (∀ t ∈ ts, r ∈ rows t) → ∀ a ∈ l, S.id a = S.id r → a = r := by
    intro r hr a ha hid
    obtain ⟨t, ht, ha⟩ := hl.mem a ha
    exact List.inj_on_of_nodup_map (hn t) ha (hr t ht) hid
  rw [hl.ids]
  constructor
  · intro h r hr
    obtain ⟨a, ha, hid⟩ := List.mem_map.mp (List.count_pos_iff.mp ((h.once r hr).symm ▸ Nat.one_pos))
    rw [← hmem r hr, ← hsame r hr a ha hid]
    exact ha
  · refine fun h => ⟨fun r hr => ?_, fun r r' hr hr' hlt => ?_⟩
    · obtain ⟨l₁, l₂, rfl⟩ := List.append_of_mem ((hmem r hr).mpr (h r hr))
      have hsorted := List.pairwise_append.mp hl.sorted
      have hfirst : S.id r ∉ l₁.map S.id := by
        intro hmem
        obtain ⟨a, ha, hid⟩ := List.mem_map.mp hmem
        have har := hsame r hr a (List.mem_append_left _ ha) hid
        exact lt_irrefl _ (har ▸ hsorted.2.2 a ha r List.mem_cons_self)
      have hlater : S.id r ∉ l₂.map S.id := by
        intro hmem
        obtain ⟨a, ha, hid⟩ := List.mem_map.mp hmem
        have har := hsame r hr a (List.mem_append_right _ (List.mem_cons_of_mem _ ha)) hid
        exact lt_irrefl _ (har ▸ (List.pairwise_cons.mp hsorted.2.1).1 a ha)
      rw [List.map_append, List.map_cons, List.count_append, List.count_cons_self,
        List.count_eq_zero_of_not_mem hfirst, List.count_eq_zero_of_not_mem hlater]
    · exact (S.pair_sublist hl.sorted ((hmem r hr).mpr (h r hr)) ((hmem r' hr').mpr (h r' hr'))
        hlt).map S.id

/-- A page that is not the last one shortens what remains. -/
theorem below_place_lt {place : Option K} {rows : List α} {z : α} (hz : z ∈ S.below place rows) :
    (S.below (some (S.place z)) rows).length < (S.below place rows).length := by
  have hlen : ∀ p, (S.below p rows).length =
      (rows.filter fun r => p.all fun p => S.key r < p).length :=
    fun p => List.length_insertionSort _ _
  obtain ⟨hmem, hlt⟩ := S.mem_below.mp hz
  have hfilter : rows.filter (fun r => (some (S.place z)).all fun p => S.key r < p) =
      (rows.filter fun r => place.all fun p => S.key r < p).filter
        fun r => (some (S.place z)).all fun p => S.key r < p := by
    rw [List.filter_filter]
    refine List.filter_congr fun r _ => ?_
    cases place with
    | none => simp
    | some p =>
      have hzp : S.key z < p := hlt p rfl
      have himp : S.key r < S.place z → S.key r < p :=
        fun h => (h.trans_le (S.place_le z)).trans hzp
      simpa using himp
  rw [hlen, hlen, hfilter, List.length_filter_lt_length_iff_exists]
  refine ⟨z, List.mem_filter.mpr ⟨hmem, ?_⟩, ?_⟩
  · cases place with
    | none => rfl
    | some p => simpa using hlt
  · simpa using S.place_le z

/-- **Over a table that does not change a walk comes to its end.** -/
theorem Serves.exists_walk (hs : S.Serves get rows row cursor limit) (hlimit : 0 < limit) (t : T) :
    ∃ n pages, Walk get none (List.replicate n t) pages := by
  have hwalk : ∀ m c place, (S.below place (rows t)).length = m →
      (∀ t, get c t = .ok (S.answer limit (row t) cursor place (rows t))) →
        ∃ n pages, Walk get c (List.replicate n t) pages := by
    intro m
    induction m using Nat.strong_induction_on with
    | _ m ih =>
      intro c place hm hc
      obtain ⟨page, c', hans⟩ : ∃ page c',
          S.answer limit (row t) cursor place (rows t) = (page, c') := ⟨_, _, rfl⟩
      have hget : get c t = .ok (page, c') := (hc t).trans (congrArg Except.ok hans)
      obtain ⟨-, ⟨rfl, -⟩ | ⟨z, rfl, -, hlast⟩⟩ := answer_cases hlimit hans
      · exact ⟨1, [page], .last hget⟩
      · have hz : z ∈ S.below place (rows t) :=
          List.take_subset limit _ (List.mem_of_getLast? hlast)
        obtain ⟨n, pages, hw⟩ := ih _ (hm ▸ S.below_place_lt hz) (some (cursor z)) _ rfl
          (hs.next t z (S.mem_below.mp hz).1)
        exact ⟨n + 1, page :: pages, .more hget hw⟩
  exact hwalk _ none none rfl hs.first

end Keyset

/-! ## The first rows of two lists -/

namespace Keyset

section FirstRows

variable {α : Type} {r : α → α → Prop} {l l' : List α} {n : ℕ} {a : α}

variable (r l l' n a) in
/-- `n` elements of both lists come before the element. -/
def Beyond : Prop := ∃ m : List α, m.Nodup ∧ m.length = n ∧ ∀ b ∈ m, b ∈ l ∧ b ∈ l' ∧ r b a

theorem Beyond.symm (h : Beyond r l l' n a) : Beyond r l' l n a := by
  obtain ⟨m, hnodup, hlength, hm⟩ := h
  exact ⟨m, hnodup, hlength, fun b hb => ⟨(hm b hb).2.1, (hm b hb).1, (hm b hb).2.2⟩⟩

theorem not_beyond_head (hasymm : ∀ a b, r a b → ¬ r b a) (hl : (a :: l).Pairwise r) :
    ¬ Beyond r (a :: l) l' (n + 1) a := by
  rintro ⟨m, -, hlength, hm⟩
  obtain ⟨b, hb⟩ := List.exists_mem_of_length_eq_add_one hlength
  obtain ⟨hmem, -, hba⟩ := hm b hb
  rcases List.mem_cons.mp hmem with rfl | hmem
  · exact hasymm b b hba hba
  · exact hasymm b a hba (List.rel_of_pairwise_cons hl hmem)

theorem beyond_of_take_eq (hasymm : ∀ a b, r a b → ¬ r b a) (hl : l.Pairwise r)
    (h : l.take n = l'.take n) (ha : a ∈ l) (ha' : a ∉ l') : Beyond r l l' n a := by
  have hdrop : a ∈ l.drop n := by
    rcases List.mem_append.mp ((List.take_append_drop n l).symm ▸ ha) with htake | hdrop
    · exact absurd (List.mem_of_mem_take (h ▸ htake)) ha'
    · exact hdrop
  have hirrefl : ∀ a, ¬ r a a := fun a haa => hasymm a a haa haa
  have hlength : (l.take n).length = n := by
    rw [List.length_take]
    have := List.length_pos_of_mem hdrop
    rw [List.length_drop] at this
    omega
  refine ⟨l.take n, ?_, hlength, fun b hb => ⟨List.mem_of_mem_take hb, ?_, ?_⟩⟩
  · refine List.Pairwise.imp ?_ (hl.sublist (List.take_sublist n l))
    rintro b c hbc rfl
    exact hirrefl b hbc
  · exact List.mem_of_mem_take (h ▸ hb)
  · rw [← List.take_append_drop n l, List.pairwise_append] at hl
    exact hl.2.2 b hb a hdrop

/-- **Two lists in the same order have the same first `n` elements** if and only if an element of only
one of them comes after `n` elements of both. -/
theorem take_eq_take_iff (hasymm : ∀ a b, r a b → ¬ r b a) (hl : l.Pairwise r) (hl' : l'.Pairwise r)
    (htotal : ∀ a ∈ l, ∀ b ∈ l', r a b ∨ a = b ∨ r b a) (n : ℕ) :
    l.take n = l'.take n ↔ (∀ a ∈ l, a ∉ l' → Beyond r l l' n a) ∧
      ∀ a ∈ l', a ∉ l → Beyond r l l' n a := by
  refine ⟨fun h => ⟨fun a ha ha' => beyond_of_take_eq hasymm hl h ha ha', fun a ha ha' =>
    (beyond_of_take_eq hasymm hl' h.symm ha ha').symm⟩, ?_⟩
  have hbefore : ∀ {a b : α} {l : List α}, r a b → (b :: l).Pairwise r → a ∉ b :: l := by
    intro a b l hab hl hmem
    rcases List.mem_cons.mp hmem with rfl | hmem
    · exact hasymm a a hab hab
    · exact hasymm a b hab (List.rel_of_pairwise_cons hl hmem)
  induction n generalizing l l' with
  | zero => exact fun _ => rfl
  | succ n ih =>
    rintro ⟨h, h'⟩
    cases l with
    | nil =>
      cases l' with
      | nil => rfl
      | cons b l' =>
        have := (h' b List.mem_cons_self List.not_mem_nil).symm
        exact absurd this (not_beyond_head hasymm hl')
    | cons a l =>
      cases l' with
      | nil => exact absurd (h a List.mem_cons_self List.not_mem_nil) (not_beyond_head hasymm hl)
      | cons b l' =>
        rcases htotal a List.mem_cons_self b List.mem_cons_self with hab | rfl | hba
        · exact absurd (h a List.mem_cons_self (hbefore hab hl')) (not_beyond_head hasymm hl)
        · have hstep : ∀ {x : α}, x ≠ a → Beyond r (a :: l) (a :: l') (n + 1) x →
              Beyond r l l' n x := by
            classical
            rintro x hx ⟨m, hnodup, hlength, hm⟩
            refine ⟨(m.erase a).take n, (hnodup.erase a).sublist (List.take_sublist _ _), ?_,
              fun b hb => ?_⟩
            · have := List.le_length_erase (a := a) (l := m)
              rw [List.length_take]
              omega
            · have hb := List.mem_of_mem_take hb
              have hne : b ≠ a := fun heq => (hnodup.not_mem_erase) (heq ▸ hb)
              obtain ⟨hmem, hmem', hbx⟩ := hm b (List.mem_of_mem_erase hb)
              exact ⟨List.mem_of_ne_of_mem hne hmem, List.mem_of_ne_of_mem hne hmem', hbx⟩
          have hne : ∀ {x : α} {l : List α}, (a :: l).Pairwise r → x ∈ l → x ≠ a := by
            rintro x l hl hx rfl
            exact hasymm x x (List.rel_of_pairwise_cons hl hx) (List.rel_of_pairwise_cons hl hx)
          rw [List.take_succ_cons, List.take_succ_cons]
          refine congrArg _ (ih hl.of_cons hl'.of_cons (fun x hx y hy => htotal x
            (List.mem_cons_of_mem _ hx) y (List.mem_cons_of_mem _ hy)) ⟨fun x hx hx' => ?_,
              fun x hx hx' => ?_⟩)
          · refine hstep (hne hl hx) (h x (List.mem_cons_of_mem _ hx) fun hmem => ?_)
            exact hx' (List.mem_of_ne_of_mem (hne hl hx) hmem)
          · refine hstep (hne hl' hx) (h' x (List.mem_cons_of_mem _ hx) fun hmem => ?_)
            exact hx' (List.mem_of_ne_of_mem (hne hl' hx) hmem)
        · have := (h' b List.mem_cons_self (hbefore hba hl)).symm
          exact absurd this (not_beyond_head hasymm hl')

end FirstRows

end Keyset
