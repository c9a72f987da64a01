import Mathlib.Algebra.GroupWithZero.Nat
import Mathlib.Data.List.Dedup
import Mathlib.Data.List.Nodup

set_option autoImplicit false

/-!
# Tables as lists

A table is a list of rows with a key; `find?` by key reads it, `map` with a test on the key updates
it, and appending inserts.

* `find?_update`: reading after an update;
* `find?_append_single`: reading after an insert;
* `find?_eq_of_mem`: with distinct keys every row is found under its key.
-/

namespace Table

variable {K α : Type} [DecidableEq K] (key : α → K)

/-- **Reading after an update** that keeps the key. -/
theorem find?_update (rows : List α) {f : α → α} (hf : ∀ r, key (f r) = key r) (k x : K) :
    (rows.map fun r => if key r = k then f r else r).find? (fun r => key r = x) =
      if x = k then (rows.find? fun r => key r = x).map f
      else rows.find? fun r => key r = x := by
  induction rows with
  | nil => simp
  | cons r rows ih =>
    by_cases hk : key r = k
    · by_cases hx : k = x
      · subst hx
        simp [hk, hf]
      · have hx' : x ≠ k := fun h => hx h.symm
        simp [hk, hf, hx, hx', ih]
    · by_cases hx : key r = x
      · have : x ≠ k := fun h => hk (hx.trans h)
        simp [hx, this]
      · simp [hk, hx, ih]

theorem map_key_update (rows : List α) {f : α → α} (hf : ∀ r, key (f r) = key r) (k : K) :
    (rows.map fun r => if key r = k then f r else r).map key = rows.map key := by
  rw [List.map_map]
  refine List.map_congr_left fun r _ => ?_
  by_cases h : key r = k <;> simp [h, hf]

/-- **Reading after an insert.** -/
theorem find?_append_single (rows : List α) (r : α) (x : K) :
    (rows ++ [r]).find? (fun r => key r = x) =
      (rows.find? fun r => key r = x).or (if key r = x then some r else none) := by
  rw [List.find?_append]
  congr 1
  by_cases h : key r = x <;> simp [h]

theorem find?_key {rows : List α} {x : K} {r : α} (h : (rows.find? fun r => key r = x) = some r) :
    key r = x := by
  simpa using List.find?_some h

theorem find?_isSome_iff {rows : List α} {x : K} :
    (rows.find? fun r => key r = x).isSome ↔ ∃ r ∈ rows, key r = x := by
  simp [List.find?_isSome]

theorem find?_none_iff {rows : List α} {x : K} :
    (rows.find? fun r => key r = x) = none ↔ x ∉ rows.map key := by
  simp [List.find?_eq_none]

theorem countP_key [BEq K] [LawfulBEq K] (rows : List α) (x : K) :
    rows.countP (fun r => key r = x) = (rows.map key).count x := by
  rw [List.count, List.countP_map]
  exact List.countP_congr fun r _ => by simp

/-- With distinct keys a row is found under its key. -/
theorem find?_eq_of_mem {rows : List α} (hn : (rows.map key).Nodup) {r : α} (hr : r ∈ rows) :
    (rows.find? fun r' => key r' = key r) = some r := by
  cases h : rows.find? fun r' => key r' = key r with
  | none => exact absurd (List.mem_map_of_mem hr) ((find?_none_iff key).mp h)
  | some r' =>
    have hmem : r' ∈ rows := List.mem_of_find?_eq_some h
    rw [List.inj_on_of_nodup_map hn hmem hr (find?_key key h)]

theorem filter_key {rows : List α} (hn : (rows.map key).Nodup) {r : α} (hr : r ∈ rows) :
    (rows.filter fun r' => key r' = key r) = [r] := by
  obtain ⟨l₁, l₂, rfl⟩ := List.append_of_mem hr
  rw [List.map_append, List.map_cons, List.nodup_append] at hn
  obtain ⟨-, hn₂, hn₁⟩ := hn
  have h₁ : (l₁.filter fun r' => key r' = key r) = [] := by
    refine List.filter_eq_nil_iff.mpr fun r' hr' => ?_
    simpa using hn₁ (key r') (List.mem_map_of_mem hr') (key r) List.mem_cons_self
  have h₂ : (l₂.filter fun r' => key r' = key r) = [] := by
    refine List.filter_eq_nil_iff.mpr fun r' hr' h => (List.nodup_cons.mp hn₂).1 ?_
    rw [← of_decide_eq_true h]
    exact List.mem_map_of_mem hr'
  rw [List.filter_append, List.filter_cons, h₁, h₂]
  simp

omit [DecidableEq K] in
theorem nodup_map_append_single {rows : List α} (hn : (rows.map key).Nodup) {r : α}
    (hr : key r ∉ rows.map key) : ((rows ++ [r]).map key).Nodup := by
  rw [List.map_append, List.nodup_append]
  refine ⟨hn, by simp, ?_⟩
  intro a ha b hb
  have : b = key r := by simpa using hb
  rw [this]
  exact fun h => hr (h ▸ ha)

theorem countP_extends {α : Type} (p : α → Bool) {l l' : List α} (hlen : l.length ≤ l'.length)
    (hold : ∀ (i : ℕ) (x y : α), l[i]? = some x → l'[i]? = some y → p y = p x)
    (hnew : ∀ (i : ℕ) (y : α), l.length ≤ i → l'[i]? = some y → p y = false) :
    l'.countP p = l.countP p := by
  induction l generalizing l' with
  | nil =>
    rw [List.countP_nil, List.countP_eq_zero]
    intro y hy
    obtain ⟨i, hi⟩ := List.mem_iff_getElem?.mp hy
    rw [hnew i y (Nat.zero_le i) hi]
    exact Bool.false_ne_true
  | cons x l ih =>
    cases l' with
    | nil => simp at hlen
    | cons y l' =>
      have hrest : l'.countP p = l.countP p := ih (Nat.le_of_succ_le_succ hlen)
        (fun i x' y' hx hy => hold (i + 1) x' y' hx hy)
        fun i y' hi hy => hnew (i + 1) y' (Nat.succ_le_succ hi) hy
      rw [List.countP_cons, List.countP_cons, hrest, hold 0 x y rfl rfl]

theorem countP_set_add {α : Type} (p : α → Bool) {l : List α} {i : ℕ} {x : α} (h : l[i]? = some x)
    (y : α) : (l.set i y).countP p + (p x).toNat = l.countP p + (p y).toNat := by
  induction l generalizing i with
  | nil => cases h
  | cons z l ih =>
    cases i with
    | zero =>
      cases h
      rw [List.set_cons_zero, List.countP_cons, List.countP_cons]
      cases p x <;> cases p y <;> simp
    | succ i =>
      have := ih (i := i) h
      rw [List.set_cons_succ, List.countP_cons, List.countP_cons]
      omega

theorem countP_zipIdx_extends {α : Type} (p : α × ℕ → Bool) {l l' : List α}
    (hlen : l.length ≤ l'.length)
    (hold : ∀ (i : ℕ) (x y : α), l[i]? = some x → l'[i]? = some y → p (y, i) = p (x, i))
    (hnew : ∀ (i : ℕ) (y : α), l.length ≤ i → l'[i]? = some y → p (y, i) = false) :
    l'.zipIdx.countP p = l.zipIdx.countP p := by
  have hplace : ∀ {m : List α} {i : ℕ} {a : α × ℕ}, m.zipIdx[i]? = some a →
      ∃ x, m[i]? = some x ∧ a = (x, i) := by
    intro m i a h
    rw [List.getElem?_zipIdx, Nat.zero_add] at h
    obtain ⟨x, hx, rfl⟩ := Option.map_eq_some_iff.mp h
    exact ⟨x, hx, rfl⟩
  refine countP_extends p (by simpa using hlen) (fun i a b ha hb => ?_) fun i b hi hb => ?_
  · obtain ⟨x, hx, rfl⟩ := hplace ha
    obtain ⟨y, hy, rfl⟩ := hplace hb
    exact hold i x y hx hy
  · obtain ⟨y, hy, rfl⟩ := hplace hb
    rw [List.length_zipIdx] at hi
    exact hnew i y hi hy

theorem zipIdx_set {α : Type} (l : List α) (i : ℕ) (y : α) :
    (l.set i y).zipIdx = l.zipIdx.set i (y, i) := by
  refine List.ext_getElem? fun j => ?_
  by_cases hij : i = j
  · subst hij
    by_cases hi : i < l.length <;> simp [hi]
  · simp [List.getElem?_set_ne hij]

theorem countP_zipIdx_set_add {α : Type} (p : α × ℕ → Bool) {l : List α} {i : ℕ} {x : α}
    (h : l[i]? = some x) (y : α) :
    (l.set i y).zipIdx.countP p + (p (x, i)).toNat = l.zipIdx.countP p + (p (y, i)).toNat := by
  rw [zipIdx_set]
  refine countP_set_add p ?_ _
  rw [List.getElem?_zipIdx, h, Nat.zero_add]
  rfl

/-- When every key that occurs has one marked entry, there are as many marked entries as keys. -/
theorem countP_marked {α β : Type} [DecidableEq β] (f : α → Option β) (p : α → Bool) {l : List α}
    (h : ∀ b ∈ l.filterMap f, l.countP (fun a => f a = some b ∧ p a = true) = 1) :
    l.countP (fun a => (f a).isSome ∧ p a = true) = (l.filterMap f).dedup.length := by
  let g : α → Option β := fun a => if p a then f a else none
  have hcount : ∀ b, (l.filterMap g).count b = l.countP fun a => f a = some b ∧ p a = true := by
    intro b
    rw [List.count_filterMap]
    refine List.countP_congr fun a _ => ?_
    by_cases hp : p a <;> simp [g, hp]
  have hmem : ∀ b, b ∈ l.filterMap g ↔ b ∈ l.filterMap f := by
    intro b
    constructor
    · intro hb
      obtain ⟨a, ha, hg⟩ := List.mem_filterMap.mp hb
      exact List.mem_filterMap.mpr ⟨a, ha, (Option.ite_none_right_eq_some.mp hg).2⟩
    · intro hb
      rw [← List.count_pos_iff, hcount, h b hb]
      exact Nat.one_pos
  have hnodup : (l.filterMap g).Nodup := by
    rw [List.nodup_iff_count_le_one]
    intro b
    by_cases hb : b ∈ l.filterMap g
    · exact Nat.le_of_eq ((hcount b).trans (h b ((hmem b).mp hb)))
    · rw [List.count_eq_zero_of_not_mem hb]
      exact Nat.zero_le 1
  have hperm : (l.filterMap g).Perm (l.filterMap f).dedup :=
    (List.perm_ext_iff_of_nodup hnodup (List.nodup_dedup _)).mpr fun b => by
      rw [hmem, List.mem_dedup]
  rw [← hperm.length_eq, List.length_filterMap_eq_countP]
  refine List.countP_congr fun a _ => ?_
  by_cases hp : p a <;> simp [g, hp]

/-- A sum over the entries of a kind counts those that weigh one, when the others weigh nothing. -/
theorem sum_filter_toNat {α : Type} (q p : α → Bool) (f : α → ℕ) {l : List α}
    (h : ∀ a ∈ l, q a = true → f a = (p a).toNat) :
    ((l.filter q).map f).sum = l.countP fun a => q a && p a := by
  induction l with
  | nil => rfl
  | cons a l ih =>
    have hrest := ih fun b hb => h b (List.mem_cons_of_mem a hb)
    rw [List.countP_cons]
    by_cases hq : q a = true
    · rw [List.filter_cons_of_pos hq, List.map_cons, List.sum_cons, hrest,
        h a List.mem_cons_self hq, Nat.add_comm]
      cases p a <;> simp [hq]
    · rw [List.filter_cons_of_neg hq, hrest]
      simp [hq]

end Table
