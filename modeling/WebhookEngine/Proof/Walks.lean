import Mathlib.Tactic.Ring
import WebhookEngine.Proof.Listing

set_option autoImplicit false

/-!
# Complete walks

A client follows `next_cursor` from page to page while the deliveries change.

* `sampleRuntime`: a runtime that does what is documented.
* **`walk_complete_iff`**: a walk loses nothing and repeats nothing if and only if no delivery lies
  between the last one of a page and the place where the next page starts, which is that delivery with
  its microseconds cut off.
* `walk_ends`: over tables that stay as they are a walk comes to an end.
* **`walk_loses`**: two deliveries of one millisecond, on pages of one.
-/

namespace WebhookEngine

variable {rt : Runtime} {filters : DeliveryListFilters} {limit : ℕ} {σ : Snapshot}

/-! ## A runtime -/

/-- The value of hexadecimal digits after those read before; other characters are passed over. -/
def hexValue (acc : ℕ) (c : Char) : ℕ :=
  if c = '-' then acc else acc * 16 + if c.toNat < 58 then c.toNat - 48 else c.toNat - 87

theorem toNat_hexDigit : ∀ v < 16, hexDigit v ≠ '-' ∧
    (if (hexDigit v).toNat < 58 then (hexDigit v).toNat - 48 else (hexDigit v).toNat - 87) = v := by
  decide

theorem hexValue_hexDigit {v : ℕ} (hv : v < 16) (acc : ℕ) :
    hexValue acc (hexDigit v) = acc * 16 + v := by
  obtain ⟨hne, hval⟩ := toNat_hexDigit v hv
  rw [hexValue, if_neg hne, hval]

theorem foldl_hex (n v acc : ℕ) :
    (hex n v).foldl hexValue acc = acc * 16 ^ n + v % 16 ^ n := by
  induction n generalizing v with
  | zero => simp [hex, Nat.mod_one]
  | succ n ih =>
    rw [hex, List.foldl_append, ih, List.foldl_cons, List.foldl_nil,
      hexValue_hexDigit (Nat.mod_lt _ (by decide)), Nat.pow_succ', Nat.mod_mul]
    ring

theorem foldl_hexGroups (ns : List ℕ) (v acc : ℕ) :
    (hexGroups ns v).foldl hexValue acc = acc * 16 ^ ns.sum + v % 16 ^ ns.sum := by
  induction ns generalizing v acc with
  | nil => simp [hexGroups, Nat.mod_one]
  | cons n ns ih =>
    cases ns with
    | nil => simpa [hexGroups] using foldl_hex n v acc
    | cons m ns =>
      have hcons : hexGroups (n :: m :: ns) v =
          hex n (v / 16 ^ (m :: ns).sum) ++ '-' :: hexGroups (m :: ns) v := rfl
      have hdash : ∀ a, hexValue a '-' = a := fun _ => rfl
      have hsum : (n :: m :: ns).sum = (m :: ns).sum + n := List.sum_cons.trans (Nat.add_comm _ _)
      rw [hcons, List.foldl_append, foldl_hex, List.foldl_cons, hdash, ih, hsum, Nat.pow_add,
        Nat.mod_mul]
      ring

theorem length_hexGroups (u : Uuid) : u.text.toList.length = 36 := by
  rw [Uuid.text, String.toList_ofList]
  simp only [hexGroups, List.length_append, List.length_cons, length_hex]

/-- Midnight of 15 June 2026. -/
def sampleDate : JsDate := 1781481600000

def sampleIso : String := "2026-06-15T00:00:00.000Z"

/-- The timestamp of the sample; other dates since the year 1 are told apart by the length of their
text. -/
def sampleToISOString (d : JsDate) : String :=
  if d = sampleDate then sampleIso
  else String.ofList (List.replicate (d + 62135596800001).toNat '1')

def sampleNewDate (s : String) : Option JsDate :=
  if s = sampleIso then some sampleDate
  else if s ≠ "" ∧ s.toList.all (· = '1') then some ((s.toList.length : ℤ) - 62135596800001)
  else none

theorem replicate_ne_sampleIso (n : ℕ) : String.ofList (List.replicate n '1') ≠ sampleIso := by
  intro h
  have hmem : '2' ∈ sampleIso.toList := by decide
  rw [← h, String.toList_ofList] at hmem
  exact absurd (List.eq_of_mem_replicate hmem) (by decide)

theorem sampleNewDate_replicate (n : ℕ) : sampleNewDate (String.ofList (List.replicate n '1')) =
    if n = 0 then none else some ((n : ℤ) - 62135596800001) := by
  rw [sampleNewDate, if_neg (replicate_ne_sampleIso n), String.toList_ofList, List.length_replicate]
  cases n with
  | zero => rfl
  | succ n =>
    rw [if_pos, if_neg (Nat.succ_ne_zero n)]
    refine ⟨fun h => ?_, by simp⟩
    have := congrArg String.toList h
    rw [String.toList_ofList] at this
    cases this

theorem sampleNewDate_iso_eq (d : JsDate) : sampleNewDate (sampleToISOString d) =
    if d = sampleDate ∨ -62135596800000 ≤ d then some d else none := by
  unfold sampleToISOString
  split
  · rename_i hd
    rw [hd]
    rfl
  · rename_i hd
    rw [sampleNewDate_replicate]
    by_cases hlow : -62135596800000 ≤ d
    · have hn : (d + 62135596800001).toNat ≠ 0 := by
        change (-62135596800000 : ℤ) ≤ d at hlow
        omega
      rw [if_neg hn, if_pos (Or.inr hlow)]
      refine congrArg some ?_
      change (-62135596800000 : ℤ) ≤ d at hlow
      omega
    · have hn : (d + 62135596800001).toNat = 0 := by
        change ¬ (-62135596800000 : ℤ) ≤ d at hlow
        omega
      rw [if_pos hn, if_neg fun h => h.elim hd hlow]

theorem sampleNewDate_iso (d : JsDate) (h : d.Plain) :
    sampleNewDate (sampleToISOString d) = some d := by
  rw [sampleNewDate_iso_eq, if_pos (Or.inr h.1)]

/-- An ISO text is read as its date or not at all. -/
theorem eq_of_sampleNewDate (d d' : JsDate) (h : sampleNewDate (sampleToISOString d) = some d') :
    d' = d := by
  rw [sampleNewDate_iso_eq] at h
  split at h
  · exact (Option.some_inj.mp h).symm
  · cases h

def jsonOpen : List Char := "\x7b\"updatedAt\":\"".toList

def jsonMiddle : List Char := "\",\"id\":\"".toList

def jsonClose : List Char := "\"\x7d".toList

/-- `JSON.stringify`, for strings that need no escapes. -/
def sampleStringify (c : Cursor) : String :=
  String.ofList (jsonOpen ++ (c.updatedAt.toList ++ (jsonMiddle ++ (c.id.toList ++ jsonClose))))

/-- The strings in a text of this form, if the second one is as long as a uuid. -/
def stringsOf (l : List Char) : Cursor :=
  ⟨String.ofList ((l.drop 14).take (l.length - 60)),
    String.ofList ((l.drop (14 + (l.length - 60) + 8)).take 36)⟩

def sampleParse (s : String) : Option (Option Cursor) :=
  if sampleStringify (stringsOf s.toList) = s then some (some (stringsOf s.toList)) else none

theorem stringsOf_append {c : Cursor} {l m r : List Char} (hl : l.length = 14) (hm : m.length = 8)
    (hr : r.length = 2) (h : c.id.toList.length = 36) :
    stringsOf (l ++ (c.updatedAt.toList ++ (m ++ (c.id.toList ++ r)))) = c := by
  have hlen : (l ++ (c.updatedAt.toList ++ (m ++ (c.id.toList ++ r)))).length - 60 =
      c.updatedAt.toList.length := by
    simp only [List.length_append, hl, hm, hr, h]
    omega
  have hskip : (l ++ (c.updatedAt.toList ++ m)).length = 14 + c.updatedAt.toList.length + 8 := by
    simp only [List.length_append, hl, hm]
    omega
  have hat : (l ++ (c.updatedAt.toList ++ (m ++ (c.id.toList ++ r)))).drop 14 =
      c.updatedAt.toList ++ (m ++ (c.id.toList ++ r)) := List.drop_left' hl
  have hid : (l ++ (c.updatedAt.toList ++ (m ++ (c.id.toList ++ r)))).drop
      (14 + c.updatedAt.toList.length + 8) = c.id.toList ++ r := by
    have happ : l ++ (c.updatedAt.toList ++ (m ++ (c.id.toList ++ r))) =
        (l ++ (c.updatedAt.toList ++ m)) ++ (c.id.toList ++ r) := by
      simp only [List.append_assoc]
    rw [happ, List.drop_left' hskip]
  rw [stringsOf, hlen, hat, hid, List.take_left' rfl, List.take_left' h, String.ofList_toList,
    String.ofList_toList]

theorem sampleParse_stringify (c : Cursor) (h : c.id.toList.length = 36) :
    sampleParse (sampleStringify c) = some (some c) := by
  have hc : stringsOf (sampleStringify c).toList = c := by
    rw [sampleStringify, String.toList_ofList]
    exact stringsOf_append (by rfl) (by rfl) (by rfl) h
  rw [sampleParse, hc, if_pos rfl]

/-- base64url of the cursor of the sample; other texts are only marked. -/
def sampleToBase64url (s : String) : String :=
  if s = sampleStringify ⟨sampleIso, Uuid.text 1⟩ then
    "eyJ1cGRhdGVkQXQiOiIyMDI2LTA2LTE1VDAwOjAwOjAwLjAwMFoiLCJpZCI6IjAwMDAwMDAwLTAwMDAtMDAwMC0wMDAwLTAwMDAwMDAwMDAwMSJ9"
  else String.ofList ('.' :: s.toList)

def sampleOfBase64url (s : String) : String :=
  if s = sampleToBase64url (sampleStringify ⟨sampleIso, Uuid.text 1⟩) then
    sampleStringify ⟨sampleIso, Uuid.text 1⟩
  else String.ofList s.toList.tail

theorem sampleOfBase64url_to (s : String) : sampleOfBase64url (sampleToBase64url s) = s := by
  unfold sampleOfBase64url
  by_cases hs : s = sampleStringify ⟨sampleIso, Uuid.text 1⟩
  · rw [hs, if_pos rfl]
  · have hdot : sampleToBase64url s = String.ofList ('.' :: s.toList) := if_neg hs
    rw [hdot, sampleToBase64url, if_pos rfl, if_neg, String.toList_ofList, List.tail_cons,
      String.ofList_toList]
    intro h
    have := congrArg (fun s : String => s.toList.head?) h
    rw [String.toList_ofList] at this
    cases this

/-- The uuid with this number. -/
def Uuid.ofNat (n : ℕ) : Uuid := ⟨n % 2 ^ 128, Nat.mod_lt n (by decide)⟩

/-- The uuid with these digits. -/
def sampleUuid (s : String) : Option Uuid :=
  if h : s.toList.foldl hexValue 0 < 2 ^ 128 then some ⟨_, h⟩ else none

theorem value_text (u : Uuid) : u.text.toList.foldl hexValue 0 = u.val := by
  have hlt : u.val < 16 ^ [8, 4, 4, 4, 12].sum := u.isLt.trans_le (by decide)
  rw [Uuid.text, String.toList_ofList, foldl_hexGroups, Nat.zero_mul, Nat.zero_add,
    Nat.mod_eq_of_lt hlt]

theorem uuid_of_value (u : Uuid) (n : ℕ) (h : n = u.val) :
    (if h : n < 2 ^ 128 then some (⟨n, h⟩ : Uuid) else none) = some u := by
  subst h
  exact dif_pos u.isLt

theorem sampleUuid_text (u : Uuid) : sampleUuid u.text = some u := uuid_of_value u _ (value_text u)

theorem sampleParse_text (d : JsDate) (u : Uuid) :
    sampleParse (sampleOfBase64url (sampleToBase64url (sampleStringify
      ⟨sampleToISOString d, u.text⟩))) = some (some ⟨sampleToISOString d, u.text⟩) := by
  rw [sampleOfBase64url_to]
  exact sampleParse_stringify ⟨_, _⟩ (length_hexGroups u)

theorem sampleToBase64url_ne_empty (c : Cursor) : sampleToBase64url (sampleStringify c) ≠ "" := by
  unfold sampleToBase64url
  split
  · decide
  · intro h
    have := congrArg String.toList h
    rw [String.toList_ofList] at this
    cases this

/-- **A runtime** that does what is documented, on the cursor of the sample as the real one does. -/
def sampleRuntime : Runtime where
  toISOString := sampleToISOString
  newDate := sampleNewDate
  timestamptz s := (sampleNewDate s).map JsDate.toMicros
  dateTimestamptz d := some d.toMicros
  uuid := sampleUuid
  stringify := sampleStringify
  parse := sampleParse
  toBase64url := sampleToBase64url
  ofBase64url := sampleOfBase64url
  newDate_iso := sampleNewDate_iso
  timestamptz_iso d h := congrArg (Option.map JsDate.toMicros) (sampleNewDate_iso d h)
  timestamptz_of_iso d τ h := by
    obtain ⟨d', hd', rfl⟩ := Option.map_eq_some_iff.mp h
    rw [eq_of_sampleNewDate d d' hd']
  dateTimestamptz_plain _ _ := rfl
  uuid_text := sampleUuid_text
  parse_stringify d u _ := sampleParse_text d u
  toBase64url_ne_empty := sampleToBase64url_ne_empty

/-! ## Two deliveries of one millisecond -/

/-- A delivery in DLQ, updated some microseconds after the date of the sample. -/
def sampleRow (id : Uuid) (τ : Micros) : Snapshot.Delivery where
  id := id
  eventId := id
  endpointId := 0
  status := .dlq
  attemptCount := 5
  nextAttemptAt := none
  createdAt := sampleDate.toMicros
  updatedAt := sampleDate.toMicros + τ

def sampleSnapshot : Snapshot where
  deliveries := [sampleRow 1 500, sampleRow 2 200]
  events := [⟨1, "type"⟩, ⟨2, "type"⟩]
  transitions := [⟨1, 2, .dlq, sampleDate.toMicros⟩, ⟨2, 1, .dlq, sampleDate.toMicros⟩]
  ids := by decide
  eventIds := by decide
  eventRef := by decide
  entered := by decide
  plain := by unfold JsDate.Plain; decide

theorem below_sample : Snapshot.order.below none sampleSnapshot.deliveries =
    [sampleRow 1 500, sampleRow 2 200] := by decide

theorem below_sample_next : Snapshot.order.below (some (sampleRow 1 500).place)
    sampleSnapshot.deliveries = [] := by decide

theorem matching_sample : matching rt {} sampleSnapshot = sampleSnapshot.deliveries := by
  change sampleSnapshot.deliveries.filter (DeliveryListFilters.accepts {} none none) = _
  decide

theorem inDlq_sample : inDlq sampleSnapshot = sampleSnapshot.deliveries := by decide

/-! ## Walks -/

theorem bounds_of_answer {tables : List Snapshot} {pages : List (List DeliveryListRow)}
    (h : Walk (getDeliveries rt filters limit) none tables pages) :
    ∃ from_ to_, bound rt filters.fromDate = .ok from_ ∧ bound rt filters.toDate = .ok to_ := by
  have hpage : ∃ σ x, getDeliveries rt filters limit none σ = .ok x := by
    cases h with
    | last h => exact ⟨_, _, h⟩
    | more h hw => exact ⟨_, _, h⟩
  obtain ⟨σ, x, hx⟩ := hpage
  obtain ⟨c, -, hx⟩ := ok_of_bind hx
  obtain ⟨⟨rows, more⟩, hlist, -⟩ := ok_of_bind hx
  obtain ⟨from_, to_, -, hfrom, hto, -⟩ := of_list hlist
  exact ⟨from_, to_, hfrom, hto⟩

theorem nodup_matching (σ : Snapshot) : ((matching rt filters σ).map Snapshot.order.id).Nodup :=
  σ.ids.sublist (matching_sublist.map _)

theorem nodup_inDlq (σ : Snapshot) : ((inDlq σ).map Snapshot.order.id).Nodup :=
  σ.ids.sublist (inDlq_sublist.map _)

/-- The delivery matches the filter and is not modified during the walk. -/
def Unmodified (rows : Snapshot → List Snapshot.Delivery) (tables : List Snapshot)
    (r : Snapshot.Delivery) : Prop := ∀ σ ∈ tables, r ∈ rows σ

/-- **When a walk is complete**, for both listings. -/
theorem walk_complete_iff (hlimit : 0 < limit) :
    (∀ filters tables pages, Walk (getDeliveries rt filters limit) none tables pages →
      (Snapshot.order.Complete (matching rt filters) tables (pages.flatten.map (·.id)) ↔
        ∀ r, Unmodified (matching rt filters) tables r →
          ∀ z ∈ Snapshot.order.ends limit (matching rt filters) none tables,
            ¬ Snapshot.order.Gap z r)) ∧
    ∀ tables pages, Walk (getDlq rt limit) none tables pages →
      (Snapshot.order.Complete inDlq tables (pages.flatten.map (·.id)) ↔
        ∀ r, Unmodified inDlq tables r →
          ∀ z ∈ Snapshot.order.ends limit inDlq none tables, ¬ Snapshot.order.Gap z r) := by
  refine ⟨fun filters tables pages hw => ?_, fun tables pages hw => ?_⟩
  · obtain ⟨from_, to_, hfrom, hto⟩ := bounds_of_answer hw
    exact (serves_deliveries hfrom hto).complete_iff hlimit nodup_matching (fun _ _ => rfl) hw
  · exact serves_dlq.complete_iff hlimit nodup_inDlq (fun _ _ => rfl) hw

/-- Two deliveries of different milliseconds, and perhaps a third that is updated later. -/
def spacedSnapshot (late : Bool) : Snapshot where
  deliveries := sampleRow 1 1500 :: sampleRow 2 200 :: if late then [sampleRow 3 2500] else []
  events := [⟨1, "type"⟩, ⟨2, "type"⟩, ⟨3, "type"⟩]
  transitions := [⟨1, 2, .dlq, sampleDate.toMicros⟩, ⟨2, 1, .dlq, sampleDate.toMicros⟩,
    ⟨3, 3, .dlq, sampleDate.toMicros⟩]
  ids := by cases late <;> decide
  eventIds := by decide
  eventRef := by cases late <;> decide
  entered := by cases late <;> decide
  plain := by cases late <;> unfold JsDate.Plain <;> decide

theorem matching_spaced (late : Bool) :
    matching rt {} (spacedSnapshot late) = (spacedSnapshot late).deliveries := by
  change (spacedSnapshot late).deliveries.filter (DeliveryListFilters.accepts {} none none) = _
  cases late <;> decide

/-- Two pages of one delivery each are the whole listing; a third delivery has come in between. -/
theorem walk_complete_iff_two : 0 < 1 ∧ Snapshot.order.Complete (matching sampleRuntime {})
    [spacedSnapshot false, spacedSnapshot true] [1, 2] := by
  refine ⟨by decide, ?_⟩
  have hs := @serves_deliveries sampleRuntime {} 1 none none rfl rfl
  have hfirst : sampleRow 1 1500 ∈ matching sampleRuntime {} (spacedSnapshot false) := by
    rw [matching_spaced]
    decide
  have hw : Walk (getDeliveries sampleRuntime {} 1) none [spacedSnapshot false, spacedSnapshot true]
      [[(sampleRow 1 1500).row ((spacedSnapshot false).eventOf (sampleRow 1 1500))],
        [(sampleRow 2 200).row ((spacedSnapshot true).eventOf (sampleRow 2 200))]] := by
    refine .more (?_ : _ = Except.ok (_, some (cursorAfter sampleRuntime (sampleRow 1 1500))))
      (.last ?_)
    · rw [hs.first, Keyset.answer, matching_spaced]
      rfl
    · rw [hs.next _ _ hfirst, Keyset.answer, matching_spaced]
      rfl
  refine ((@walk_complete_iff sampleRuntime 1 (by decide)).1 {} _ _ hw).mpr fun r hr z hz => ?_
  have hr := hr (spacedSnapshot false) List.mem_cons_self
  simp only [Keyset.ends, matching_spaced] at hr hz
  change z ∈ [sampleRow 1 1500] at hz
  rw [List.mem_singleton.mp hz]
  have hgap : ∀ r ∈ [sampleRow 1 1500, sampleRow 2 200],
      ¬ Snapshot.order.Gap (sampleRow 1 1500) r := by
    unfold Keyset.Gap
    decide
  exact hgap r hr

/-- **Over tables that stay as they are a walk comes to its end.** -/
theorem walk_ends (hlimit : 0 < limit) {from_ to_ : Option Micros}
    (hfrom : bound rt filters.fromDate = .ok from_) (hto : bound rt filters.toDate = .ok to_)
    (σ : Snapshot) :
    (∃ n pages, Walk (getDeliveries rt filters limit) none (List.replicate n σ) pages) ∧
      ∃ n pages, Walk (getDlq rt limit) none (List.replicate n σ) pages :=
  ⟨(serves_deliveries hfrom hto).exists_walk hlimit σ, serves_dlq.exists_walk hlimit σ⟩

/-- A listing of the two with pages of one ends after the first. -/
theorem walk_sample {ρ : Type}
    {get : Option String → Snapshot → Except Err (List ρ × Option String)}
    {rows : Snapshot → List Snapshot.Delivery} {row : Snapshot → Snapshot.Delivery → ρ}
    {cursor : Snapshot.Delivery → String} (hs : Snapshot.order.Serves get rows row cursor 1)
    (hrows : rows sampleSnapshot = sampleSnapshot.deliveries) :
    Walk get none [sampleSnapshot, sampleSnapshot] [[row sampleSnapshot (sampleRow 1 500)], []] := by
  refine .more (?_ : get none sampleSnapshot = .ok ([row sampleSnapshot (sampleRow 1 500)],
      some (cursor (sampleRow 1 500)))) (.last ?_)
  · rw [hs.first, Keyset.answer, hrows, below_sample]
    rfl
  · rw [hs.next sampleSnapshot _ (hrows ▸ List.mem_cons_self), Keyset.answer, hrows]
    have hplace : Snapshot.order.place (sampleRow 1 500) = (sampleRow 1 500).place := rfl
    rw [hplace, below_sample_next]
    rfl

/-- **The walk loses a delivery**: updated in the millisecond of the one before it, it is on neither
page. -/
theorem walk_loses :
    (¬ ∀ (rt : Runtime) filters limit tables pages, 1 ≤ limit → limit ≤ 200 →
      Walk (getDeliveries rt filters limit) none tables pages →
        Snapshot.order.Complete (matching rt filters) tables (pages.flatten.map (·.id))) ∧
    ¬ ∀ (rt : Runtime) limit tables pages, 1 ≤ limit → limit ≤ 200 →
      Walk (getDlq rt limit) none tables pages →
        Snapshot.order.Complete inDlq tables (pages.flatten.map (·.id)) := by
  have hlost : ∀ rows : Snapshot → List Snapshot.Delivery,
      rows sampleSnapshot = sampleSnapshot.deliveries →
        ¬ Snapshot.order.Complete rows [sampleSnapshot, sampleSnapshot] [(1 : Uuid)] := by
    intro rows hrows h
    have hcount := h.once (sampleRow 2 200) fun σ hσ => by
      obtain rfl : σ = sampleSnapshot := by simpa using hσ
      rw [hrows]
      exact List.mem_cons_of_mem _ (List.mem_singleton_self _)
    revert hcount
    decide
  refine ⟨fun h => ?_, fun h => ?_⟩
  · have hw := walk_sample
      (@serves_deliveries sampleRuntime {} 1 none none rfl rfl) matching_sample
    exact hlost _ matching_sample (h _ _ 1 _ _ le_rfl (by decide) hw)
  · have hw := walk_sample (@serves_dlq sampleRuntime 1) inDlq_sample
    exact hlost _ inDlq_sample (h _ 1 _ _ le_rfl (by decide) hw)

end WebhookEngine
