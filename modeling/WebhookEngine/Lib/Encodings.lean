import Mathlib.Data.List.Basic
import Mathlib.Data.Nat.Log
import Mathlib.Tactic.IntervalCases

set_option autoImplicit false

/-!
# Texts of numbers and bytes

* `nearest`, `IntNumber`: the integers among the numbers with a significand of 53 bits.
* `shortest`, `showInt`: how JavaScript prints one: the fewest digits that read back as it, in
  exponential form from `10 ^ 21` on.
* **`showInt_injective`**: below `10 ^ 21` different numbers have different texts, without a point.
* `hexEncode`, `hexDecode`, **`hexDecode_hexEncode`**: bytes in hexadecimal digits.
* **`append_separator_inj`**: a separator that is not in the texts before it can be found again.
-/

namespace Encodings

/-! ## Numbers -/

/-- The integer with a significand of 53 bits nearest to `v`, ties to even. -/
def nearest (v : ℕ) : ℕ :=
  let unit := 2 ^ (Nat.log2 v - 52)
  let q := v / unit
  let r := v % unit
  if 2 * r < unit ∨ 2 * r = unit ∧ q % 2 = 0 then q * unit else (q + 1) * unit

theorem log2_lt_of_lt {v : ℕ} (h : v < 2 ^ 53) : Nat.log2 v < 53 := by
  by_cases h0 : v = 0
  · subst h0
    decide
  · exact (Nat.log2_lt h0).mpr h

theorem nearest_of_lt {v : ℕ} (h : v < 2 ^ 53) : nearest v = v := by
  have hlog : Nat.log2 v - 52 = 0 := by
    have := log2_lt_of_lt h
    omega
  simp [nearest, hlog, Nat.mod_one]

theorem le_nearest {v : ℕ} (h : 2 ^ 53 ≤ v) : 2 ^ 53 ≤ nearest v := by
  have h0 : v ≠ 0 := by
    rintro rfl
    exact absurd h (by decide)
  have hlog : 53 ≤ Nat.log2 v := (Nat.le_log2 h0).mpr h
  have hlow : 2 ^ 53 ≤ v / 2 ^ (Nat.log2 v - 52) * 2 ^ (Nat.log2 v - 52) := by
    have hq : 2 ^ 52 ≤ v / 2 ^ (Nat.log2 v - 52) := by
      rw [Nat.le_div_iff_mul_le (Nat.two_pow_pos _), ← Nat.pow_add,
        show 52 + (Nat.log2 v - 52) = Nat.log2 v by omega]
      exact Nat.log2_self_le h0
    calc 2 ^ 53 = 2 ^ 52 * 2 ^ 1 := rfl
      _ ≤ v / 2 ^ (Nat.log2 v - 52) * 2 ^ (Nat.log2 v - 52) :=
        Nat.mul_le_mul hq (Nat.pow_le_pow_right (by decide) (by omega))
  unfold nearest
  dsimp only
  split
  · exact hlow
  · exact hlow.trans (Nat.mul_le_mul_right _ (Nat.le_succ _))

/-- **An integer that is a number.** -/
structure IntNumber where
  val : ℤ
  exact : nearest val.natAbs = val.natAbs
  finite : Nat.log2 val.natAbs < 1024
  deriving DecidableEq

/-- The naturals below `2 ^ 53` are numbers. -/
def IntNumber.ofNat (n : ℕ) (h : n < 2 ^ 53) : IntNumber :=
  ⟨n, nearest_of_lt h, (log2_lt_of_lt h).trans (by decide)⟩

/-! ## How they are printed -/

/-- From `x` without its last `j` digits to `x`, the first text of that length that reads back as `x`:
the digits of `x`, or the next ones if these are nearer or the first do not read back. -/
def shortestFrom (x : ℕ) : ℕ → ℕ
  | 0 => x
  | j + 1 =>
    let s := x / 10 ^ (j + 1)
    let low := s * 10 ^ (j + 1)
    let high := (s + 1) * 10 ^ (j + 1)
    if nearest low = x ∧ (nearest high ≠ x ∨ x - low < high - x ∨ x - low = high - x ∧ s % 2 = 0) then
      low
    else if nearest high = x then high
    else shortestFrom x j

/-- The value of the fewest digits that read back as `x`. -/
def shortest (x : ℕ) : ℕ := shortestFrom x (Nat.log 10 x)

theorem nearest_shortest {x : ℕ} (h : nearest x = x) : nearest (shortest x) = x := by
  unfold shortest
  generalize Nat.log 10 x = j
  induction j with
  | zero => exact h
  | succ j ih =>
    simp only [shortestFrom]
    split
    · rename_i hlow
      exact hlow.1
    · split
      · assumption
      · exact ih

theorem shortest_of_lt {x : ℕ} (h : x < 2 ^ 53) : shortest x = x := by
  have hx := nearest_shortest (nearest_of_lt h)
  by_cases hlt : shortest x < 2 ^ 53
  · rwa [nearest_of_lt hlt] at hx
  · have hle := le_nearest (Nat.le_of_not_lt hlt)
    rw [hx] at hle
    exact absurd h (Nat.not_lt.mpr hle)

theorem shortestFrom_le {x n : ℕ} (h : x < 10 ^ n) : ∀ j ≤ n, shortestFrom x j ≤ 10 ^ n := by
  intro j
  induction j with
  | zero => exact fun _ => h.le
  | succ j ih =>
    intro hj
    have hpow : 10 ^ n = 10 ^ (n - (j + 1)) * 10 ^ (j + 1) := by
      rw [← Nat.pow_add, Nat.sub_add_cancel hj]
    have hhigh : (x / 10 ^ (j + 1) + 1) * 10 ^ (j + 1) ≤ 10 ^ n := by
      rw [hpow]
      refine Nat.mul_le_mul_right _ (Nat.succ_le_of_lt ?_)
      rw [Nat.div_lt_iff_lt_mul (Nat.pow_pos (by decide)), ← hpow]
      exact h
    simp only [shortestFrom]
    split
    · exact (Nat.mul_le_mul_right _ (Nat.le_succ _)).trans hhigh
    · split
      · exact hhigh
      · exact ih (Nat.le_of_succ_le hj)

/-- A number below `10 ^ 21` is printed by digits alone. -/
theorem shortest_lt {x : ℕ} (hx : nearest x = x) (h : x < 10 ^ 21) : shortest x < 10 ^ 21 := by
  have hle : shortest x ≤ 10 ^ 21 := by
    refine shortestFrom_le h _ ?_
    exact (Nat.log_lt_of_lt_pow' (by decide) h).le
  refine Nat.lt_of_le_of_ne hle fun heq => ?_
  have hround := nearest_shortest hx
  rw [heq, show nearest (10 ^ 21) = 10 ^ 21 by decide +kernel] at hround
  exact absurd h (by omega)

/-- The digits of `v` without the zeros at the end. -/
def significant (v : ℕ) : List Char := ((Nat.toDigits 10 v).reverse.dropWhile (· = '0')).reverse

/-- The text of a natural number that is a number. -/
def showNat (x : ℕ) : String :=
  let v := shortest x
  let e := "e+" ++ toString (Nat.log 10 v)
  if v < 10 ^ 21 then toString v
  else match significant v with
    | [] => e
    | [c] => String.ofList [c] ++ e
    | c :: cs => String.ofList (c :: '.' :: cs) ++ e

/-- **The text of an integer that is a number.** -/
def showInt (n : IntNumber) : String :=
  if n.val < 0 then "-" ++ showNat n.val.natAbs else showNat n.val.natAbs

example : showNat (2 ^ 60) = "1152921504606847000" := by decide +kernel

example : showNat (15 * 10 ^ 20) = "1.5e+21" := by decide +kernel

theorem toList_toString (n : ℕ) : (toString n).toList = Nat.toDigits 10 n := by
  rw [Nat.toString_eq_ofList_toDigits, String.toList_ofList]

theorem showNat_of_lt {x : ℕ} (h : x < 2 ^ 53) : showNat x = toString x := by
  rw [showNat, shortest_of_lt h, if_pos (h.trans (by decide))]

theorem showNat_toList {x : ℕ} (hx : nearest x = x) (h : x < 10 ^ 21) :
    (showNat x).toList = Nat.toDigits 10 (shortest x) := by
  rw [showNat, if_pos (shortest_lt hx h), toList_toString]

theorem isDigit_of_mem_showNat {x : ℕ} (hx : nearest x = x) (h : x < 10 ^ 21) {c : Char}
    (hc : c ∈ (showNat x).toList) : c.isDigit = true := by
  rw [showNat_toList hx h] at hc
  exact Nat.isDigit_of_mem_toDigits (by decide) (by decide) hc

theorem showNat_inj {x y : ℕ} (hx : nearest x = x) (hy : nearest y = y) (hxlt : x < 10 ^ 21)
    (hylt : y < 10 ^ 21) (h : showNat x = showNat y) : x = y := by
  have hdigits : Nat.toDigits 10 (shortest x) = Nat.toDigits 10 (shortest y) := by
    rw [← showNat_toList hx hxlt, ← showNat_toList hy hylt, h]
  have hshort : shortest x = shortest y := by
    rw [← Nat.ofDigitChars_ten_toDigits (n := shortest x), hdigits, Nat.ofDigitChars_ten_toDigits]
  rw [← nearest_shortest hx, hshort, nearest_shortest hy]

/-- The number is printed by its sign and digits. -/
def IntNumber.Plain (n : IntNumber) : Prop := n.val.natAbs < 10 ^ 21

theorem point_notMem_showInt {n : IntNumber} (h : n.Plain) : '.' ∉ (showInt n).toList := by
  have hnat : '.' ∉ (showNat n.val.natAbs).toList := fun hc =>
    absurd (isDigit_of_mem_showNat n.exact h hc) (by decide)
  unfold showInt
  split
  · rw [String.toList_append, List.mem_append, not_or]
    exact ⟨by decide, hnat⟩
  · exact hnat

/-- **Below `10 ^ 21` different numbers have different texts.** -/
theorem showInt_injective {m n : IntNumber} (hm : m.Plain) (hn : n.Plain)
    (h : showInt m = showInt n) : m = n := by
  have hminus : ∀ {a b : IntNumber}, b.Plain → "-" ++ showNat a.val.natAbs ≠ showNat b.val.natAbs := by
    intro a b hb heq
    have hmem : '-' ∈ (showNat b.val.natAbs).toList := by
      rw [← heq, String.toList_append]
      exact List.mem_append_left _ (by decide)
    exact absurd (isDigit_of_mem_showNat b.exact hb hmem) (by decide)
  have hval : m.val = n.val := by
    unfold showInt at h
    split at h <;> split at h
    · rename_i hneg hneg'
      have hnat := congrArg String.toList h
      rw [String.toList_append, String.toList_append, List.append_cancel_left_eq,
        String.toList_inj] at hnat
      have := showNat_inj m.exact n.exact hm hn hnat
      omega
    · exact absurd h (hminus hn)
    · exact absurd h.symm (hminus hm)
    · have := showNat_inj m.exact n.exact hm hn h
      omega
  cases m
  cases n
  cases hval
  rfl

/-! ## Separators -/

theorem append_cons_inj {α : Type} {c : α} {x x' z z' : List α} (hx : c ∉ x) (hx' : c ∉ x')
    (h : x ++ c :: z = x' ++ c :: z') : x = x' ∧ z = z' := by
  rcases List.append_eq_append_iff.mp h with ⟨as, rfl, hz⟩ | ⟨as, rfl, hz⟩
  all_goals
    cases as with
    | nil => simpa [eq_comm] using hz
    | cons a as =>
      -- the longer text would contain the separator
      obtain ⟨rfl, -⟩ := List.cons.inj hz
      simp at hx hx'

/-- **A separator that is not in the texts before it can be found again.** -/
theorem append_separator_inj {sep p p' q q' : String} {c : Char} (hsep : sep.toList = [c])
    (hp : c ∉ p.toList) (hp' : c ∉ p'.toList) (h : p ++ sep ++ q = p' ++ sep ++ q') :
    p = p' ∧ q = q' := by
  have hlist := congrArg String.toList h
  simp only [String.toList_append, hsep, List.append_assoc, List.singleton_append] at hlist
  obtain ⟨hpp, hqq⟩ := append_cons_inj hp hp' hlist
  exact ⟨String.toList_inj.mp hpp, String.toList_inj.mp hqq⟩

/-! ## Bytes in hexadecimal digits -/

def hexPair (b : UInt8) : List Char := [Nat.digitChar (b.toNat / 16), Nat.digitChar (b.toNat % 16)]

def hexEncode (bytes : List UInt8) : String := String.ofList (bytes.flatMap hexPair)

/-- The value of a hexadecimal digit of either case. -/
def hexValue (c : Char) : Option ℕ :=
  if '0' ≤ c ∧ c ≤ '9' then some (c.toNat - 48)
  else if 'a' ≤ c ∧ c ≤ 'f' then some (c.toNat - 87)
  else if 'A' ≤ c ∧ c ≤ 'F' then some (c.toNat - 55)
  else none

/-- Two digits make a byte, and what follows the first pair that is none is dropped. -/
def hexBytes : List Char → List UInt8
  | a :: b :: rest =>
    match hexValue a, hexValue b with
    | some x, some y => UInt8.ofNat (16 * x + y) :: hexBytes rest
    | _, _ => []
  | _ => []

def hexDecode (text : String) : List UInt8 := hexBytes text.toList

theorem hexValue_digitChar {n : ℕ} (h : n < 16) : hexValue (Nat.digitChar n) = some n := by
  interval_cases n <;> rfl

/-- **Encoded bytes are decoded to themselves.** -/
theorem hexDecode_hexEncode (bytes : List UInt8) : hexDecode (hexEncode bytes) = bytes := by
  rw [hexDecode, hexEncode, String.toList_ofList]
  induction bytes with
  | nil => rfl
  | cons b rest ih =>
    have hb : b.toNat < 256 := b.toNat_lt
    have hhigh : hexValue (Nat.digitChar (b.toNat / 16)) = some (b.toNat / 16) :=
      hexValue_digitChar (by omega)
    have hlow : hexValue (Nat.digitChar (b.toNat % 16)) = some (b.toNat % 16) :=
      hexValue_digitChar (by omega)
    change hexBytes (_ :: _ :: rest.flatMap hexPair) = _
    rw [hexBytes, hhigh, hlow]
    dsimp only
    rw [ih, Nat.div_add_mod, UInt8.ofNat_toNat]

theorem hexEncode_injective : Function.Injective hexEncode :=
  Function.LeftInverse.injective hexDecode_hexEncode

end Encodings
