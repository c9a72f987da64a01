import Mathlib.Data.List.Basic

set_option autoImplicit false

/-!
# Statements with positional parameters

A statement is put together piece by piece. Each piece refers to the values it was built with by their
positions in the one list of parameters that is sent along, which goes on growing after it.

* `Builder`: the parameters and the pieces so far; `placeholder`: the value at `$n`;
* **`Denotes`**: what the pieces mean, whatever is pushed later; `Denotes.add` is the rule for one
  more piece;
* **`Numbered`**: the pieces refer to every parameter, each once and in order; `Numbered.add`.
-/

namespace Placeholders

variable {P C X N : Type}

/-- What has been built: parameters `P` and pieces `C`. -/
structure Builder (P C : Type) where
  params : List P := []
  pieces : List C := []
  deriving DecidableEq

/-- A parameter is pushed. -/
def Builder.push (b : Builder P C) (p : P) : Builder P C := { b with params := b.params ++ [p] }

/-- A piece is pushed. -/
def Builder.piece (b : Builder P C) (c : C) : Builder P C := { b with pieces := b.pieces ++ [c] }

/-- `$n`; there is no `$0`. -/
def placeholder (params : List P) : ℕ → Option P
  | 0 => none
  | n + 1 => params[n]?

@[simp] theorem placeholder_last (params later : List P) (p : P) :
    placeholder (params ++ p :: later) (params.length + 1) = some p := by
  simp [placeholder]

/-- `bind params n c` is what piece `c` makes of the meaning `n` of the pieces before it. -/
def Denotes (bind : List P → N → C → Except X N) (unit : N) (b : Builder P C) (D : Except X N) :
    Prop :=
  ∀ later, b.pieces.foldlM (bind (b.params ++ later)) unit = D

variable {bind : List P → N → C → Except X N} {unit : N}

theorem denotes_nil : Denotes bind unit {} (.ok unit) := fun _ => rfl

/-- **One more piece**, built with the parameters `vs`. -/
theorem Denotes.add {b : Builder P C} {D : Except X N} (h : Denotes bind unit b D) {vs : List P}
    {c : C} {f : N → Except X N} (hc : ∀ later n, bind (b.params ++ vs ++ later) n c = f n) :
    Denotes bind unit ⟨b.params ++ vs, b.pieces ++ [c]⟩ (D >>= f) := by
  intro later
  have hb := h (vs ++ later)
  rw [← List.append_assoc] at hb
  rw [List.foldlM_append, hb]
  cases D with
  | error x => rfl
  | ok n =>
    have hlast := hc later n
    show (bind _ n c >>= pure) = f n
    rw [hlast]
    cases f n <;> rfl

/-- Every parameter is referred to once, in order. -/
def Numbered (uses : C → List ℕ) (b : Builder P C) : Prop :=
  b.pieces.flatMap uses = List.range' 1 b.params.length

variable {uses : C → List ℕ}

theorem numbered_nil : Numbered uses ({} : Builder P C) := rfl

/-- **One more piece**, which refers to the parameters `vs`. -/
theorem Numbered.add {b : Builder P C} (h : Numbered uses b) {vs : List P} {c : C}
    (hc : uses c = List.range' (b.params.length + 1) vs.length) :
    Numbered uses ⟨b.params ++ vs, b.pieces ++ [c]⟩ := by
  unfold Numbered at h ⊢
  rw [List.flatMap_append, h, List.flatMap_singleton, hc, List.length_append, Nat.add_comm _ 1,
    List.range'_append_1]

end Placeholders
