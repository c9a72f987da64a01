import Mathlib.Logic.Basic

set_option autoImplicit false

/-!
# Effectful programs and their protocols

A program is a finite tree of calls: each call names an operation, and its answer selects the rest
of the program. Programs may throw.

* `Prog`, `Prog.bind`, `Prog.tryCatch`, `Prog.andFinally`: the language;
* `Monitor`: an automaton that watches the calls a program makes, with the calls it *permits* and
  the answers it *expects*; `Monitor.after` is its state after a trace;
* **`Prog.Safe`**: every call is permitted as long as every answer is expected. The rules
  `safe_bind`, `safe_tryCatch`, `safe_andFinally` and `Safe.mono` prove it function by function;
* `Prog.Uses`: a program whose calls all lie in one set; `Uses.safe` turns it into `Safe` when
  the monitor ignores that set;
* `Prog.run`: the program run at once by a handler that answers its calls, with a rule for each
  way a `bind` or a `tryCatch` goes.
-/

namespace EffectProg

/-- Programs over operations `E` with answers `R`, throwing `X` and returning `α`. -/
inductive Prog (E : Type) (R : E → Type) (X α : Type) : Type where
  | ret (a : α)
  | raise (x : X)
  | op (e : E) (k : R e → Prog E R X α)

namespace Prog

variable {E : Type} {R : E → Type} {X α β : Type}

/-- Sequencing; a thrown error skips the rest. -/
def bind : Prog E R X α → (α → Prog E R X β) → Prog E R X β
  | ret a, f => f a
  | raise x, _ => raise x
  | op e k, f => op e fun r => (k r).bind f

instance : Monad (Prog E R X) where
  pure := ret
  bind := bind

/-- `try p catch h`. -/
def tryCatch : Prog E R X α → (X → Prog E R X α) → Prog E R X α
  | ret a, _ => ret a
  | raise x, h => h x
  | op e k, h => op e fun r => (k r).tryCatch h

/-- `try p finally q`: an error of `q` replaces the outcome of `p`. -/
def andFinally : Prog E R X α → Prog E R X Unit → Prog E R X α
  | ret a, q => q.bind fun _ => ret a
  | raise x, q => q.bind fun _ => raise x
  | op e k, q => op e fun r => (k r).andFinally q

/-- A single call. -/
def perform (e : E) : Prog E R X (R e) := op e ret

/-- A single call whose answer may be an error, which is thrown. -/
def ofExcept : Except X α → Prog E R X α
  | .ok a => ret a
  | .error x => raise x

@[simp] theorem pure_eq (a : α) : (pure a : Prog E R X α) = ret a := rfl

@[simp] theorem bind_eq (p : Prog E R X α) (f : α → Prog E R X β) : (p >>= f) = p.bind f := rfl

@[simp] theorem ret_bind (a : α) (f : α → Prog E R X β) : (ret a : Prog E R X α).bind f = f a := rfl

@[simp] theorem raise_bind (x : X) (f : α → Prog E R X β) :
    (raise x : Prog E R X α).bind f = raise x := rfl

@[simp] theorem op_bind (e : E) (k : R e → Prog E R X α) (f : α → Prog E R X β) :
    (op e k).bind f = op e fun r => (k r).bind f := rfl

end Prog

/-- A monitor of programs over `E`: how its state follows the calls, which calls it permits, and
which answers it expects. -/
structure Monitor (E : Type) (R : E → Type) (M : Type) where
  next : M → (e : E) → R e → M
  permits : M → E → Prop
  expects : M → (e : E) → R e → Prop

/-- The state of a monitor after the calls of a trace, latest first. -/
def Monitor.after {E : Type} {R : E → Type} {M : Type} (mon : Monitor E R M) (m : M) :
    List (Σ e : E, R e) → M
  | [] => m
  | ev :: trace => mon.next (mon.after m trace) ev.1 ev.2

namespace Prog

variable {E : Type} {R : E → Type} {M X α β : Type} (mon : Monitor E R M)

/-- Every call of the program is permitted, under expected answers, and `Q` holds of the monitor's
state and the outcome at the end. -/
def Safe : M → Prog E R X α → (M → Except X α → Prop) → Prop
  | m, ret a, Q => Q m (.ok a)
  | m, raise x, Q => Q m (.error x)
  | m, op e k, Q => mon.permits m e ∧ ∀ r, mon.expects m e r → Safe (mon.next m e r) (k r) Q

variable {mon}

@[simp] theorem safe_ret {m : M} {a : α} {Q : M → Except X α → Prop} :
    Safe mon m (ret a) Q ↔ Q m (.ok a) := Iff.rfl

@[simp] theorem safe_raise {m : M} {x : X} {Q : M → Except X α → Prop} :
    Safe mon m (raise x) Q ↔ Q m (.error x) := Iff.rfl

theorem Safe.mono {m : M} {p : Prog E R X α} {Q Q' : M → Except X α → Prop}
    (h : Safe mon m p Q) (hQ : ∀ m' r, Q m' r → Q' m' r) : Safe mon m p Q' := by
  induction p generalizing m with
  | ret a => exact hQ _ _ h
  | raise x => exact hQ _ _ h
  | op e k ih => exact ⟨h.1, fun r hr => ih r (h.2 r hr)⟩

/-- **Sequencing rule.** -/
theorem safe_bind {m : M} {p : Prog E R X α} {f : α → Prog E R X β}
    {Q : M → Except X β → Prop} :
    Safe mon m (p.bind f) Q ↔ Safe mon m p fun m' r =>
      match r with
      | .ok a => Safe mon m' (f a) Q
      | .error x => Q m' (.error x) := by
  induction p generalizing m with
  | ret a => rfl
  | raise x => rfl
  | op e k ih => exact and_congr Iff.rfl (forall_congr' fun r => imp_congr Iff.rfl (ih r))

/-- **Handler rule.** -/
theorem safe_tryCatch {m : M} {p : Prog E R X α} {h : X → Prog E R X α}
    {Q : M → Except X α → Prop} :
    Safe mon m (p.tryCatch h) Q ↔ Safe mon m p fun m' r =>
      match r with
      | .ok a => Q m' (.ok a)
      | .error x => Safe mon m' (h x) Q := by
  induction p generalizing m with
  | ret a => rfl
  | raise x => rfl
  | op e k ih => exact and_congr Iff.rfl (forall_congr' fun r => imp_congr Iff.rfl (ih r))

/-- **Cleanup rule.** The cleanup runs after either outcome, and its own error wins. -/
theorem safe_andFinally {m : M} {p : Prog E R X α} {q : Prog E R X Unit}
    {Q : M → Except X α → Prop} :
    Safe mon m (p.andFinally q) Q ↔ Safe mon m p fun m' r => Safe mon m' q fun m'' r' =>
      match r' with
      | .ok _ => Q m'' r
      | .error x => Q m'' (.error x) := by
  induction p generalizing m with
  | ret a =>
    refine safe_bind.trans (Eq.to_iff (congrArg _ (funext fun m' => funext fun r => ?_)))
    cases r <;> rfl
  | raise x =>
    refine safe_bind.trans (Eq.to_iff (congrArg _ (funext fun m' => funext fun r => ?_)))
    cases r <;> rfl
  | op e k ih => exact and_congr Iff.rfl (forall_congr' fun r => imp_congr Iff.rfl (ih r))

@[simp] theorem safe_perform {m : M} {e : E} {Q : M → Except X (R e) → Prop} :
    Safe mon m (perform e) Q ↔
      mon.permits m e ∧ ∀ r, mon.expects m e r → Q (mon.next m e r) (.ok r) := Iff.rfl

@[simp] theorem safe_ofExcept {m : M} {r : Except X α} {Q : M → Except X α → Prop} :
    Safe mon m (ofExcept r) Q ↔ Q m r := by
  cases r <;> rfl

/-- Every call of the program is in `S`. -/
def Uses (S : E → Prop) : Prog E R X α → Prop
  | ret _ => True
  | raise _ => True
  | op e k => S e ∧ ∀ r, Uses S (k r)

theorem Uses.mono {S S' : E → Prop} {p : Prog E R X α} (hp : p.Uses S) (h : ∀ e, S e → S' e) :
    p.Uses S' := by
  induction p with
  | ret a => trivial
  | raise x => trivial
  | op e k ih => exact ⟨h e hp.1, fun r => ih r (hp.2 r)⟩

theorem Uses.bind {S : E → Prop} {p : Prog E R X α} {f : α → Prog E R X β} (hp : p.Uses S)
    (hf : ∀ a, (f a).Uses S) : (p.bind f).Uses S := by
  induction p with
  | ret a => exact hf a
  | raise x => trivial
  | op e k ih => exact ⟨hp.1, fun r => ih r (hp.2 r)⟩

theorem Uses.tryCatch {S : E → Prop} {p : Prog E R X α} {h : X → Prog E R X α} (hp : p.Uses S)
    (hh : ∀ x, (h x).Uses S) : (p.tryCatch h).Uses S := by
  induction p with
  | ret a => trivial
  | raise x => exact hh x
  | op e k ih => exact ⟨hp.1, fun r => ih r (hp.2 r)⟩

theorem Uses.andFinally {S : E → Prop} {p : Prog E R X α} {q : Prog E R X Unit} (hp : p.Uses S)
    (hq : q.Uses S) : (p.andFinally q).Uses S := by
  induction p with
  | ret a => exact hq.bind fun _ => trivial
  | raise x => exact hq.bind fun _ => trivial
  | op e k ih => exact ⟨hp.1, fun r => ih r (hp.2 r)⟩

theorem uses_ofExcept {S : E → Prop} (r : Except X α) : (ofExcept r : Prog E R X α).Uses S := by
  cases r <;> trivial

/-- A program whose calls the monitor permits and that keep `J` ends with `J`. -/
theorem Uses.keeps {S : E → Prop} {J : M → Prop} {m : M} {p : Prog E R X α}
    {Q : M → Except X α → Prop} (hp : p.Uses S) (hm : J m)
    (hS : ∀ m e, J m → S e → mon.permits m e ∧ ∀ r, J (mon.next m e r))
    (hQ : ∀ m r, J m → Q m r) : Safe mon m p Q := by
  induction p generalizing m with
  | ret a => exact hQ _ _ hm
  | raise x => exact hQ _ _ hm
  | op e k ih =>
    obtain ⟨h1, h2⟩ := hS m e hm hp.1
    exact ⟨h1, fun r _ => ih r (hp.2 r) (h2 r)⟩

/-- A program whose calls the monitor permits and does not track ends with the monitor as it was. -/
theorem Uses.safe {S : E → Prop} {m : M} {p : Prog E R X α} {Q : M → Except X α → Prop}
    (hp : p.Uses S) (hS : ∀ e, S e → mon.permits m e ∧ ∀ r, mon.next m e r = m)
    (hQ : ∀ r, Q m r) : Safe mon m p Q := by
  refine hp.keeps (J := fun m' => m' = m) rfl ?_ ?_
  · rintro m' e rfl he
    exact hS e he
  · rintro m' r rfl
    exact hQ r

/-! ## Runs -/

section Run

variable {σ : Type}

/-- The program run to its end by a handler that answers the calls; `none` when the handler has no
answer. -/
def run (h : σ → (e : E) → Option (σ × R e)) : σ → Prog E R X α → Option (σ × Except X α)
  | s, ret a => some (s, .ok a)
  | s, raise x => some (s, .error x)
  | s, op e k => (h s e).bind fun y => run h y.1 (k y.2)

variable {h : σ → (e : E) → Option (σ × R e)} {s : σ}

@[simp] theorem run_ret {a : α} : run h s (ret a : Prog E R X α) = some (s, .ok a) := rfl

@[simp] theorem run_raise {x : X} : run h s (raise x : Prog E R X α) = some (s, .error x) := rfl

theorem run_bind {p : Prog E R X α} {f : α → Prog E R X β} :
    run h s (p.bind f) = (run h s p).bind fun y =>
      match y.2 with
      | .ok a => run h y.1 (f a)
      | .error x => some (y.1, .error x) := by
  induction p generalizing s with
  | ret a => rfl
  | raise x => rfl
  | op e k ih =>
    simp only [op_bind, run, Option.bind_assoc]
    exact congrArg _ (funext fun y => ih y.2)

theorem run_tryCatch {p : Prog E R X α} {f : X → Prog E R X α} :
    run h s (p.tryCatch f) = (run h s p).bind fun y =>
      match y.2 with
      | .ok a => some (y.1, .ok a)
      | .error x => run h y.1 (f x) := by
  induction p generalizing s with
  | ret a => rfl
  | raise x => rfl
  | op e k ih =>
    simp only [tryCatch, run, Option.bind_assoc]
    exact congrArg _ (funext fun y => ih y.2)

variable {s' : σ} {o : Option (σ × Except X β)} {p : Prog E R X α} {f : α → Prog E R X β}
  {g : X → Prog E R X α}

/-- **Sequencing rule**, when the first part returns. -/
theorem run_bind_ok {a : α} (hp : run h s p = some (s', .ok a)) (hf : run h s' (f a) = o) :
    run h s (p.bind f) = o := by
  rw [run_bind, hp]
  exact hf

/-- **Sequencing rule**, when the first part throws. -/
theorem run_bind_error {x : X} (hp : run h s p = some (s', .error x)) :
    run h s (p.bind f) = some (s', .error x) := by
  rw [run_bind, hp]
  rfl

theorem run_bind_none (hp : run h s p = none) : run h s (p.bind f) = none := by
  rw [run_bind, hp]
  rfl

/-- **Handler rule**, when there is nothing to handle. -/
theorem run_tryCatch_ok {a : α} (hp : run h s p = some (s', .ok a)) :
    run h s (p.tryCatch g) = some (s', .ok a) := by
  rw [run_tryCatch, hp]
  rfl

/-- **Handler rule**, when the handler runs. -/
theorem run_tryCatch_error {x : X} {o : Option (σ × Except X α)}
    (hp : run h s p = some (s', .error x)) (hg : run h s' (g x) = o) :
    run h s (p.tryCatch g) = o := by
  rw [run_tryCatch, hp]
  exact hg

theorem run_tryCatch_none (hp : run h s p = none) : run h s (p.tryCatch g) = none := by
  rw [run_tryCatch, hp]
  rfl

@[simp] theorem run_ofExcept {r : Except X α} :
    run h s (ofExcept r : Prog E R X α) = some (s, r) := by
  cases r <;> rfl

end Run

end Prog

end EffectProg
