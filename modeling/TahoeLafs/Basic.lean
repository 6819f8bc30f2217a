import Mathlib.Logic.Basic

/-! Evaluation and inversion of `Except`, the monad of the modelled Python functions: an
exception raised anywhere in a `do` block is what the block raises. -/
namespace TahoeLafs
variable {ε α β : Type} {e : ε} {a : α} {f : α → Except ε β}

@[simp] theorem Except.throw_eq : (throw e : Except ε α) = .error e := rfl

@[simp] theorem Except.pure_eq : (pure a : Except ε α) = .ok a := rfl

@[simp] theorem Except.error_bind : (.error e : Except ε α) >>= f = .error e := rfl

@[simp] theorem Except.ok_bind : (.ok a : Except ε α) >>= f = f a := rfl

theorem Except.bind_eq_ok {x : Except ε α} {b : β} :
    x >>= f = .ok b ↔ ∃ a, x = .ok a ∧ f a = .ok b := by
  cases x <;> simp

theorem Except.bind_congr_ok {x : Except ε α} {g : α → Except ε β}
    (h : ∀ a, x = .ok a → f a = g a) : x >>= f = x >>= g := by
  cases x with
  | error => rfl
  | ok a => exact h a rfl

theorem Except.bind_eq_error {x : Except ε α} :
    x >>= f = .error e ↔ x = .error e ∨ ∃ a, x = .ok a ∧ f a = .error e := by
  cases x <;> simp

end TahoeLafs
