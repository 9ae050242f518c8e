import Mathlib.Algebra.Order.Ring.Int
import Mathlib.Data.List.Basic

/-!
# Checks in sequence

When a sequence of checks passes: `Except` computations, taken apart.
-/

namespace AgentHub

theorem bind_eq_ok {ε α β : Type} {x : Except ε α} {f : α → Except ε β} {b : β} :
    (x >>= f) = .ok b ↔ ∃ a, x = .ok a ∧ f a = .ok b := by
  cases x <;> simp [bind, Except.bind]

theorem map_eq_ok {ε α β : Type} {x : Except ε α} {f : α → β} {b : β} :
    x.map f = .ok b ↔ ∃ a, x = .ok a ∧ f a = b := by
  cases x <;> simp [Except.map]

/-- A check followed by others. -/
theorem check_bind_eq_ok {ε β : Type} {x : Except ε Unit} {f : Unit → Except ε β} {b : β} :
    (x >>= f) = .ok b ↔ x = .ok () ∧ f () = .ok b := by
  cases x <;> simp [bind, Except.bind]

/-- A check under a condition, followed by others. -/
theorem check_if_eq_ok {ε β : Type} {p : Prop} [Decidable p] {x : Except ε Unit}
    {k : Except ε β} {b : β} :
    (if p then x >>= fun _ => k else k) = .ok b ↔ (p → x = .ok ()) ∧ k = .ok b := by
  by_cases hp : p <;> simp [hp, check_bind_eq_ok]

theorem forM_eq_ok {ε α : Type} {xs : List α} {f : α → Except ε Unit} :
    xs.forM f = .ok () ↔ ∀ a ∈ xs, f a = .ok () := by
  induction xs with
  | nil => simp [pure, Except.pure]
  | cons x xs ih =>
    show (f x >>= fun _ => xs.forM f) = .ok () ↔ _
    rw [check_bind_eq_ok, ih]
    simp

end AgentHub
