import Mathlib.Tactic.Common

/-! # Sequences of checks

A check returns nothing or an error. A sequence of checks passes if and only
if each of them does.
-/

namespace WasixEth.Guards

variable {ε α : Type}

theorem bind_ok {check : Except ε Unit} {rest : Unit → Except ε α} {a : α} :
    (check >>= rest) = .ok a ↔ check = .ok () ∧ rest () = .ok a := by
  cases check with
  | ok _ => simp [bind, Except.bind]
  | error _ => simp [bind, Except.bind]

theorem throw_bind {message : ε} {rest : Unit → Except ε α} :
    ((throw message : Except ε Unit) >>= rest) = throw message := rfl

theorem throw_ok {message : ε} {a : α} : (throw message : Except ε α) = .ok a ↔ False := by
  simp [throw, throwThe, MonadExceptOf.throw]

theorem pure_ok {a : Unit} : (pure a : Except ε Unit) = .ok () ↔ True := by
  simp [pure, Except.pure]

/-- A check that stops on `c` lets the rest run only without it. -/
theorem guard_ok {c : Prop} [Decidable c] {message : ε} {rest : Except ε α} {a : α} :
    (if c then throw message else rest) = .ok a ↔ ¬ c ∧ rest = .ok a := by
  by_cases hc : c <;> simp [hc, throw_ok]

/-- A branch without an alternative. -/
theorem when_ok {c : Prop} [Decidable c] {x : Except ε Unit} {a : Unit} :
    (if c then x else pure a) = .ok () ↔ (c → x = .ok ()) := by
  by_cases hc : c <;> simp [hc, pure_ok]

end WasixEth.Guards
