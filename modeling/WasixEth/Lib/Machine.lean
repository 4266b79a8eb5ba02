import Mathlib.Algebra.Group.Nat.Defs
import Mathlib.Tactic.Common

/-! # Arithmetic on machine words

Unsigned words are natural numbers below a power of two. Where the result of an
operation is no word, a build either wraps it around or stops. The exact mode is that
of no build: it stops at a cast that loses bits as well, so that whatever it computes
every build computes.
-/

namespace WasixEth.Machine

inductive Fault
  | overflow
  | truncation
  | divideByZero
  deriving DecidableEq

inductive Mode
  | wrapping
  | checked
  | exact
  deriving DecidableEq

/-- A result as a word of the width. -/
def fit (mode : Mode) (width result : Nat) : Except Fault Nat :=
  if result < 2 ^ width then .ok result
  else if mode = .wrapping then .ok (result % 2 ^ width)
  else .error .overflow

def add (mode : Mode) (width a b : Nat) : Except Fault Nat := fit mode width (a + b)

def mul (mode : Mode) (width a b : Nat) : Except Fault Nat := fit mode width (a * b)

def sub (mode : Mode) (width a b : Nat) : Except Fault Nat :=
  if b ≤ a then .ok (a - b)
  else if mode = .wrapping then .ok (2 ^ width + a - b)
  else .error .overflow

def div (a b : Nat) : Except Fault Nat :=
  if b = 0 then .error .divideByZero else .ok (a / b)

/-- A cast to a narrower word. -/
def cast (mode : Mode) (width a : Nat) : Except Fault Nat :=
  if mode = .exact ∧ 2 ^ width ≤ a then .error .truncation else .ok (a % 2 ^ width)

variable {mode : Mode} {width a b c result : Nat}

/-! ## Results that fit -/

theorem fit_of_lt (h : result < 2 ^ width) : fit mode width result = .ok result :=
  if_pos h

theorem add_of_lt (h : a + b < 2 ^ width) : add mode width a b = .ok (a + b) :=
  fit_of_lt h

theorem mul_of_lt (h : a * b < 2 ^ width) : mul mode width a b = .ok (a * b) :=
  fit_of_lt h

theorem sub_of_le (h : b ≤ a) : sub mode width a b = .ok (a - b) :=
  if_pos h

theorem div_of_pos (h : 0 < b) : div a b = .ok (a / b) :=
  if_neg (Nat.pos_iff_ne_zero.mp h)

theorem cast_of_lt (h : a < 2 ^ width) : cast mode width a = .ok a := by
  unfold cast
  rw [if_neg fun hlost => absurd h (Nat.not_lt.mpr hlost.2), Nat.mod_eq_of_lt h]

/-! ## Results that do not fit -/

theorem fit_wrapping : fit .wrapping width result = .ok (result % 2 ^ width) := by
  unfold fit
  split
  next hlt => rw [Nat.mod_eq_of_lt hlt]
  next => rfl

theorem add_wrapping : add .wrapping width a b = .ok ((a + b) % 2 ^ width) := fit_wrapping

theorem sub_wrapping (ha : a < 2 ^ width) (hb : b ≤ 2 ^ width) :
    sub .wrapping width a b = .ok ((2 ^ width + a - b) % 2 ^ width) := by
  unfold sub
  split
  next hle =>
    have hsum : 2 ^ width + a - b = a - b + 2 ^ width := by omega
    rw [hsum, Nat.add_mod_right, Nat.mod_eq_of_lt (by omega)]
  next hlt =>
    rw [Nat.mod_eq_of_lt (by omega)]
    rfl

theorem add_of_le (hmode : mode ≠ .wrapping) (h : 2 ^ width ≤ a + b) :
    add mode width a b = .error .overflow := by
  unfold add fit
  rw [if_neg (Nat.not_lt.mpr h), if_neg hmode]

/-! ## What a result is -/

theorem bind_ok {α β : Type} {x : Except Fault α} {f : α → Except Fault β} {b : β} :
    (x >>= f) = .ok b ↔ ∃ a, x = .ok a ∧ f a = .ok b := by
  cases x with
  | error fault => simp [bind, Except.bind]
  | ok a => simp [bind, Except.bind]

theorem eq_of_fit (h : fit mode width result = .ok c) : c = result % 2 ^ width := by
  unfold fit at h
  split at h
  next hlt =>
    cases h
    exact (Nat.mod_eq_of_lt hlt).symm
  next =>
    split at h
    · cases h
      rfl
    · cases h

theorem eq_of_add (h : add mode width a b = .ok c) : c = (a + b) % 2 ^ width :=
  eq_of_fit h

theorem eq_of_div (h : div a b = .ok c) : 0 < b ∧ c = a / b := by
  unfold div at h
  split at h
  · cases h
  next hzero =>
    cases h
    exact ⟨Nat.pos_of_ne_zero hzero, rfl⟩

theorem eq_of_cast (h : cast mode width a = .ok c) : c = a % 2 ^ width := by
  unfold cast at h
  split at h
  · cases h
  · cases h
    rfl

/-! ## The exact mode -/

theorem fit_exact (h : fit .exact width result = .ok c) : c = result ∧ result < 2 ^ width := by
  unfold fit at h
  split at h
  next hlt =>
    cases h
    exact ⟨rfl, hlt⟩
  next =>
    rw [if_neg (by decide)] at h
    cases h

theorem sub_exact (h : sub .exact width a b = .ok c) : c = a - b ∧ b ≤ a := by
  unfold sub at h
  split at h
  next hle =>
    cases h
    exact ⟨rfl, hle⟩
  next =>
    rw [if_neg (by decide)] at h
    cases h

theorem cast_exact (h : cast .exact width a = .ok c) : c = a ∧ a < 2 ^ width := by
  unfold cast at h
  split at h
  · cases h
  next hkept =>
    have hlt : a < 2 ^ width := Nat.lt_of_not_le fun hle => hkept ⟨rfl, hle⟩
    cases h
    exact ⟨Nat.mod_eq_of_lt hlt, hlt⟩

/-! ## Sequences of operations and checks

A check may fail with a message, and an operation on the way may stop the program. -/

section Runs

variable {ε α β : Type}

/-- The message of a check, or the fault that stopped it. -/
abbrev Run (ε α : Type) := ExceptT ε (Except Fault) α

/-- A check that computes nothing. -/
def lift (check : Except ε α) : Run ε α := ExceptT.mk (.ok check)

/-- The run is through without a fault and has passed. -/
def Passes (x : Run ε α) (a : α) : Prop := x.run = .ok (.ok a)

instance [DecidableEq ε] [DecidableEq α] (x : Run ε α) (a : α) : Decidable (Passes x a) :=
  inferInstanceAs (Decidable (x.run = .ok (.ok a)))

theorem passes_bind {x : Run ε α} {f : α → Run ε β} {b : β} :
    Passes (x >>= f) b ↔ ∃ a, Passes x a ∧ Passes (f a) b := by
  have hrun : (x >>= f).run = x.run >>= fun
      | .ok a => (f a).run
      | .error message => .ok (.error message) := by
    rw [ExceptT.run_bind]
    rfl
  unfold Passes
  rw [hrun]
  cases x.run with
  | error fault => simp [bind, Except.bind]
  | ok check => cases check <;> simp [bind, Except.bind]

theorem passes_lift {check : Except ε α} {a : α} : Passes (lift check) a ↔ check = .ok a := by
  unfold Passes lift
  rw [ExceptT.run_mk]
  simp

theorem passes_monadLift {x : Except Fault α} {a : α} :
    Passes (liftM x : Run ε α) a ↔ x = .ok a := by
  have hrun : (liftM x : Run ε α).run = x.map .ok := rfl
  unfold Passes
  rw [hrun]
  cases x <;> simp [Except.map]

theorem passes_pure {a b : α} : Passes (pure a : Run ε α) b ↔ a = b := by
  unfold Passes
  rw [ExceptT.run_pure]
  simp [pure, Except.pure]

theorem passes_throw {message : ε} {a : α} : Passes (throw message : Run ε α) a ↔ False := by
  unfold Passes
  rw [ExceptT.run_throw]
  simp [pure, Except.pure]

theorem passes_guard {c : Prop} [Decidable c] {message : ε} {x : Run ε α} {a : α} :
    Passes (if c then throw message else x) a ↔ ¬ c ∧ Passes x a := by
  by_cases hc : c
  · rw [if_pos hc, passes_throw]
    exact ⟨False.elim, fun h => h.1 hc⟩
  · rw [if_neg hc]
    exact ⟨fun h => ⟨hc, h⟩, And.right⟩

/-- A run that stops on no fault comes to what the check comes to. -/
def Agrees (x : Run ε α) (check : Except ε α) : Prop :=
  ∀ result, x.run = .ok result → result = check

theorem agrees_lift {check : Except ε α} : Agrees (lift check) check := by
  intro result hrun
  cases hrun
  rfl

theorem agrees_pure {a : α} : Agrees (pure a : Run ε α) (.ok a) := by
  intro result hrun
  cases hrun
  rfl

theorem agrees_throw {message : ε} : Agrees (throw message : Run ε α) (.error message) := by
  intro result hrun
  cases hrun
  rfl

theorem agrees_ite {c : Prop} [Decidable c] {x y : Run ε α} {check other : Except ε α}
    (hx : c → Agrees x check) (hy : ¬ c → Agrees y other) :
    Agrees (if c then x else y) (if c then check else other) := by
  by_cases hc : c
  · rw [if_pos hc, if_pos hc]
    exact hx hc
  · rw [if_neg hc, if_neg hc]
    exact hy hc

theorem agrees_bind {x : Run ε α} {f : α → Run ε β} {check : Except ε α}
    {rest : α → Except ε β} (hx : Agrees x check) (hf : ∀ a, Agrees (f a) (rest a)) :
    Agrees (x >>= f) (check >>= rest) := by
  intro result hrun
  have hbind : (x >>= f).run = x.run >>= fun
      | .ok a => (f a).run
      | .error message => .ok (.error message) := by
    rw [ExceptT.run_bind]
    rfl
  rw [hbind] at hrun
  cases hresult : x.run with
  | error fault =>
      rw [hresult] at hrun
      cases hrun
  | ok first =>
      rw [← hx first hresult]
      rw [hresult] at hrun
      cases first with
      | error message =>
          cases hrun
          rfl
      | ok a => exact hf a result hrun

/-- An operation whose result is known. -/
theorem agrees_monadLift_bind {x : Except Fault α} {f : α → Run ε β} {check : Except ε β}
    (h : ∀ a, x = .ok a → Agrees (f a) check) : Agrees (liftM x >>= f) check := by
  intro result hrun
  cases x with
  | error fault => cases hrun
  | ok a => exact h a rfl result hrun

end Runs

end WasixEth.Machine
