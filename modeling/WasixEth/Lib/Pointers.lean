import Mathlib.Data.Fintype.EquivFin

/-! # Following pointers

An item may point to another one. Following the pointers from an item ends if and only
if no item is met twice, as long as there are finitely many of them.
-/

namespace WasixEth.Pointers

variable {α : Type*} {next : α → Option α} {a b : α}

/-- The item after a number of pointers. -/
def after (next : α → Option α) : Nat → α → Option α
  | 0, a => some a
  | n + 1, a => (next a).bind (after next n)

/-- The item without a pointer, where the pointers lead to one. -/
def follow (next : α → Option α) : Nat → α → Option α
  | 0, _ => none
  | fuel + 1, a =>
      match next a with
      | some b => follow next fuel b
      | none => some a

def NeverRepeats (next : α → Option α) (a : α) : Prop :=
  ∀ i j b, i < j → after next i a = some b → after next j a ≠ some b

theorem after_add (m n : Nat) (a : α) :
    after next (m + n) a = (after next m a).bind (after next n) := by
  induction m generalizing a with
  | zero => rw [Nat.zero_add, after, Option.bind_some]
  | succ m ih =>
      rw [Nat.succ_add, after, after]
      cases next a with
      | none => rfl
      | some b => exact ih b

theorem after_none {m n : Nat} (hle : m ≤ n) (h : after next m a = none) :
    after next n a = none := by
  rw [← Nat.add_sub_of_le hle, after_add, h, Option.bind_none]

theorem follow_isSome_iff (fuel : Nat) :
    (follow next fuel a).isSome ↔ after next fuel a = none := by
  induction fuel generalizing a with
  | zero => exact iff_of_false Bool.false_ne_true (Option.some_ne_none a)
  | succ fuel ih =>
      unfold follow after
      cases next a with
      | none => exact iff_of_true rfl rfl
      | some b => exact ih

/-- An item that leads back to itself does so again and again. -/
theorem after_mul {period : Nat} (h : after next period b = some b) (k : Nat) :
    after next (k * period) b = some b := by
  induction k with
  | zero => rw [Nat.zero_mul, after]
  | succ k ih => rw [Nat.succ_mul, after_add, ih, Option.bind_some, h]

theorem neverRepeats_of_after {fuel : Nat} (h : after next fuel a = none) :
    NeverRepeats next a := by
  intro i j b hlt hi hj
  have hperiod : after next (j - i) b = some b := by
    rw [← Nat.add_sub_of_le hlt.le, after_add, hi, Option.bind_some] at hj
    exact hj
  have hagain : after next (i + fuel * (j - i)) a = some b := by
    rw [after_add, hi, Option.bind_some, after_mul hperiod]
  have hle : fuel ≤ i + fuel * (j - i) := by
    have hpos : 1 ≤ j - i := by omega
    exact (Nat.le_mul_of_pos_right fuel hpos).trans (Nat.le_add_left _ _)
  rw [after_none hle h] at hagain
  cases hagain

theorem exists_after_of_neverRepeats [Finite α] (h : NeverRepeats next a) :
    ∃ fuel, after next fuel a = none := by
  by_contra hall
  push Not at hall
  choose item hitem using fun n => Option.ne_none_iff_exists'.mp (hall n)
  -- There is no room for infinitely many different items.
  refine not_injective_infinite_finite item fun i j heq => ?_
  rcases Nat.lt_trichotomy i j with hlt | rfl | hlt
  · exact absurd (hitem j) (heq ▸ h i j (item i) hlt (hitem i))
  · rfl
  · exact absurd (hitem i) (heq ▸ h j i (item j) hlt (hitem j))

theorem exists_follow_iff [Finite α] :
    (∃ fuel, (follow next fuel a).isSome) ↔ NeverRepeats next a := by
  constructor
  · rintro ⟨fuel, hfuel⟩
    exact neverRepeats_of_after ((follow_isSome_iff fuel).mp hfuel)
  · intro h
    obtain ⟨fuel, hfuel⟩ := exists_after_of_neverRepeats h
    exact ⟨fuel, (follow_isSome_iff fuel).mpr hfuel⟩

end WasixEth.Pointers
