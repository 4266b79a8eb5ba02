import Mathlib.Data.List.Basic
import Mathlib.Tactic.Common

/-! # Parts of a list by position

What stands at a position of a list, and how a program that indexes into it may
stop.
-/

namespace WasixEth.Slices

variable {α : Type}

/-- These elements stand at the position. -/
def At (data : List α) (position : Nat) (part : List α) : Prop :=
  ∃ before after, data = before ++ (part ++ after) ∧ before.length = position

/-- The elements from a position on, at most so many. -/
def window (data : List α) (position length : Nat) : List α := (data.drop position).take length

/-- An index into a list, which must lie within it. -/
def slice {ε : Type} (outside : ε) (data : List α) (start stop : Nat) : Except ε (List α) :=
  if start ≤ stop ∧ stop ≤ data.length then .ok (window data start (stop - start))
  else .error outside

variable {data part other : List α} {position length : Nat}

theorem length_window (h : position + length ≤ data.length) :
    (window data position length).length = length := by
  rw [window, List.length_take, List.length_drop]
  omega

theorem At.bound (h : At data position part) : position + part.length ≤ data.length := by
  obtain ⟨before, after, rfl, rfl⟩ := h
  simp only [List.length_append]
  omega

theorem at_window (h : position + length ≤ data.length) :
    At data position (window data position length) := by
  refine ⟨data.take position, (data.drop position).drop length, ?_, ?_⟩
  · rw [window, List.take_append_drop, List.take_append_drop]
  · rw [List.length_take]
    omega

theorem At.window_eq (h : At data position part) (hlength : part.length = length) :
    window data position length = part := by
  obtain ⟨before, after, rfl, rfl⟩ := h
  rw [window, List.drop_left, ← hlength, List.take_left]

theorem at_append : At data position (part ++ other) ↔
    At data position part ∧ At data (position + part.length) other := by
  constructor
  · rintro ⟨before, after, rfl, rfl⟩
    refine ⟨⟨before, other ++ after, ?_, rfl⟩, ⟨before ++ part, after, ?_, ?_⟩⟩
    · rw [List.append_assoc]
    · simp only [List.append_assoc]
    · rw [List.length_append]
  · rintro ⟨hpart, hother⟩
    have hbound := hother.bound
    have hwindow := hother.window_eq rfl
    obtain ⟨before, after, rfl, rfl⟩ := hpart
    refine ⟨before, after.drop other.length, ?_, rfl⟩
    have hdrop : window (before ++ (part ++ after)) (before.length + part.length) other.length =
        after.take other.length := by
      rw [window, ← List.length_append, ← List.append_assoc, List.drop_left]
    rw [hdrop] at hwindow
    conv_lhs => rw [← List.take_append_drop other.length after, hwindow]
    rw [List.append_assoc]

theorem slice_of_le {ε : Type} {outside : ε} (h : position + length ≤ data.length) :
    slice outside data position (position + length) = .ok (window data position length) := by
  unfold slice
  rw [if_pos ⟨Nat.le_add_right _ _, h⟩, Nat.add_sub_cancel_left]

theorem slice_of_lt {ε : Type} {outside : ε} {start stop : Nat} (h : stop < start) :
    slice outside data start stop = .error outside :=
  if_neg fun hinside => absurd hinside.1 (Nat.not_le.mpr h)

end WasixEth.Slices
