import Mathlib.Logic.Basic

/-! # Storage faults

Any single access to a store may fail. Which ones do is given by an oracle:
the accesses of a computation are named by paths, every computation hands each
of its parts the branch of the oracle that belongs to it, and so the faults of
one part never constrain those of another.
-/

namespace WasixEth

/-- Which accesses fail. -/
def Faults := List Nat → Bool

namespace Faults

/-- No access fails. -/
def none : Faults := fun _ => false

/-- Every access fails. -/
def all : Faults := fun _ => true

/-- The faults of one part of a computation. -/
def part (faults : Faults) (i : Nat) : Faults := fun path => faults (i :: path)

/-- Whether the access at hand fails. -/
def now (faults : Faults) : Bool := faults []

/-- A read whose error counts as an absent value. -/
def read {α : Type*} (faults : Faults) (value : Option α) : Option α :=
  if faults.now then .none else value

/-- Combine the faults of the parts. -/
def join (parts : Nat → Faults) : Faults
  | [] => false
  | i :: path => parts i path

@[simp] theorem part_none (i : Nat) : none.part i = none := rfl

@[simp] theorem now_none : none.now = false := rfl

@[simp] theorem read_none {α : Type*} (value : Option α) : none.read value = value := rfl

@[simp] theorem part_all (i : Nat) : all.part i = all := rfl

@[simp] theorem now_all : all.now = true := rfl

@[simp] theorem read_all {α : Type*} (value : Option α) : all.read value = .none := rfl

@[simp] theorem part_join (parts : Nat → Faults) (i : Nat) : (join parts).part i = parts i := rfl

theorem read_eq_some {α : Type*} {faults : Faults} {value : Option α} {a : α}
    (h : faults.read value = some a) : value = some a := by
  unfold read at h
  split at h
  · cases h
  · exact h

end Faults

end WasixEth
