import Mathlib.Logic.Function.Basic

/-! # Key-value tables

A table is a partial function from keys to values. The order in which a
program enumerates the entries of a table is not part of its contents; where
that order matters, the enumeration is passed separately.
-/

namespace WasixEth

/-- The contents of a key-value table. -/
def Table (K V : Type*) := K → Option V

namespace Table

variable {K V : Type*}

instance : EmptyCollection (Table K V) := ⟨fun _ => none⟩

instance : Inhabited (Table K V) := ⟨∅⟩

def get (t : Table K V) (k : K) : Option V := t k

variable [DecidableEq K]

def insert (t : Table K V) (k : K) (v : V) : Table K V :=
  fun k' => if k' = k then some v else t k'

def erase (t : Table K V) (k : K) : Table K V :=
  fun k' => if k' = k then none else t k'

/-- Delete every entry whose key satisfies `p`. -/
def eraseWhere (t : Table K V) (p : K → Bool) : Table K V :=
  fun k' => if p k' then none else t k'

/-- Entries of `upper` shadow those of `t`. -/
def overlay (t upper : Table K V) : Table K V :=
  fun k' => (upper k').or (t k')

omit [DecidableEq K] in
@[ext] theorem ext {t t' : Table K V} (h : ∀ k, t.get k = t'.get k) : t = t' :=
  funext h

omit [DecidableEq K] in
@[simp] theorem get_empty (k : K) : (∅ : Table K V).get k = none := rfl

@[simp] theorem get_insert_self (t : Table K V) (k : K) (v : V) :
    (t.insert k v).get k = some v := by
  simp [get, insert]

theorem get_insert (t : Table K V) (k k' : K) (v : V) :
    (t.insert k v).get k' = if k' = k then some v else t.get k' := rfl

@[simp] theorem get_insert_of_ne {t : Table K V} {k k' : K} (v : V) (h : k' ≠ k) :
    (t.insert k v).get k' = t.get k' := by
  simp [get, insert, h]

theorem get_erase (t : Table K V) (k k' : K) :
    (t.erase k).get k' = if k' = k then none else t.get k' := rfl

omit [DecidableEq K] in
theorem get_eraseWhere (t : Table K V) (p : K → Bool) (k' : K) :
    (t.eraseWhere p).get k' = if p k' then none else t.get k' := rfl

omit [DecidableEq K] in
theorem get_overlay (t upper : Table K V) (k' : K) :
    (t.overlay upper).get k' = (upper.get k').or (t.get k') := rfl

end Table

end WasixEth
