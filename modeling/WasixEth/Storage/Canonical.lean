import WasixEth.Storage.TreeLaws

/-! # Canonical trees

The tree of a finite map over paths of one length, built from the map alone:
no extension over anything but a branch, no branch with fewer than two
children, and every child held in the way its own size asks for. Two maps
with the same entries have the same canonical tree.
-/

namespace WasixEth.Storage

namespace Tree

/-! ## Collapsing by the number of children -/

theorem children_eq_nil {child : Nibble → Tree} :
    children child = [] ↔ ∀ i, child i = empty := by
  simp [children, List.filter_eq_nil_iff]

theorem nodup_children (child : Nibble → Tree) : (children child).Nodup :=
  (List.nodup_finRange 16).filter _

theorem children_eq_singleton {child : Nibble → Tree} {i : Nibble} (hi : child i ≠ empty)
    (hother : ∀ j, j ≠ i → child j = empty) : children child = [i] := by
  have hmem : ∀ j, j ∈ children child ↔ j = i := by
    intro j
    rw [mem_children]
    constructor
    · intro hj
      by_contra hne
      exact hj (hother j hne)
    · rintro rfl
      exact hi
  exact List.perm_singleton.mp ((List.perm_ext_iff_of_nodup (nodup_children child)
    (List.nodup_singleton i)).mpr (by simpa using hmem))

theorem collapse_of_none {hashed : Nibble → Bool} {child : Nibble → Tree}
    (h : ∀ i, child i = empty) : collapse hashed child = empty := by
  simp [collapse, children_eq_nil.mpr h]

theorem collapse_of_one {hashed : Nibble → Bool} {child : Nibble → Tree} {i : Nibble}
    (hi : child i ≠ empty) (hother : ∀ j, j ≠ i → child j = empty) :
    collapse hashed child = joinBranch i (hashed i) (child i) := by
  simp [collapse, children_eq_singleton hi hother]

theorem collapse_of_two {hashed : Nibble → Bool} {child : Nibble → Tree} {i j : Nibble}
    (hij : i ≠ j) (hi : child i ≠ empty) (hj : child j ≠ empty) :
    collapse hashed child = branch hashed child := by
  have hi' : i ∈ children child := mem_children.mpr hi
  have hj' : j ∈ children child := mem_children.mpr hj
  unfold collapse
  split
  next hnone => simp [hnone] at hi'
  next k hone =>
    simp only [hone, List.mem_singleton] at hi' hj'
    exact absurd (hi'.trans hj'.symm) hij
  next => rfl

/-- A family of children has none, exactly one, or at least two members. -/
theorem children_cases (child : Nibble → Tree) :
    (∀ i, child i = empty) ∨ (∃ i, child i ≠ empty ∧ ∀ j, j ≠ i → child j = empty) ∨
      ∃ i j, i ≠ j ∧ child i ≠ empty ∧ child j ≠ empty := by
  by_cases hnone : ∀ i, child i = empty
  · exact .inl hnone
  · push Not at hnone
    obtain ⟨i, hi⟩ := hnone
    by_cases hone : ∀ j, j ≠ i → child j = empty
    · exact .inr (.inl ⟨i, hi, hone⟩)
    · push Not at hone
      obtain ⟨j, hji, hj⟩ := hone
      exact .inr (.inr ⟨i, j, Ne.symm hji, hi, hj⟩)

/-! ## Gathering children -/

/-- The tree above a family of children, each held as its size asks for. -/
def gather (child : Nibble → Tree) : Tree := collapse (fun i => (child i).link) child

/-- The canonical tree of a map over paths of length `depth`. -/
def canon : Nat → (Nibbles → Option Bytes) → Tree
  | 0, f =>
      match f [] with
      | none => empty
      | some value => leaf [] value
  | depth + 1, f => gather fun i => canon depth fun nibbles => f (i :: nibbles)

theorem joinBranch_ne_empty (i : Nibble) (hashed : Bool) (child : Tree) :
    joinBranch i hashed child ≠ empty := by
  cases child <;> simp [joinBranch]

theorem gather_eq_empty {child : Nibble → Tree} : gather child = empty ↔ ∀ i, child i = empty := by
  constructor
  · intro h i
    obtain hnone | ⟨j, hj, hother⟩ | ⟨j, k, hjk, hj, hk⟩ := children_cases child
    · exact hnone i
    · rw [gather, collapse_of_one hj hother] at h
      exact absurd h (joinBranch_ne_empty _ _ _)
    · rw [gather, collapse_of_two hjk hj hk] at h
      cases h
  · exact collapse_of_none

theorem lookup_gather (child : Nibble → Tree) (i : Nibble) (nibbles : Nibbles) :
    (gather child).lookup (i :: nibbles) = (child i).lookup nibbles :=
  lookup_collapse _ _ _ _

theorem regular_gather {depth : Nat} {child : Nibble → Tree} (h : ∀ i, Regular depth (child i)) :
    Regular (depth + 1) (gather child) :=
  regular_collapse (fun i => flagOk_link (child i)) h

theorem solid_joinBranch {i : Nibble} {hashed : Bool} {child : Tree} (hne : child ≠ empty)
    (h : child.Solid) : (joinBranch i hashed child).Solid := by
  cases child with
  | empty => exact absurd rfl hne
  | leaf key value => exact trivial
  | extension key hashed' child => exact h
  | branch hashed' child => exact ⟨by simp, h⟩

theorem solid_gather {child : Nibble → Tree} (h : ∀ i, (child i).Solid) : (gather child).Solid := by
  obtain hnone | ⟨i, hi, hother⟩ | ⟨i, j, hij, hi, hj⟩ := children_cases child
  · rw [gather, collapse_of_none hnone]
    exact trivial
  · rw [gather, collapse_of_one hi hother]
    exact solid_joinBranch hi (h i)
  · rw [gather, collapse_of_two hij hi hj]
    exact h

/-! ## Canonical trees of maps -/

/-- The map below a path. -/
def restrict (path : Nibbles) (f : Nibbles → Option Bytes) : Nibbles → Option Bytes :=
  fun nibbles => f (path ++ nibbles)

/-- All entries lie at paths of one length, with values that fit. -/
structure Supported (depth : Nat) (f : Nibbles → Option Bytes) : Prop where
  length_eq : ∀ nibbles value, f nibbles = some value → nibbles.length = depth
  fits : ∀ nibbles value, f nibbles = some value → value.length < 2 ^ 63

theorem canon_succ (depth : Nat) (f : Nibbles → Option Bytes) :
    canon (depth + 1) f = gather fun i => canon depth (restrict [i] f) := rfl

theorem Supported.restrict {depth : Nat} {f : Nibbles → Option Bytes} {path : Nibbles}
    (h : Supported (path.length + depth) f) : Supported depth (restrict path f) := by
  constructor
  · intro nibbles value hvalue
    have hlength := h.length_eq _ _ hvalue
    simpa using hlength
  · intro nibbles value hvalue
    exact h.fits _ _ hvalue

theorem Supported.slot {depth : Nat} {f : Nibbles → Option Bytes} (h : Supported (depth + 1) f)
    (i : Nibble) : Supported depth (Tree.restrict [i] f) :=
  Supported.restrict (by rwa [List.length_singleton, Nat.add_comm])

theorem Supported.update {depth : Nat} {f : Nibbles → Option Bytes} (h : Supported depth f)
    {nibbles : Nibbles} {value : Bytes} (hlength : nibbles.length = depth)
    (hvalue : value.length < 2 ^ 63) :
    Supported depth (Function.update f nibbles (some value)) := by
  constructor
  · intro other value' hother
    by_cases heq : other = nibbles
    · rw [heq, hlength]
    · exact h.length_eq other value' (by simpa [heq] using hother)
  · intro other value' hother
    by_cases heq : other = nibbles
    · subst heq
      obtain rfl : value = value' := by simpa using hother
      exact hvalue
    · exact h.fits other value' (by simpa [heq] using hother)

theorem Supported.erase {depth : Nat} {f : Nibbles → Option Bytes} (h : Supported depth f)
    (nibbles : Nibbles) : Supported depth (Function.update f nibbles none) := by
  constructor
  · intro other value hother
    by_cases heq : other = nibbles
    · simp [heq] at hother
    · exact h.length_eq other value (by simpa [heq] using hother)
  · intro other value hother
    by_cases heq : other = nibbles
    · simp [heq] at hother
    · exact h.fits other value (by simpa [heq] using hother)

theorem supported_none (depth : Nat) : Supported depth fun _ => none := ⟨by simp, by simp⟩

theorem canon_eq_empty {depth : Nat} {f : Nibbles → Option Bytes} (h : Supported depth f) :
    canon depth f = empty ↔ ∀ nibbles, f nibbles = none := by
  induction depth generalizing f with
  | zero =>
      have hnil : canon 0 f = empty ↔ f [] = none := by
        cases hf : f [] <;> simp [canon, hf]
      rw [hnil]
      refine ⟨fun hnone nibbles => ?_, fun hnone => hnone []⟩
      cases hvalue : f nibbles with
      | none => rfl
      | some value =>
          have hempty := List.length_eq_zero_iff.mp (h.length_eq _ _ hvalue)
          rw [hempty, hnone] at hvalue
          cases hvalue
  | succ depth ih =>
      rw [canon_succ, gather_eq_empty]
      constructor
      · intro hnone nibbles
        cases nibbles with
        | nil =>
            cases hvalue : f [] with
            | none => rfl
            | some value =>
                have hlength := h.length_eq _ _ hvalue
                simp at hlength
        | cons i nibbles => exact (ih (h.slot i)).mp (hnone i) nibbles
      · intro hnone i
        exact (ih (h.slot i)).mpr fun nibbles => hnone (i :: nibbles)

theorem lookup_canon {depth : Nat} {f : Nibbles → Option Bytes} {nibbles : Nibbles}
    (hlength : nibbles.length = depth) : (canon depth f).lookup nibbles = f nibbles := by
  induction depth generalizing f nibbles with
  | zero =>
      obtain rfl := List.length_eq_zero_iff.mp hlength
      cases hf : f [] <;> simp [canon, hf, lookup]
  | succ depth ih =>
      cases nibbles with
      | nil => simp at hlength
      | cons i nibbles =>
          rw [canon_succ, lookup_gather, ih (by simpa using hlength)]
          rfl

theorem regular_canon {depth : Nat} {f : Nibbles → Option Bytes} (h : Supported depth f) :
    Regular depth (canon depth f) := by
  induction depth generalizing f with
  | zero =>
      cases hf : f [] with
      | none => simpa [canon, hf] using Regular.empty 0
      | some value =>
          have hleaf : Regular 0 (leaf [] value) := .leaf rfl (h.fits _ _ hf)
          simpa [canon, hf] using hleaf
  | succ depth ih => exact regular_gather fun i => ih (h.slot i)

theorem solid_canon (depth : Nat) (f : Nibbles → Option Bytes) : (canon depth f).Solid := by
  induction depth generalizing f with
  | zero => cases hf : f [] <;> simp [canon, hf, Solid]
  | succ depth ih => exact solid_gather fun i => ih _

theorem canon_none (depth : Nat) : canon depth (fun _ => none) = empty :=
  (canon_eq_empty (supported_none depth)).mpr fun _ => rfl

-- at depth 64 unfolding would not come back
attribute [irreducible] canon

end Tree

end WasixEth.Storage
