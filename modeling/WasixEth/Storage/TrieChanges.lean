import WasixEth.Storage.RootEquality

/-! # Changing one key of a freshly built trie

Overwriting and deleting a key of a fresh trie against building the changed
map from scratch. Both agree exactly as long as the operations meet nothing
they fail to bring back to canonical shape on the key's path.
-/

namespace WasixEth.Storage

open Routine YellowPaper

/-! ## Conditions on the entries -/

theorem supported_restrict {depth : Nat} {f : Nibbles → Option Bytes}
    (h : Tree.Supported depth f) (path : Nibbles) :
    Tree.Supported (depth - path.length) (Tree.restrict path f) := by
  constructor
  · intro nibbles value hvalue
    have hlength := h.length_eq _ _ hvalue
    simp only [List.length_append] at hlength
    omega
  · intro nibbles value hvalue
    exact h.fits _ _ hvalue

theorem branching_iff_branchAt {entries : Entries} {f : Nibbles → Option Bytes} {depth : Nat}
    (h : Lists entries f) (hf : Tree.Supported depth f) (path : Nibbles) :
    Tree.Branching f path ↔ BranchAt entries path := by
  have hbelow := h.below path
  constructor
  · rintro ⟨i, tail, j, tail', hij, hi, hj⟩
    obtain ⟨value, hvalue⟩ := Option.ne_none_iff_exists'.mp hi
    obtain ⟨value', hvalue'⟩ := Option.ne_none_iff_exists'.mp hj
    have hmem := (hbelow.mem_iff _ _).mpr hvalue
    have hmem' := (hbelow.mem_iff _ _).mpr hvalue'
    constructor
    · have hnodup : [(i :: tail, value), (j :: tail', value')].Nodup := by simp [hij]
      exact (List.subperm_of_subset hnodup (by simp [hmem, hmem'])).length_le
    · have hpath := (isPrefix_sharedPath (List.ne_nil_of_mem hmem)).mp (List.prefix_refl _)
      have hfirst := hpath _ hmem
      have hsecond := hpath _ hmem'
      cases hshared : sharedPath (below path entries) with
      | nil => rfl
      | cons k rest =>
          rw [hshared] at hfirst hsecond
          have hki := (List.cons_prefix_cons.mp hfirst).1
          have hkj := (List.cons_prefix_cons.mp hsecond).1
          exact absurd (hki.symm.trans hkj) hij
  · rintro ⟨htwo, hshared⟩
    have hbranching := branching_sharedPath hbelow (supported_restrict hf path) htwo
    rw [hshared] at hbranching
    exact hbranching

theorem referenced_iff_childAt {entries : Entries} {f : Nibbles → Option Bytes} {depth : Nat}
    (h : Lists entries f) (hf : Tree.Supported depth f) (path : Nibbles) :
    Tree.Referenced f path ↔ ChildAt entries path :=
  or_congr (branching_iff_branchAt h hf _) (branching_iff_branchAt h hf path)

section

variable [Keccak256]

theorem long_iff_longAt {entries : Entries} {f : Nibbles → Option Bytes}
    (h : Lists entries f) (hf : Tree.Supported 64 f) (path : Nibbles) :
    Tree.Long 64 f path ↔ LongAt entries path := by
  have hbelow := supported_restrict hf path
  rw [Tree.Long, LongAt, node_eq_encode (h.below path) hbelow (by omega) (by omega),
    Tree.length_tree_encode (Tree.regular_canon hbelow) (by omega)]

/-- Nothing on the path that was long enough for a hash becomes too short. -/
def KeepsLong (before after : Entries) (nibbles : Nibbles) : Prop :=
  ∀ path, path ≠ [] → path <+: nibbles → ChildAt before path → LongAt before path →
    LongAt after path

instance (before after : Entries) (nibbles : Nibbles) :
    Decidable (KeepsLong before after nibbles) :=
  decidable_of_iff (∀ path ∈ nibbles.inits, path ≠ [] → ChildAt before path →
      LongAt before path → LongAt after path) (by
    simp only [List.mem_inits, KeepsLong]
    exact forall_congr' fun path => ⟨fun h hne hpre => h hpre hne, fun h hpre hne => h hne hpre⟩)

theorem staysLong_iff_keepsLong {before after : Entries} {f : Nibbles → Option Bytes}
    {nibbles : Nibbles} {value : Option Bytes} (hf : Tree.Supported 64 f)
    (hf' : Tree.Supported 64 (Function.update f nibbles value)) (hbefore : Lists before f)
    (hafter : Lists after (Function.update f nibbles value)) :
    Tree.StaysLong 64 f nibbles value ↔ KeepsLong before after nibbles := by
  unfold Tree.StaysLong KeepsLong
  simp only [referenced_iff_childAt hbefore hf, long_iff_longAt hbefore hf,
    long_iff_longAt hafter hf']

end

/-! ## Changed lists -/

/-- The entries with one value replaced. -/
def replaced (leaves : List (B256 × Bytes)) (key : B256) (value : Bytes) : List (B256 × Bytes) :=
  leaves.map fun leaf => if leaf.1 = key then (key, value) else leaf

/-- The entries without one key. -/
def without (leaves : List (B256 × Bytes)) (key : B256) : List (B256 × Bytes) :=
  leaves.filter fun leaf => leaf.1 ≠ key

theorem map_fst_replaced (leaves : List (B256 × Bytes)) (key : B256) (value : Bytes) :
    (replaced leaves key value).map Prod.fst = leaves.map Prod.fst := by
  rw [replaced, List.map_map]
  refine List.map_congr_left fun leaf _ => ?_
  by_cases heq : leaf.1 = key
  · simp [heq]
  · simp [heq]

theorem nodup_without {leaves : List (B256 × Bytes)} (h : (leaves.map Prod.fst).Nodup)
    (key : B256) : ((without leaves key).map Prod.fst).Nodup :=
  h.sublist (List.filter_sublist.map _)

theorem mem_entriesOf {leaves : List (B256 × Bytes)} {nibbles : Nibbles} {value : Bytes} :
    (nibbles, value) ∈ entriesOf leaves ↔ ∃ key, (key, value) ∈ leaves ∧ unpack key = nibbles := by
  unfold entriesOf
  rw [List.mem_map]
  constructor
  · rintro ⟨⟨key, value'⟩, hmem, heq⟩
    obtain ⟨rfl, rfl⟩ := Prod.mk.inj heq
    exact ⟨key, hmem, rfl⟩
  · rintro ⟨key, hmem, rfl⟩
    exact ⟨(key, value), hmem, rfl⟩

theorem map_fst_entriesOf (leaves : List (B256 × Bytes)) :
    (entriesOf leaves).map Prod.fst = (leaves.map Prod.fst).map unpack := by
  simp [entriesOf, Function.comp_def]

theorem nodup_entriesOf {leaves : List (B256 × Bytes)} (h : (leaves.map Prod.fst).Nodup) :
    ((entriesOf leaves).map Prod.fst).Nodup := by
  rw [map_fst_entriesOf]
  exact h.map unpack_injective

theorem contentsOf_ne_none {leaves : List (B256 × Bytes)} (hnodup : (leaves.map Prod.fst).Nodup)
    {key : B256} (hkey : key ∈ leaves.map Prod.fst) : contentsOf leaves (unpack key) ≠ none := by
  obtain ⟨leaf, hleaf, rfl⟩ := List.mem_map.mp hkey
  rw [((lists_contentsOf hnodup).mem_iff _ _).mp (mem_entriesOf.mpr ⟨leaf.1, hleaf, rfl⟩)]
  simp

theorem lists_replaced {leaves : List (B256 × Bytes)} (hnodup : (leaves.map Prod.fst).Nodup)
    {key : B256} (hkey : key ∈ leaves.map Prod.fst) (value : Bytes) :
    Lists (entriesOf (replaced leaves key value))
      (Function.update (contentsOf leaves) (unpack key) (some value)) := by
  refine ⟨nodup_entriesOf (by rwa [map_fst_replaced]), fun nibbles value' => ?_⟩
  obtain ⟨⟨key', old⟩, hold, rfl⟩ := List.mem_map.mp hkey
  rw [mem_entriesOf]
  by_cases heq : nibbles = unpack key'
  · subst heq
    rw [Function.update_self]
    constructor
    · rintro ⟨key, hmem, hunpack⟩
      obtain rfl := unpack_injective hunpack
      obtain ⟨leaf, -, hleaf⟩ := List.mem_map.mp hmem
      split at hleaf
      next => rw [(Prod.mk.inj hleaf).2]
      next hne =>
        rw [hleaf] at hne
        exact absurd rfl hne
    · intro hvalue
      obtain rfl := Option.some.inj hvalue
      exact ⟨key', List.mem_map.mpr ⟨_, hold, by simp⟩, rfl⟩
  · rw [Function.update_of_ne heq, ← (lists_contentsOf hnodup).mem_iff, mem_entriesOf]
    constructor
    · rintro ⟨key, hmem, rfl⟩
      obtain ⟨leaf, hleaf, hsame⟩ := List.mem_map.mp hmem
      split at hsame
      next =>
        obtain ⟨rfl, -⟩ := Prod.mk.inj hsame
        exact absurd rfl heq
      next =>
        subst hsame
        exact ⟨key, hleaf, rfl⟩
    · rintro ⟨key, hmem, rfl⟩
      have hne : key ≠ key' := fun h => heq (h ▸ rfl)
      exact ⟨key, List.mem_map.mpr ⟨_, hmem, by simp [hne]⟩, rfl⟩

theorem lists_without {leaves : List (B256 × Bytes)} (hnodup : (leaves.map Prod.fst).Nodup)
    (key : B256) :
    Lists (entriesOf (without leaves key))
      (Function.update (contentsOf leaves) (unpack key) none) := by
  refine ⟨nodup_entriesOf (nodup_without hnodup key), fun nibbles value => ?_⟩
  rw [mem_entriesOf]
  by_cases heq : nibbles = unpack key
  · subst heq
    rw [Function.update_self]
    constructor
    · rintro ⟨key', hmem, hunpack⟩
      obtain rfl := unpack_injective hunpack
      simp [without] at hmem
    · intro h
      cases h
  · rw [Function.update_of_ne heq, ← (lists_contentsOf hnodup).mem_iff, mem_entriesOf]
    refine exists_congr fun key' => ?_
    rw [and_congr_left_iff]
    rintro rfl
    have hne : key' ≠ key := fun h => heq (h ▸ rfl)
    simp [without, hne]

end WasixEth.Storage
