import WasixEth.Storage.TrieChanges

/-! # Overwriting a key

`insert` on a key that is already present keeps every child on the path that
was held by hash held by hash. A new value short enough to call for inlining
one of them yields another root than building the changed map does.
-/

namespace WasixEth.Storage

open Routine YellowPaper

section

variable [Keccak256]

/-- Build a trie, then insert one more entry. -/
def insertAfter (leaves : List (B256 × Bytes)) (key : B256) (value : Bytes) : TrieM Unit := do
  insertAll leaves
  EthTrie.insert key value

variable {strings : Set Bytes}

theorem insertAfter_spec (hstrings : CollisionFree strings) {leaves : List (B256 × Bytes)}
    (hnodup : (leaves.map Prod.fst).Nodup) (hfit : ValuesFit leaves) (key : B256) {value : Bytes}
    (hvalue : value.length < 2 ^ 63) :
    Triple (· ∈ strings) (· = emptyTrie) (insertAfter leaves key value) fun _ t =>
      Holds ∅ strings True
        (Tree.heldBy true ((Tree.canon 64 (contentsOf leaves)).insert (unpack key) value))
        ((Tree.canon 64 (contentsOf leaves)).insert (unpack key) value) t :=
  triple_bind (insertAll_emptyTrie hstrings hnodup hfit) fun _ =>
    insert_holdsMap hstrings (contentsOf leaves) key hvalue

/-- Overwriting a key of a fresh trie gives the root of the changed map exactly
when no child on the key's path falls below the length of a hash. -/
theorem insertAfter_root_iff (leaves : List (B256 × Bytes)) (hnodup : (leaves.map Prod.fst).Nodup)
    (hfit : ValuesFit leaves) (key : B256) (hkey : key ∈ leaves.map Prod.fst) (value : Bytes)
    (hvalue : value.length < 2 ^ 63) (leaves' : List (B256 × Bytes))
    (hperm : leaves'.Perm (replaced leaves key value))
    (hfree : Set.InjOn keccak256 (runStrings ∅ ((insertAfter leaves key value emptyTrie).log ++
      (insertAll leaves' emptyTrie).log))) :
    (insertAfter leaves key value emptyTrie).result = .ok () ∧
      (insertAll leaves' emptyTrie).result = .ok () ∧
      ((insertAfter leaves key value emptyTrie).state.rootHash =
          (insertAll leaves' emptyTrie).state.rootHash ↔
        KeepsLong (entriesOf leaves) (entriesOf leaves') (unpack key)) := by
  have hstrings := collisionFree_runStrings hfree
  have hlists := lists_contentsOf hnodup
  have hreplaced := (lists_replaced hnodup hkey value).perm (hperm.map _).symm
  have hnodup' : (leaves'.map Prod.fst).Nodup := by
    rw [(hperm.map Prod.fst).nodup_iff, map_fst_replaced]
    exact hnodup
  have hfit' : ValuesFit leaves' := by
    intro leaf hleaf
    obtain ⟨old, hold, hsame⟩ := List.mem_map.mp (hperm.mem_iff.mp hleaf)
    split at hsame
    · rw [← hsame]
      exact hvalue
    · rw [← hsame]
      exact hfit old hold
  have hpresent := contentsOf_ne_none hnodup hkey
  obtain ⟨_, hresult, hholds⟩ := insertAfter_spec hstrings hnodup hfit key hvalue emptyTrie rfl
    fun data hdata => .inr (.inl (List.mem_append_left _ hdata))
  obtain ⟨_, hresult', hholds'⟩ := insertAll_emptyTrie hstrings hnodup' hfit' emptyTrie rfl
    fun data hdata => .inr (.inl (List.mem_append_right _ hdata))
  refine ⟨hresult, hresult', ?_⟩
  rw [hholds.root_eq_iff hstrings hholds', contentsOf_eq hnodup' hreplaced,
    Tree.insert_canon_iff (supported_contentsOf hfit) (length_unpack key) hvalue hpresent]
  exact staysLong_iff_keepsLong (supported_contentsOf hfit)
    ((supported_contentsOf hfit).update (length_unpack key) hvalue) hlists hreplaced

end

section Keccak

attribute [local instance] keccak

theorem insertAfter_sharedNibbleLeaves :
    (insertAfter sharedNibbleLeaves (B256.leading 0x11) [3] emptyTrie).state.rootHash =
      (insertAll [(B256.leading 0x12, [2]), (B256.leading 0x11, [3])]
        emptyTrie).state.rootHash := by
  refine (insertAfter_root_iff sharedNibbleLeaves (by decide)
    (by simp [ValuesFit, sharedNibbleLeaves]) (B256.leading 0x11) (by decide) [3] (by decide)
    [(B256.leading 0x12, [2]), (B256.leading 0x11, [3])] (by decide)
    (injOn_runStrings_empty (by decide +kernel))).2.2.mpr ?_
  decide +kernel

/-- A 32-byte value makes the leaf long enough for a hash although its path is
used up; the one-byte value that replaces it does not. -/
theorem insertAfter_root_ne :
    (insertAfter [(B256.trailing 0, List.replicate 32 1), (B256.trailing 1, [2])]
        (B256.trailing 0) [1] emptyTrie).state.rootHash ≠
      (insertAll [(B256.trailing 0, [1]), (B256.trailing 1, [2])] emptyTrie).state.rootHash := by
  decide +kernel

end Keccak

end WasixEth.Storage
