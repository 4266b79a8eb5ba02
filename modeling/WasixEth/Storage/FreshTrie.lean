import WasixEth.Storage.CanonicalNode
import WasixEth.Storage.TrieOperations

/-! # Freshly built tries

Inserting distinct keys into the empty trie builds the canonical tree, so a
fresh trie has the root of the Yellow Paper whatever the order of the
insertions.
-/

namespace WasixEth.Storage

open Routine YellowPaper

/-! ## The map written by a list of entries -/

/-- A map after writing entries one after the other. -/
def written (f : Nibbles → Option Bytes) : List (B256 × Bytes) → Nibbles → Option Bytes
  | [] => f
  | (key, value) :: rest => written (Function.update f (unpack key) (some value)) rest

/-- The map of a list of entries. -/
def contentsOf (leaves : List (B256 × Bytes)) : Nibbles → Option Bytes :=
  written (fun _ => none) leaves

/-- Values are `Vec<u8>`, whose length is bounded by the largest `isize`. -/
def ValuesFit (leaves : List (B256 × Bytes)) : Prop := ∀ leaf ∈ leaves, leaf.2.length < 2 ^ 63

theorem Lists.insert {entries : Entries} {f : Nibbles → Option Bytes} (h : Lists entries f)
    {nibbles : Nibbles} (hnew : f nibbles = none) (value : Bytes) :
    Lists (entries ++ [(nibbles, value)]) (Function.update f nibbles (some value)) := by
  have hnot : ∀ value', (nibbles, value') ∉ entries := by
    intro value' hmem
    rw [h.mem_iff, hnew] at hmem
    cases hmem
  constructor
  · rw [List.map_append, List.nodup_append]
    refine ⟨h.nodup, by simp, ?_⟩
    rintro key hkey other hother rfl
    obtain ⟨⟨key', value'⟩, hmem, rfl⟩ := List.mem_map.mp hkey
    obtain rfl : key' = nibbles := by simpa using hother
    exact hnot value' hmem
  · intro other value'
    by_cases heq : other = nibbles
    · subst heq
      simp [hnot value', eq_comm]
    · simp [heq, h.mem_iff]

theorem lists_written {entries : Entries} {f : Nibbles → Option Bytes} (h : Lists entries f)
    {leaves : List (B256 × Bytes)} (hnodup : (leaves.map Prod.fst).Nodup)
    (hnew : ∀ leaf ∈ leaves, f (unpack leaf.1) = none) :
    Lists (entries ++ entriesOf leaves) (written f leaves) := by
  induction leaves generalizing entries f with
  | nil => simpa [entriesOf, written] using h
  | cons leaf rest ih =>
      rw [List.map_cons, List.nodup_cons] at hnodup
      have hrest := ih (h.insert (hnew leaf (by simp)) leaf.2) hnodup.2 ?_
      · rw [List.append_assoc] at hrest
        exact hrest
      · intro other hother
        have hne : unpack other.1 ≠ unpack leaf.1 := by
          intro heq
          exact hnodup.1 (unpack_injective heq ▸ List.mem_map_of_mem hother)
        rw [Function.update_of_ne hne]
        exact hnew other (by simp [hother])

theorem lists_contentsOf {leaves : List (B256 × Bytes)} (hnodup : (leaves.map Prod.fst).Nodup) :
    Lists (entriesOf leaves) (contentsOf leaves) :=
  lists_written (show Lists [] _ from ⟨by simp, by simp⟩) hnodup fun _ _ => rfl

theorem supported_written {f : Nibbles → Option Bytes} (h : Tree.Supported 64 f)
    {leaves : List (B256 × Bytes)} (hfit : ValuesFit leaves) :
    Tree.Supported 64 (written f leaves) := by
  induction leaves generalizing f with
  | nil => exact h
  | cons leaf rest ih =>
      exact ih (h.update (length_unpack leaf.1) (hfit leaf (by simp)))
        fun other hother => hfit other (by simp [hother])

theorem supported_contentsOf {leaves : List (B256 × Bytes)} (hfit : ValuesFit leaves) :
    Tree.Supported 64 (contentsOf leaves) :=
  supported_written (Tree.supported_none 64) hfit

/-- A list of entries lists one map only. -/
theorem Lists.unique {entries : Entries} {f g : Nibbles → Option Bytes} (hf : Lists entries f)
    (hg : Lists entries g) : f = g := by
  funext nibbles
  refine Option.ext fun value => ?_
  rw [← hf.mem_iff, hg.mem_iff]

theorem Lists.perm {entries entries' : Entries} {f : Nibbles → Option Bytes}
    (h : Lists entries f) (hperm : entries.Perm entries') : Lists entries' f :=
  ⟨(hperm.map Prod.fst).nodup_iff.mp h.nodup, fun nibbles value => by
    rw [← hperm.mem_iff, h.mem_iff]⟩

theorem contentsOf_eq {leaves : List (B256 × Bytes)} {f : Nibbles → Option Bytes}
    (hnodup : (leaves.map Prod.fst).Nodup) (h : Lists (entriesOf leaves) f) :
    contentsOf leaves = f :=
  (lists_contentsOf hnodup).unique h

theorem contentsOf_perm {leaves leaves' : List (B256 × Bytes)}
    (hnodup : (leaves.map Prod.fst).Nodup) (hperm : leaves.Perm leaves') :
    contentsOf leaves' = contentsOf leaves :=
  contentsOf_eq ((hperm.map Prod.fst).nodup_iff.mp hnodup)
    ((lists_contentsOf hnodup).perm (hperm.map _))

section

variable [Keccak256]

theorem trie_eq {leaves : List (B256 × Bytes)} (hnodup : (leaves.map Prod.fst).Nodup)
    (hfit : ValuesFit leaves) : trie leaves = (Tree.canon 64 (contentsOf leaves)).hash := by
  rw [trie, node_eq_encode (lists_contentsOf hnodup) (supported_contentsOf hfit) le_rfl
    (by omega)]
  rfl

/-! ## Insertion of distinct keys -/

variable {store : Table B256 Bytes} {strings : Set Bytes}

/-- The trie stands for the canonical tree of a map. -/
def HoldsMap (store : Table B256 Bytes) (strings : Set Bytes) (f : Nibbles → Option Bytes) :
    EthTrie → Prop :=
  Holds store strings True (Tree.heldBy true (Tree.canon 64 f)) (Tree.canon 64 f)

theorem holdsMap_new (hstrings : CollisionFree strings)
    (hstore : ∀ hash data, store.get hash = some data → data ∈ strings ∧ keccak256 data = hash) :
    HoldsMap store strings (fun _ => none) (EthTrie.new store emptyRootHash) := by
  have hnew : Holds _ _ True _ _ _ := holds_new hstrings hstore
  unfold HoldsMap
  rw [Tree.canon_none]
  refine hnew.mono subset_rfl ?_ id
  rintro data (hdata | ⟨-, rfl⟩)
  · simp [Tree.held] at hdata
  · rfl

/-- Inserting into the trie of a map inserts into the canonical tree. -/
theorem insert_holdsMap (hstrings : CollisionFree strings) (f : Nibbles → Option Bytes)
    (key : B256) {value : Bytes} (hvalue : value.length < 2 ^ 63) :
    Triple (· ∈ strings) (HoldsMap store strings f) (EthTrie.insert key value) fun _ t =>
      Holds store strings True
        (Tree.heldBy true ((Tree.canon 64 f).insert (unpack key) value))
        ((Tree.canon 64 f).insert (unpack key) value) t := by
  have hsolid := Tree.solid_canon 64 f
  refine (insert_spec hstrings key hvalue fun _ => hsolid).weaken ?_
  intro _ t ht
  exact ht.mono subset_rfl Set.subset_union_left id

theorem insertAll_holdsMap (hstrings : CollisionFree strings) {f : Nibbles → Option Bytes}
    (hf : Tree.Supported 64 f) {leaves : List (B256 × Bytes)}
    (hnodup : (leaves.map Prod.fst).Nodup) (hfit : ValuesFit leaves)
    (hnew : ∀ leaf ∈ leaves, f (unpack leaf.1) = none) :
    Triple (· ∈ strings) (HoldsMap store strings f) (insertAll leaves)
      fun _ t => HoldsMap store strings (written f leaves) t := by
  induction leaves generalizing f with
  | nil => exact triple_pure fun t ht => ht
  | cons leaf rest ih =>
      rw [List.map_cons, List.nodup_cons] at hnodup
      have hvalue := hfit leaf (by simp)
      refine triple_bind (insert_holdsMap hstrings f leaf.1 hvalue) fun _ => ?_
      rw [Tree.insert_canon_new hf le_rfl (length_unpack leaf.1) hvalue (hnew leaf (by simp))]
      refine ih (hf.update (length_unpack leaf.1) hvalue) hnodup.2
        (fun other hother => hfit other (by simp [hother])) fun other hother => ?_
      have hne : unpack other.1 ≠ unpack leaf.1 := by
        intro heq
        exact hnodup.1 (unpack_injective heq ▸ List.mem_map_of_mem hother)
      rw [Function.update_of_ne hne]
      exact hnew other (by simp [hother])

/-- Building a trie over a store. -/
theorem insertAll_new (hstrings : CollisionFree strings)
    (hstore : ∀ hash data, store.get hash = some data → data ∈ strings ∧ keccak256 data = hash)
    {leaves : List (B256 × Bytes)} (hnodup : (leaves.map Prod.fst).Nodup)
    (hfit : ValuesFit leaves) :
    Triple (· ∈ strings) (· = EthTrie.new store emptyRootHash) (insertAll leaves)
      fun _ t => HoldsMap store strings (contentsOf leaves) t := by
  refine (insertAll_holdsMap hstrings (Tree.supported_none 64) hnodup hfit
    fun _ _ => rfl).consequence ?_ fun _ _ h => h
  rintro t rfl
  exact holdsMap_new hstrings hstore

/-- The empty trie in memory. -/
def emptyTrie : EthTrie := EthTrie.new ∅ emptyRootHash

/-- Building a trie in memory. -/
theorem insertAll_emptyTrie (hstrings : CollisionFree strings) {leaves : List (B256 × Bytes)}
    (hnodup : (leaves.map Prod.fst).Nodup) (hfit : ValuesFit leaves) :
    Triple (· ∈ strings) (· = emptyTrie) (insertAll leaves)
      fun _ t => HoldsMap ∅ strings (contentsOf leaves) t :=
  insertAll_new hstrings (by simp) hnodup hfit

theorem calculateTrieRoot_eq {leaves : List (B256 × Bytes)}
    (hnodup : (leaves.map Prod.fst).Nodup) (hfit : ValuesFit leaves)
    (hfree : Set.InjOn keccak256 (runStrings ∅ (insertAll leaves emptyTrie).log)) :
    calculateTrieRoot leaves = .ok (trie leaves) := by
  obtain ⟨_, hresult, hholds⟩ := insertAll_emptyTrie (collisionFree_runStrings hfree) hnodup hfit
    emptyTrie rfl fun data hdata => .inr (.inl hdata)
  have hroot : (insertAll leaves emptyTrie).state.rootHash = trie leaves := by
    rw [trie_eq hnodup hfit]
    exact hholds.root
  unfold emptyTrie at hresult hroot
  rw [calculateTrieRoot, hresult, ← hroot]
  rfl

/-- A freshly built trie has the root of the Yellow Paper, and so the order of
its leaves is immaterial. -/
theorem calculateTrieRoot_eq_trie (leaves : List (B256 × Bytes))
    (hnodup : (leaves.map Prod.fst).Nodup) (hfit : ValuesFit leaves)
    (hfree : Set.InjOn keccak256 (runStrings ∅ (insertAll leaves emptyTrie).log)) :
    calculateTrieRoot leaves = .ok (trie leaves) ∧
      ∀ leaves', leaves.Perm leaves' →
        Set.InjOn keccak256 (runStrings ∅ (insertAll leaves' emptyTrie).log) →
        calculateTrieRoot leaves' = calculateTrieRoot leaves := by
  have hroot := calculateTrieRoot_eq hnodup hfit hfree
  refine ⟨hroot, fun leaves' hperm hfree' => ?_⟩
  have hnodup' := (hperm.map Prod.fst).nodup_iff.mp hnodup
  have hfit' : ValuesFit leaves' := fun leaf hleaf => hfit leaf (hperm.mem_iff.mpr hleaf)
  rw [hroot, calculateTrieRoot_eq hnodup' hfit' hfree', trie_eq hnodup' hfit',
    contentsOf_perm hnodup hperm, trie_eq hnodup hfit]

end

section Keccak

attribute [local instance] keccak

/-- Two leaves that share the first nibble of their keys, inlined below an
extension. -/
def sharedNibbleLeaves : List (B256 × Bytes) :=
  [(B256.leading 0x11, [1]), (B256.leading 0x12, [2])]

theorem calculateTrieRoot_sharedNibbleLeaves :
    calculateTrieRoot sharedNibbleLeaves = .ok (trie sharedNibbleLeaves) ∧
      calculateTrieRoot sharedNibbleLeaves.reverse = calculateTrieRoot sharedNibbleLeaves := by
  have h := calculateTrieRoot_eq_trie sharedNibbleLeaves (by decide)
    (by simp [ValuesFit, sharedNibbleLeaves]) (injOn_runStrings_empty (by decide +kernel))
  refine ⟨h.1, h.2 _ (List.reverse_perm _).symm ?_⟩
  exact injOn_runStrings_empty (by decide +kernel)

end Keccak

end WasixEth.Storage
