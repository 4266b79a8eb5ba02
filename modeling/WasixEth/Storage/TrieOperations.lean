import WasixEth.Storage.TrieDeletion

/-! # Operations of a trie

`Holds tree` says that a trie stands for a tree over 32-byte keys: its root is
the hash of the tree and everything reached through a hash can be found. Each
public operation carries one such state to another and does not fail.
-/

namespace WasixEth.Storage

open Routine EthTrie

variable [Keccak256]

/-- The strings a run must keep apart: those in the store, those it hashes and
the one behind the root of the empty trie. -/
def runStrings (store : Table B256 Bytes) (log : List Bytes) : Set Bytes :=
  { data | data = [emptyStringCode] ∨ data ∈ log ∨ ∃ hash, store.get hash = some data }

/-- Every encoding in the store is filed under its own hash. -/
def HashKeyed (store : Table B256 Bytes) : Prop :=
  ∀ hash data, store.get hash = some data → keccak256 data = hash

theorem collisionFree_runStrings {store : Table B256 Bytes} {log : List Bytes}
    (h : Set.InjOn keccak256 (runStrings store log)) : CollisionFree (runStrings store log) :=
  ⟨.inl rfl, h⟩

/-- On a store without entries only the strings of the log have to be compared. -/
theorem injOn_runStrings_empty {log : List Bytes}
    (h : ∀ x ∈ [emptyStringCode] :: log, ∀ y ∈ [emptyStringCode] :: log,
      keccak256 x = keccak256 y → x = y) : Set.InjOn keccak256 (runStrings ∅ log) := by
  have hmem : ∀ data ∈ runStrings ∅ log, data ∈ [emptyStringCode] :: log := by
    rintro data (rfl | hdata | ⟨hash, hget⟩)
    · simp
    · simp [hdata]
    · simp at hget
  exact fun x hx y hy => h x (hmem x hx) y (hmem y hy)

structure Holds (store : Table B256 Bytes) (strings : Set Bytes) (clean : Prop)
    (known : Set Bytes) (tree : Tree) (t : EthTrie) : Prop where
  regular : tree.Regular 64
  held : Tree.heldBy true tree ⊆ known
  coherent : Coherent (EthTrie.new store tree.hash) strings clean known t

variable {store : Table B256 Bytes} {strings known : Set Bytes} {clean : Prop} {tree : Tree}

theorem Holds.root {t : EthTrie} (h : Holds store strings clean known tree t) :
    t.rootHash = tree.hash := h.coherent.root_eq

theorem Holds.mono {clean' : Prop} {known' : Set Bytes} {t : EthTrie}
    (h : Holds store strings clean known tree t) (hheld : Tree.heldBy true tree ⊆ known')
    (hsubset : known' ⊆ known) (hclean : clean' → clean) :
    Holds store strings clean' known' tree t :=
  ⟨h.regular, hheld, h.coherent.mono hsubset hclean⟩

/-- A trie opened on the empty root stands for the empty tree. -/
theorem holds_new (hstrings : CollisionFree strings)
    (hstore : ∀ hash data, store.get hash = some data → data ∈ strings ∧ keccak256 data = hash) :
    Holds store strings clean { [emptyStringCode] } .empty
      (EthTrie.new store emptyRootHash) := by
  refine ⟨.empty 64, ?_, ?_⟩
  · rintro data (hdata | ⟨-, rfl⟩)
    · simp [Tree.held] at hdata
    · rfl
  · refine ⟨by simp [EthTrie.new], by simp [EthTrie.new], rfl, rfl, hstore, ?_⟩
    rintro data rfl
    exact ⟨hstrings.empty_mem, .inl rfl⟩

theorem get_spec (hstrings : CollisionFree strings) (key : B256) :
    Triple (· ∈ strings) (Holds store strings clean known tree) (EthTrie.get key)
      fun value t => value = tree.lookup (unpack key) ∧
        Holds store strings clean known tree t := by
  unfold EthTrie.get getNibbles
  refine triple_read_bind fun t ht => ?_
  have hmem := ht.held (Tree.encode_mem_heldBy tree)
  rw [ht.root]
  unfold getRecursive
  split
  next hempty =>
    refine triple_pure fun s hs => ?_
    subst hs
    obtain rfl := (hash_eq_emptyRootHash hstrings ht.regular le_rfl
      (ht.coherent.found _ hmem).1).mp hempty
    exact ⟨rfl, ht⟩
  next =>
    refine triple_bind ((getNode_spec hstrings ht.regular le_rfl hmem).consequence
      (fun s hs => by subst hs; exact ht.coherent) fun _ _ h => h) fun node =>
        triple_of_pure_pre fun hreads => ?_
    refine (getRecursiveNode_spec hstrings _ le_rfl ht.regular hreads
      ((Tree.held_subset_heldBy true tree).trans ht.held) (length_unpack key) (by simp)).weaken ?_
    rintro value s ⟨rfl, hs⟩
    exact ⟨rfl, ht.regular, ht.held, hs⟩

theorem insert_spec (hstrings : CollisionFree strings) (key : B256) {value : Bytes}
    (hvalue : value.length < 2 ^ 63) (hsolid : clean → tree.Solid) :
    Triple (· ∈ strings) (Holds store strings clean known tree) (EthTrie.insert key value)
      fun _ t => Holds store strings clean
        (Tree.heldBy true (tree.insert (unpack key) value) ∪ known)
        (tree.insert (unpack key) value) t := by
  unfold EthTrie.insert insertNibbles
  refine triple_read_bind fun t ht => ?_
  rw [ht.root]
  refine triple_bind ((insertRecursive_spec hstrings _ le_rfl ht.regular ht.held hsolid
    (length_unpack key) hvalue (by simp)).consequence
      (fun s hs => by subst hs; exact ht.coherent) fun _ _ h => h) fun root =>
        triple_of_pure_pre ?_
  rintro rfl
  refine triple_modify fun s hs => ⟨?_, Set.subset_union_left, hs.setRoot _⟩
  exact (Tree.regular_insert ht.regular (length_unpack key) hvalue).1

theorem delete_spec (hstrings : CollisionFree strings) (key : B256) :
    Triple (· ∈ strings) (Holds store strings clean known tree) (EthTrie.delete key)
      fun _ t => ∃ counted, (clean → counted = fun _ => false) ∧
        Holds store strings (clean ∧ tree.leavesSlot (unpack key) = false)
          (Tree.heldBy true (tree.delete counted (unpack key)) ∪ known)
          (tree.delete counted (unpack key)) t := by
  unfold EthTrie.delete deleteNibbles
  refine triple_read_bind fun t ht => ?_
  rw [ht.root]
  refine triple_bind ((deleteRecursive_spec hstrings le_rfl ht.regular (length_unpack key)
    ht.held fun node hreads => deleteRecursiveNode_spec hstrings _ le_rfl ht.regular hreads
      ((Tree.held_subset_heldBy true tree).trans ht.held) (length_unpack key)
      (by simp)).consequence (fun s hs => by subst hs; exact ht.coherent) fun _ _ h => h)
        fun root => triple_of_exists_pre fun counted => triple_of_pure_pre fun hcounted =>
          triple_of_pure_pre ?_
  rintro rfl
  refine triple_modify fun s hs => ⟨counted, hcounted, ?_, Set.subset_union_left,
    hs.setRoot _⟩
  exact Tree.regular_delete ht.regular counted (length_unpack key)

/-! ## Reading logs nothing -/

namespace EthTrie

variable {allowed : Bytes → Prop}

theorem logsOnly_getNode (hash : B256) : LogsOnly allowed (getNode hash) := by
  unfold getNode
  split
  · exact logsOnly_pure _
  · refine logsOnly_bind logsOnly_read fun t => ?_
    split
    · exact logsOnly_pure _
    · refine logsOnly_bind (logsOnly_liftExcept _) fun data => ?_
      refine logsOnly_bind (logsOnly_liftExcept _) fun node => ?_
      exact logsOnly_bind (logsOnly_modify _) fun _ => logsOnly_pure _

theorem logsOnly_getRecursiveRlp {get : MyTrieNode → Nibbles → TrieM (Option Bytes)}
    (hget : ∀ node nibbles, LogsOnly allowed (get node nibbles)) (rlp : RlpNode)
    (nibbles : Nibbles) :
    LogsOnly allowed (getRecursiveRlp get rlp nibbles) := by
  unfold getRecursiveRlp
  split
  · split
    · exact logsOnly_pure _
    · exact logsOnly_bind (logsOnly_getNode _) fun node => hget node nibbles
  · split
    · exact logsOnly_pure _
    · exact logsOnly_bind (logsOnly_liftExcept _) fun node => hget node nibbles

theorem logsOnly_getRecursiveNode (fuel : Nat) (node : MyTrieNode) (nibbles : Nibbles) :
    LogsOnly allowed (getRecursiveNode fuel node nibbles) := by
  induction fuel generalizing node nibbles with
  | zero => exact logsOnly_fail _
  | succ fuel ih =>
      unfold getRecursiveNode
      split
      · exact logsOnly_pure _
      · exact logsOnly_pure _
      · split
        · exact logsOnly_getRecursiveRlp ih _ _
        · exact logsOnly_pure _
      · split
        · exact logsOnly_pure _
        · exact logsOnly_getRecursiveRlp ih _ _

theorem logsOnly_get (key : B256) : LogsOnly allowed (EthTrie.get key) := by
  refine logsOnly_bind logsOnly_read fun t => ?_
  unfold getRecursive
  split
  · exact logsOnly_pure _
  · exact logsOnly_bind (logsOnly_getNode _) fun node => logsOnly_getRecursiveNode _ node _

end EthTrie

end WasixEth.Storage
