import WasixEth.Storage.BatchWriter
import WasixEth.Storage.TrieMap

/-! # Tries in the tables of a batch

A trie is in the node table if everything below its root can be found there.
Reading it from a batch returns its contents. A trie that is written to and
committed is in the table afterwards, and so is every trie that was there
before.
-/

namespace WasixEth.Storage

open Routine BatchWriter

section

variable [Keccak256]

/-- Every node is filed under its hash and is one of the strings in play. -/
def Keyed (strings : Set Bytes) (nodes : Table B256 Bytes) : Prop :=
  ∀ hash data, nodes.get hash = some data → data ∈ strings ∧ keccak256 data = hash

/-- The trie below a root is in the table and has these contents. -/
def TrieAt (nodes : Table B256 Bytes) (root : B256) (contents : B256 → Option Bytes) : Prop :=
  ∃ tree : Tree, root = tree.hash ∧ tree.Regular 64 ∧
    (∀ data ∈ Tree.heldBy true tree,
      data = [emptyStringCode] ∨ nodes.get (keccak256 data) = some data) ∧
    ∀ key, tree.lookup (unpack key) = contents key

/-- A trie that is open over a table and has these contents. -/
def Opened (strings : Set Bytes) (nodes : Table B256 Bytes) (contents : B256 → Option Bytes)
    (trie : EthTrie) : Prop :=
  ∃ tree, Holds nodes strings False (Tree.heldBy true tree) tree { trie with state := nodes } ∧
    ∀ key, tree.lookup (unpack key) = contents key

/-- Nodes are added and never lost. -/
def Grows (nodes nodes' : Table B256 Bytes) : Prop :=
  ∀ hash data, nodes.get hash = some data → nodes'.get hash = some data

/-- Everything below a tree is in the table. -/
def Tree.StoredIn (nodes : Table B256 Bytes) (tree : Tree) : Prop :=
  ∀ data ∈ tree.held, data = [emptyStringCode] ∨ nodes.get (keccak256 data) = some data

variable {strings : Set Bytes} {nodes nodes' : Table B256 Bytes} {root : B256}
  {contents : B256 → Option Bytes}

omit [Keccak256] in
theorem Grows.trans {nodes'' : Table B256 Bytes} (h : Grows nodes nodes')
    (h' : Grows nodes' nodes'') : Grows nodes nodes'' :=
  fun hash data hget => h' hash data (h hash data hget)

/-- What the reference to a child of a stored tree leads to. -/
theorem reference_cases {rlp : RlpNode} {hashed : Bool} {child : Tree} {depth : Nat}
    (hdenotes : Tree.Denotes rlp hashed child) (hflag : Tree.FlagOk hashed child)
    (hregular : child.Regular depth) (hdepth : depth ≤ 64)
    (hstored : ∀ data ∈ Tree.heldBy hashed child,
      data = [emptyStringCode] ∨ nodes.get (keccak256 data) = some data) :
    rlp.asHash = some child.hash ∧ nodes.get child.hash = some child.encode ∨
      rlp.asHash = none ∧ (rlp.isEmpty = true → child = .empty) ∧
        (rlp.isEmpty = false → MyTrieNode.decode rlp.bytes = .ok child.node) := by
  cases hashed with
  | true =>
      have hne : child ≠ .empty := fun hempty => absurd (hflag.2 hempty) (by simp)
      refine .inl ⟨by rw [hdenotes.eq_wordRlp, asHash_wordRlp], ?_⟩
      exact (hstored _ (Tree.encode_mem_heldBy child)).resolve_left fun hcode =>
        hne (Tree.eq_empty_of_encode hregular hdepth hcode)
  | false => exact .inr (hdenotes.inline hregular hdepth (hflag.1 rfl))

namespace TrieAt

theorem mono (htrie : TrieAt nodes root contents) (hgrows : Grows nodes nodes') :
    TrieAt nodes' root contents := by
  obtain ⟨tree, hroot, hregular, hheld, hlookup⟩ := htrie
  refine ⟨tree, hroot, hregular, fun data hdata => ?_, hlookup⟩
  exact (hheld data hdata).imp_right (hgrows _ _)

theorem empty (nodes : Table B256 Bytes) : TrieAt nodes emptyRootHash fun _ => none := by
  refine ⟨.empty, rfl, .empty 64, ?_, fun _ => rfl⟩
  rintro data (hdata | ⟨-, rfl⟩)
  · simp [Tree.held] at hdata
  · exact .inl rfl

theorem opened (hstrings : CollisionFree strings) (hkeyed : Keyed strings nodes)
    (htrie : TrieAt nodes root contents) :
    Opened strings nodes contents (EthTrie.new ∅ root) := by
  obtain ⟨tree, rfl, hregular, hheld, hlookup⟩ := htrie
  refine ⟨tree, ⟨hregular, subset_rfl, ?_⟩, hlookup⟩
  refine ⟨by simp [EthTrie.new], by simp [EthTrie.new], rfl, rfl, hkeyed, fun data hdata => ?_⟩
  rcases hheld data hdata with rfl | hget
  · exact ⟨hstrings.empty_mem, .inl rfl⟩
  · exact ⟨(hkeyed _ _ hget).1, .inr (.inr (by simp [hget]))⟩

/-- Nothing is in the trie with the root of the empty one. -/
theorem eq_none (hstrings : CollisionFree strings) (hkeyed : Keyed strings nodes)
    (htrie : TrieAt nodes emptyRootHash contents) (key : B256) : contents key = none := by
  obtain ⟨tree, hroot, hregular, hheld, hlookup⟩ := htrie
  have hmem : tree.encode ∈ strings := by
    rcases hheld _ (Tree.encode_mem_heldBy tree) with hempty | hget
    · exact hempty ▸ hstrings.empty_mem
    · exact (hkeyed _ _ hget).1
  obtain rfl := (hash_eq_emptyRootHash hstrings hregular le_rfl hmem).mp hroot.symm
  exact (hlookup key).symm

end TrieAt

/-! ## Operations on an open trie -/

variable {trie : EthTrie} {batch : BatchWriter}

omit [Keccak256] in
theorem withTrie_spec {α : Type} {operation : TrieM α} {P : EthTrie → Prop}
    {Q : α → EthTrie → Prop} (hpre : P { trie with state := batch.tables.trieNodes })
    (hrun : Triple (· ∈ strings) P operation Q) :
    Triple (· ∈ strings) (· = batch) (withTrie trie operation)
      fun found batch' => Q found.1 found.2 ∧ batch' = batch := by
  rintro batch rfl hlog
  obtain ⟨value, hresult, hQ⟩ := hrun _ hpre hlog
  refine ⟨(value, _), ?_, hQ, rfl⟩
  simp only [withTrie, hresult]

theorem state_eq_of_holds {clean : Prop} {known : Set Bytes} {tree : Tree}
    (hholds : Holds nodes strings clean known tree trie) : { trie with state := nodes } = trie := by
  obtain ⟨state, rootHash, cache, dirty⟩ := trie
  have hstate : state = nodes := hholds.coherent.state_eq
  rw [hstate]

theorem get_withTrie (hstrings : CollisionFree strings)
    (hopened : Opened strings batch.tables.trieNodes contents trie) (key : B256) :
    Triple (· ∈ strings) (· = batch) (withTrie trie (EthTrie.get key))
      fun found batch' => found.1 = contents key ∧ batch' = batch := by
  obtain ⟨tree, hholds, hlookup⟩ := hopened
  refine (withTrie_spec hholds (get_spec hstrings key)).weaken ?_
  rintro found batch' ⟨⟨hvalue, -⟩, hbatch⟩
  exact ⟨hvalue.trans (hlookup key), hbatch⟩

theorem insert_opened (hstrings : CollisionFree strings) (key : B256) {value : Bytes}
    (hvalue : value.length < 2 ^ 63) :
    Triple (· ∈ strings) (fun t => t.state = nodes ∧ Opened strings nodes contents t)
      (EthTrie.insert key value) fun _ t => t.state = nodes ∧
        Opened strings nodes (Function.update contents key (some value)) t := by
  rintro t ⟨rfl, tree, hholds, hlookup⟩ hlog
  obtain ⟨a, hresult, hholds'⟩ := insert_spec hstrings key hvalue False.elim t hholds hlog
  refine ⟨a, hresult, hholds'.coherent.state_eq, _, ?_,
    lookup_insert_unpack hholds.regular key value contents hlookup⟩
  rw [state_eq_of_holds hholds']
  exact hholds'.mono subset_rfl Set.subset_union_left id

theorem delete_opened (hstrings : CollisionFree strings) (key : B256) :
    Triple (· ∈ strings) (fun t => t.state = nodes ∧ Opened strings nodes contents t)
      (EthTrie.delete key) fun _ t => t.state = nodes ∧
        Opened strings nodes (Function.update contents key none) t := by
  rintro t ⟨rfl, tree, hholds, hlookup⟩ hlog
  obtain ⟨a, hresult, counted, -, hholds'⟩ := delete_spec hstrings key t hholds hlog
  refine ⟨a, hresult, hholds'.coherent.state_eq, _, ?_,
    lookup_delete_unpack hholds.regular counted key contents hlookup⟩
  rw [state_eq_of_holds hholds']
  exact hholds'.mono subset_rfl Set.subset_union_left False.elim

theorem insert_withTrie (hstrings : CollisionFree strings)
    (hopened : Opened strings batch.tables.trieNodes contents trie) (key : B256) {value : Bytes}
    (hvalue : value.length < 2 ^ 63) :
    Triple (· ∈ strings) (· = batch) (withTrie trie (EthTrie.insert key value))
      fun found batch' => Opened strings batch.tables.trieNodes
        (Function.update contents key (some value)) found.2 ∧ batch' = batch := by
  refine (withTrie_spec ⟨rfl, hopened⟩ (insert_opened hstrings key hvalue)).weaken ?_
  exact fun found batch' h => ⟨h.1.2, h.2⟩

theorem delete_withTrie (hstrings : CollisionFree strings)
    (hopened : Opened strings batch.tables.trieNodes contents trie) (key : B256) :
    Triple (· ∈ strings) (· = batch) (withTrie trie (EthTrie.delete key))
      fun found batch' => Opened strings batch.tables.trieNodes
        (Function.update contents key none) found.2 ∧ batch' = batch := by
  refine (withTrie_spec ⟨rfl, hopened⟩ (delete_opened hstrings key)).weaken ?_
  exact fun found batch' h => ⟨h.1.2, h.2⟩

/-- The node table once a trie is committed. -/
def committedNodes (trie : EthTrie) (nodes : Table B256 Bytes) : Table B256 Bytes :=
  (EthTrie.commit { trie with state := nodes }).state

theorem Opened.commit (hstrings : CollisionFree strings)
    (hopened : Opened strings nodes contents trie) :
    Keyed strings (committedNodes trie nodes) ∧ Grows nodes (committedNodes trie nodes) ∧
      TrieAt (committedNodes trie nodes) trie.rootHash contents := by
  obtain ⟨tree, hholds, hlookup⟩ := hopened
  have hcommit := hholds.coherent.commit
  refine ⟨hcommit.state, ?_, tree, hholds.root, hholds.regular, fun data hdata => ?_, hlookup⟩
  · intro hash data hget
    obtain ⟨hmem, hhash⟩ := hholds.coherent.state hash data hget
    -- what is written under the same hash is the same string
    cases hdirty : trie.dirty.get hash with
    | none => simpa [committedNodes, EthTrie.commit, Table.get_overlay, hdirty] using hget
    | some data' =>
        obtain ⟨hmem', hhash'⟩ := hholds.coherent.dirty hash data' hdirty
        have heq : data' = data := hstrings.injOn hmem' hmem (hhash'.trans hhash.symm)
        simp [committedNodes, EthTrie.commit, Table.get_overlay, hdirty, heq]
  · exact hholds.coherent.get_commit hstrings hdata

/-- A trie stays open when it is committed. -/
theorem Opened.committed {trie : EthTrie} (hopened : Opened strings trie.state contents trie) :
    Opened strings trie.commit.state contents trie.commit := by
  obtain ⟨tree, hholds, hlookup⟩ := hopened
  have hcommit := hholds.coherent.commit
  refine ⟨tree, ⟨hholds.regular, hholds.held, ?_⟩, hlookup⟩
  exact ⟨hcommit.cache, hcommit.dirty, rfl, hholds.root, hcommit.state, hcommit.found⟩

end

end WasixEth.Storage
