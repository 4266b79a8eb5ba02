import WasixEth.Storage.TreeNode

/-! # The store behind a trie

`Coherent` relates the cache, the uncommitted encodings and the store to the
strings hashed in a run: whatever is found under a hash is the string with
that hash, as long as no two strings of the run collide. The strings in
`known` can be found. Operations only add to them, so a tree whose hashed
parts are known stays readable.
-/

namespace WasixEth.Storage

open Routine RlpNode EthTrie

variable [Keccak256]

/-- No two of these strings have the same hash; the string behind the root of
the empty trie is among them. -/
structure CollisionFree (strings : Set Bytes) : Prop where
  empty_mem : [emptyStringCode] ∈ strings
  injOn : Set.InjOn keccak256 strings

/-- The trie's tables hold strings of the run under their own hashes, and its
root and store are those of `base`. When `clean` holds, no cached branch has an
emptied slot. -/
structure Coherent (base : EthTrie) (strings : Set Bytes) (clean : Prop)
    (known : Set Bytes) (t : EthTrie) : Prop where
  cache : ∀ hash node, t.cache.get hash = some node →
    node.Valid ∧ node.encode ∈ strings ∧ keccak256 node.encode = hash ∧
      (clean → node.reread = node)
  dirty : ∀ hash data, t.dirty.get hash = some data → data ∈ strings ∧ keccak256 data = hash
  state_eq : t.state = base.state
  root_eq : t.rootHash = base.rootHash
  state : ∀ hash data, t.state.get hash = some data → data ∈ strings ∧ keccak256 data = hash
  found : ∀ data ∈ known, data ∈ strings ∧ (data = [emptyStringCode] ∨
    (t.dirty.get (keccak256 data)).isSome ∨ (t.state.get (keccak256 data)).isSome)

namespace Coherent

variable {base : EthTrie} {strings known known' : Set Bytes} {clean clean' : Prop}
  {t : EthTrie}

theorem mono (h : Coherent base strings clean known t) (hsubset : known' ⊆ known)
    (hclean : clean' → clean) : Coherent base strings clean' known' t :=
  ⟨fun hash node hget =>
      let ⟨hvalid, hmem, hhash, hreread⟩ := h.cache hash node hget
      ⟨hvalid, hmem, hhash, fun hc => hreread (hclean hc)⟩,
    h.dirty, h.state_eq, h.root_eq, h.state, fun data hdata => h.found data (hsubset hdata)⟩

theorem setRoot (h : Coherent base strings clean known t) (root : B256) :
    Coherent { base with rootHash := root } strings clean known { t with rootHash := root } :=
  ⟨h.cache, h.dirty, h.state_eq, rfl, h.state, h.found⟩

theorem cacheNode (h : Coherent base strings clean known t) {node : MyTrieNode}
    (hvalid : node.Valid)
    (hmem : node.encode ∈ strings) (hclean : clean → node.reread = node) :
    Coherent base strings clean known
      { t with cache := t.cache.insert (keccak256 node.encode) node } := by
  refine ⟨?_, h.dirty, h.state_eq, h.root_eq, h.state, h.found⟩
  intro hash other hget
  simp only [Table.get_insert] at hget
  split at hget
  next heq =>
    obtain rfl := Option.some.inj hget
    exact ⟨hvalid, hmem, heq.symm, hclean⟩
  next => exact h.cache hash other hget

theorem addDirty (h : Coherent base strings clean known t) {data : Bytes} (hmem : data ∈ strings) :
    Coherent base strings clean (insert data known)
      { t with dirty := t.dirty.insert (keccak256 data) data } := by
  refine ⟨h.cache, ?_, h.state_eq, h.root_eq, h.state, ?_⟩
  · intro hash other hget
    simp only [Table.get_insert] at hget
    split at hget
    next heq =>
      obtain rfl := Option.some.inj hget
      exact ⟨hmem, heq.symm⟩
    next => exact h.dirty hash other hget
  · intro other hother
    simp only [Table.get_insert]
    obtain rfl | hother := Set.mem_insert_iff.mp hother
    · exact ⟨hmem, .inr (.inl (by simp))⟩
    · obtain ⟨hstrings, hfound⟩ := h.found other hother
      refine ⟨hstrings, ?_⟩
      split
      · exact .inr (.inl rfl)
      · exact hfound

theorem commit (h : Coherent base strings clean known t) :
    Coherent t.commit strings clean known t.commit := by
  refine ⟨h.cache, ?_, rfl, rfl, ?_, ?_⟩
  · intro hash data hget
    simp [EthTrie.commit] at hget
  · intro hash data hget
    simp only [EthTrie.commit, Table.get_overlay] at hget
    cases hdirty : t.dirty.get hash with
    | some data' =>
        rw [hdirty] at hget
        obtain rfl : data' = data := by simpa using hget
        exact h.dirty hash data' hdirty
    | none =>
        rw [hdirty] at hget
        exact h.state hash data (by simpa using hget)
  · intro data hdata
    obtain ⟨hstrings, hfound⟩ := h.found data hdata
    refine ⟨hstrings, hfound.imp_right fun hfound => .inr ?_⟩
    simp only [EthTrie.commit, Table.get_overlay]
    obtain hdirty | hstate := hfound
    · simp [hdirty]
    · simp [hstate]

/-- What could be found is in the store under its hash once the trie is committed. -/
theorem get_commit (hstrings : CollisionFree strings) (h : Coherent base strings clean known t)
    {data : Bytes} (hdata : data ∈ known) :
    data = [emptyStringCode] ∨ t.commit.state.get (keccak256 data) = some data := by
  have hcommit := h.commit
  obtain ⟨hmem, hfound⟩ := hcommit.found data hdata
  refine hfound.imp_right fun hfound => ?_
  have hsome : (t.commit.state.get (keccak256 data)).isSome := by
    rcases hfound with hdirty | hstate
    · simp [EthTrie.commit] at hdirty
    · exact hstate
  obtain ⟨data', hget⟩ := Option.isSome_iff_exists.mp hsome
  obtain ⟨hmem', hhash⟩ := hcommit.state _ _ hget
  rw [hget, hstrings.injOn hmem' hmem hhash]

/-- Re-opening the store forgets the cache and the uncommitted encodings. -/
theorem reopen {root : B256} (h : Coherent base strings clean known t)
    (hstored : ∀ data ∈ known', data ∈ strings ∧
      (data = [emptyStringCode] ∨ (t.state.get (keccak256 data)).isSome)) :
    Coherent (EthTrie.new t.state root) strings clean known' (EthTrie.new t.state root) :=
  ⟨by simp [EthTrie.new], by simp [EthTrie.new], rfl, rfl, h.state,
    fun data hdata => (hstored data hdata).imp_right fun hfound => hfound.imp_right .inr⟩

end Coherent

variable {base : EthTrie} {strings known : Set Bytes} {clean : Prop}

/-! ## Nodes and trees -/

/-- A node that stands for a tree: read back it is the node of the tree, and
when nothing was emptied in place it is that node itself. -/
structure Reads (clean : Prop) (node : MyTrieNode) (tree : Tree) : Prop where
  valid : node.Valid
  reread : node.reread = tree.node
  exact : clean → node = tree.node

theorem Reads.encode_eq {node : MyTrieNode} {tree : Tree} (h : Reads clean node tree) :
    node.encode = tree.encode := by
  rw [← MyTrieNode.encode_reread, h.reread, Tree.encode]

theorem reads_node {depth : Nat} {tree : Tree} (h : tree.Regular depth) (hdepth : depth ≤ 64) :
    Reads clean tree.node tree :=
  ⟨Tree.valid_node h hdepth, Tree.reread_node tree, fun _ => rfl⟩

theorem Reads.eq_node {node : MyTrieNode} {tree : Tree} (h : Reads clean node tree)
    (htree : ∀ hashed child, tree ≠ .branch hashed child) : node = tree.node := by
  have hreread := h.reread
  cases tree with
  | branch hashed child => exact absurd rfl (htree hashed child)
  | empty => cases node <;> simp_all [MyTrieNode.reread, Tree.node]
  | leaf key value => cases node <;> simp_all [MyTrieNode.reread, Tree.node]
  | extension key hashed child => cases node <;> simp_all [MyTrieNode.reread, Tree.node]

/-- The slots of a branch that stands for a branching tree. -/
theorem Reads.branch {node : MyTrieNode} {hashed : Nibble → Bool} {child : Nibble → Tree}
    (h : Reads clean node (.branch hashed child)) :
    ∃ stack, node = .branch ⟨stack, none⟩ ∧ (∀ i, Tree.Denotes (stack i) (hashed i) (child i)) ∧
      (clean → ∀ i, (stack i).reread = stack i) := by
  have hreread := h.reread
  cases node with
  | emptyRoot => simp [MyTrieNode.reread, Tree.node] at hreread
  | leaf node => simp [MyTrieNode.reread, Tree.node] at hreread
  | extension node => simp [MyTrieNode.reread, Tree.node] at hreread
  | branch node =>
      obtain ⟨stack, value⟩ := node
      simp only [MyTrieNode.reread, Tree.node, MyTrieNode.branch.injEq,
        MyBranchNode.mk.injEq] at hreread
      obtain ⟨hstack, rfl⟩ := hreread
      refine ⟨stack, rfl, fun i => congrFun hstack i, fun hclean i => ?_⟩
      have hexact := h.exact hclean
      simp only [Tree.node, MyTrieNode.branch.injEq, MyBranchNode.mk.injEq, and_true] at hexact
      rw [hexact]
      simp

namespace Tree

/-- The encodings below a tree that are reached through a hash. -/
def held : Tree → Set Bytes
  | empty => ∅
  | leaf _ _ => ∅
  | extension _ hashed child => { data | data ∈ child.held ∨ (hashed = true ∧ data = child.encode) }
  | branch hashed child =>
      { data | ∃ i, data ∈ (child i).held ∨ (hashed i = true ∧ data = (child i).encode) }

/-- The encodings needed to read a child through its reference. -/
def heldBy (hashed : Bool) (child : Tree) : Set Bytes :=
  { data | data ∈ child.held ∨ (hashed = true ∧ data = child.encode) }

theorem held_extension (key : Nibbles) (hashed : Bool) (child : Tree) :
    (extension key hashed child).held = heldBy hashed child := rfl

theorem mem_held_branch {hashed : Nibble → Bool} {child : Nibble → Tree} {data : Bytes} :
    data ∈ (branch hashed child).held ↔ ∃ i, data ∈ heldBy (hashed i) (child i) := Iff.rfl

theorem held_subset_heldBy (hashed : Bool) (child : Tree) : child.held ⊆ heldBy hashed child :=
  fun _ h => .inl h

theorem heldBy_subset_branch (hashed : Nibble → Bool) (child : Nibble → Tree) (i : Nibble) :
    heldBy (hashed i) (child i) ⊆ (branch hashed child).held := fun _ h => ⟨i, h⟩

theorem encode_mem_heldBy (child : Tree) : child.encode ∈ heldBy true child := .inr ⟨rfl, rfl⟩

theorem heldBy_empty (hashed : Bool) : hashed = false → heldBy hashed empty = ∅ := by
  rintro rfl
  ext data
  simp [heldBy, held]

theorem held_update_subset {hashed : Nibble → Bool} {child : Nibble → Tree} {index : Nibble}
    {hashed' : Bool} {child' : Tree} :
    (branch (Function.update hashed index hashed') (Function.update child index child')).held ⊆
      (branch hashed child).held ∪ heldBy hashed' child' := by
  intro data hdata
  obtain ⟨i, hi⟩ := mem_held_branch.mp hdata
  by_cases heq : i = index
  · subst heq
    exact .inr (by simpa using hi)
  · exact .inl ⟨i, by simpa [heq, heldBy] using hi⟩

end Tree

/-! ## Storing and reading nodes -/

theorem storeNode_spec {node : MyTrieNode} (hvalid : node.Valid)
    (hclean : clean → node.reread = node) :
    Triple (· ∈ strings) (Coherent base strings clean known) (storeNode node)
      fun hash t => hash = keccak256 node.encode ∧
        Coherent base strings clean (insert node.encode known) t := by
  unfold storeNode
  refine triple_bind (Q := fun _ t => node.encode ∈ strings ∧ Coherent base strings clean known t)
    (triple_emit fun hmem t ht => ⟨hmem, ht⟩) fun _ => ?_
  refine triple_bind (Q := fun _ t => Coherent base strings clean (insert node.encode known) t)
    (triple_modify fun t ht => (ht.2.addDirty ht.1).cacheNode hvalid ht.1 hclean) fun _ => ?_
  exact triple_pure fun t ht => ⟨rfl, ht⟩

theorem storeNodeToRlp_spec {depth : Nat} {node : MyTrieNode} {tree : Tree}
    (hreads : Reads clean node tree) (htree : tree.Regular depth) (hdepth : depth ≤ 64) :
    Triple (· ∈ strings) (Coherent base strings clean known) (storeNodeToRlp node)
      fun rlp t => rlp = refOf tree.link tree.node ∧
        Coherent base strings clean ({ data | tree.link = true ∧ data = tree.encode } ∪ known) t := by
  have hlink := Tree.link_eq htree hdepth
  have hencode := hreads.encode_eq
  unfold storeNodeToRlp
  split
  next hlong =>
    have hlink : tree.link = true := by simpa [hlink, ← hencode] using hlong
    refine triple_bind (storeNode_spec hreads.valid fun hc => ?_) fun hash =>
      triple_pure fun t ht => ⟨?_, ht.2.mono ?_ id⟩
    · rw [hreads.exact hc, Tree.reread_node]
    · rw [ht.1, hlink, hencode]
      simp [refOf, Tree.encode]
    · simp [hlink, hencode, Set.singleton_union]
  next hshort =>
    have hlink : tree.link = false := by simpa [hlink, ← hencode] using hshort
    refine triple_pure fun t ht => ⟨?_, ht.mono (by simp [hlink]) id⟩
    simp [hlink, refOf, hencode, Tree.encode]

/-- Whichever table answers, it answers with the encoding of the tree. -/
theorem nodeData_eq (hstrings : CollisionFree strings) {t : EthTrie} {tree : Tree}
    (ht : Coherent base strings clean known t) (hknown : tree.encode ∈ known)
    (hnonempty : tree.hash ≠ emptyRootHash) : t.nodeData tree.hash = .ok tree.encode := by
  obtain ⟨hmem, hfound⟩ := ht.found _ hknown
  unfold nodeData
  cases hdirty : t.dirty.get tree.hash with
  | some data =>
      obtain ⟨hstring, hhash⟩ := ht.dirty _ _ hdirty
      simp [hstrings.injOn hstring hmem hhash]
  | none =>
      cases hstate : t.state.get tree.hash with
      | some data =>
          obtain ⟨hstring, hhash⟩ := ht.state _ _ hstate
          simp [hstrings.injOn hstring hmem hhash]
      | none =>
          obtain hcode | hdirty' | hstate' := hfound
          · exact absurd (congrArg keccak256 hcode) hnonempty
          · rw [Tree.hash] at hdirty
            simp [hdirty] at hdirty'
          · rw [Tree.hash] at hstate
            simp [hstate] at hstate'

theorem hash_eq_emptyRootHash (hstrings : CollisionFree strings) {depth : Nat} {tree : Tree}
    (htree : tree.Regular depth) (hdepth : depth ≤ 64) (hmem : tree.encode ∈ strings) :
    tree.hash = emptyRootHash ↔ tree = .empty := by
  constructor
  · intro hempty
    exact Tree.eq_empty_of_encode htree hdepth (hstrings.injOn hmem hstrings.empty_mem hempty)
  · rintro rfl
    rfl

/-- Whatever table answers, the node found under the hash of a known tree
stands for that tree. -/
theorem getNode_spec (hstrings : CollisionFree strings) {depth : Nat} {tree : Tree}
    (htree : tree.Regular depth) (hdepth : depth ≤ 64) (hknown : tree.encode ∈ known) :
    Triple (· ∈ strings) (Coherent base strings clean known) (getNode tree.hash)
      fun node t => Reads clean node tree ∧ Coherent base strings clean known t := by
  unfold getNode
  split
  next hempty =>
    refine triple_pure fun t ht => ⟨?_, ht⟩
    rw [hash_eq_emptyRootHash hstrings htree hdepth (ht.found _ hknown).1] at hempty
    subst hempty
    exact reads_node htree hdepth
  next hnonempty =>
    refine triple_read_bind fun t ht => ?_
    have hmem := (ht.found _ hknown).1
    cases hcache : t.cache.get tree.hash with
    | some node =>
        obtain ⟨hvalid, hstring, hhash, hclean⟩ := ht.cache _ _ hcache
        have hencode : node.encode = tree.node.encode := hstrings.injOn hstring hmem hhash
        have hreread := MyTrieNode.reread_eq_of_encode_eq hvalid (Tree.valid_node htree hdepth)
          hencode
        rw [Tree.reread_node] at hreread
        refine triple_pure fun s hs => ?_
        subst hs
        exact ⟨⟨hvalid, hreread, fun hc => (hclean hc).symm.trans hreread⟩, ht⟩
    | none =>
        refine triple_bind (Q := fun data s => s = t ∧ data = tree.encode)
          (triple_liftExcept (nodeData_eq hstrings ht hknown hnonempty) fun s hs => ⟨hs, rfl⟩) ?_
        intro data
        refine triple_bind (Q := fun node s => s = t ∧ node = tree.node) ?_ ?_
        · rintro s ⟨hs, rfl⟩ _
          exact ⟨tree.node, Tree.decode_tree_encode htree hdepth, hs, rfl⟩
        · intro node
          refine triple_bind (Q := fun _ s => node = tree.node ∧ Coherent base strings clean known s)
            (triple_modify ?_) ?_
          · rintro s ⟨rfl, rfl⟩
            exact ⟨rfl, ht.cacheNode (Tree.valid_node htree hdepth) hmem fun _ =>
              Tree.reread_node tree⟩
          · intro _
            refine triple_pure fun s hs => ?_
            rw [hs.1]
            exact ⟨reads_node htree hdepth, hs.2⟩

end WasixEth.Storage
