import WasixEth.Storage.TreeEntries

/-! # Listing a trie

The walk over a trie collects the entries of its leaves on the way. Its loop over the slots
of a branch goes on behind the last slot, so that no walk gets past a branch.
-/

namespace WasixEth.Storage

open Routine YellowPaper

section

variable [Keccak256]

namespace EthTrie

def walkRecursiveRlp (walkNode : MyTrieNode → Nibbles → TrieM (List (B256 × Bytes)))
    (rlpNode : RlpNode) (path : Nibbles) : TrieM (List (B256 × Bytes)) := do
  let node ← getNodeFromRlp rlpNode
  walkNode node path

/-- The loop over the slots; an index behind the last slot is out of bounds. -/
def walkSlots (walkChild : RlpNode → Nibbles → TrieM (List (B256 × Bytes)))
    (branch : MyBranchNode) (path : Nibbles) : List Nat → TrieM (List (B256 × Bytes))
  | [] => return []
  | i :: rest =>
      if h : i < 16 then
        let child := branch.stack ⟨i, h⟩
        if child.isEmpty then walkSlots walkChild branch path rest
        else do
          let nextPath ← liftExcept (extend path [⟨i, h⟩])
          let entries ← walkChild child nextPath
          let others ← walkSlots walkChild branch path rest
          return entries ++ others
      else fail .panic

def walkRecursiveNode : Nat → MyTrieNode → Nibbles → TrieM (List (B256 × Bytes))
  | 0, _, _ => fail .outOfFuel
  | fuel + 1, node, path =>
      match node with
      | .leaf leaf => do
          let fullPath ← liftExcept (extend path leaf.key)
          return entryAt fullPath leaf.value
      | .extension ext => do
          let nextPath ← liftExcept (extend path ext.key)
          walkRecursiveRlp (walkRecursiveNode fuel) ext.child nextPath
      | .branch branch => do
          let entries ← walkSlots (walkRecursiveRlp (walkRecursiveNode fuel)) branch path
            (List.range 64)
          match branch.value with
          | some value => return entries ++ entryAt path value
          | none => return entries
      | .emptyRoot => return []

def walkRecursive (hash : B256) (path : Nibbles) : TrieM (List (B256 × Bytes)) := do
  let node ← getNode hash
  walkRecursiveNode (Nibbles.capacity + 2) node path

def allEntries : TrieM (List (B256 × Bytes)) := do
  let t ← read
  if t.rootHash = emptyRootHash then return []
  else walkRecursive t.rootHash []

end EthTrie

/-- Build a trie and list it. -/
def insertAndList (leaves : List (B256 × Bytes)) : TrieM (List (B256 × Bytes)) := do
  insertAll leaves
  EthTrie.allEntries

/-- The trie that is built from these leaves over a store is listed as they are. -/
def ListsLeaves (store : Table B256 Bytes) (leaves : List (B256 × Bytes)) : Prop :=
  ∃ entries, (insertAndList leaves (EthTrie.new store emptyRootHash)).result = .ok entries ∧
    entries.Perm leaves

variable {base : EthTrie} {store : Table B256 Bytes} {strings known : Set Bytes} {clean : Prop}

/-! ## Branches -/

omit [Keccak256] in
theorem fails_walkSlots {walkChild : RlpNode → Nibbles → TrieM (List (B256 × Bytes))}
    {branch : MyBranchNode} {path : Nibbles} {slots : List Nat} (h : ∃ i ∈ slots, 16 ≤ i)
    {P : EthTrie → Prop} :
    Fails (· ∈ strings) P (EthTrie.walkSlots walkChild branch path slots) := by
  induction slots generalizing P with
  | nil =>
      obtain ⟨i, hmem, -⟩ := h
      cases hmem
  | cons i rest ih =>
      unfold EthTrie.walkSlots
      split
      next hlt =>
        obtain ⟨j, hmem, hle⟩ := h
        have hrest : ∃ i ∈ rest, 16 ≤ i := by
          rcases List.mem_cons.mp hmem with rfl | hmem
          · exact absurd hlt (Nat.not_lt.mpr hle)
          · exact ⟨j, hmem, hle⟩
        dsimp only
        split
        · exact ih hrest
        · exact fails_bind_right fun nextPath => fails_bind_right fun entries =>
            fails_bind_left (ih hrest) _
      next => exact fails_fail _

theorem fails_walkRecursiveNode_branch (fuel : Nat) (branch : MyBranchNode) (path : Nibbles)
    {P : EthTrie → Prop} :
    Fails (· ∈ strings) P (EthTrie.walkRecursiveNode fuel (.branch branch) path) := by
  cases fuel with
  | zero => exact fails_fail _
  | succ fuel =>
      exact fails_bind_left (fails_walkSlots ⟨16, by decide, le_rfl⟩) _

/-- A tree whose walk comes upon a branch. -/
def Tree.Branches : Tree → Prop
  | .branch _ _ => True
  | .extension _ _ (.branch _ _) => True
  | _ => False

theorem fails_walkRecursive (hstrings : CollisionFree strings) {depth : Nat} {tree : Tree}
    (hdepth : depth ≤ 64) (htree : tree.Regular depth) (hheld : Tree.heldBy true tree ⊆ known)
    (hbranches : tree.Branches) :
    Fails (· ∈ strings) (Coherent base strings clean known)
      (EthTrie.walkRecursive tree.hash []) := by
  unfold EthTrie.walkRecursive
  refine fails_bind (getNode_spec hstrings htree hdepth (hheld (Tree.encode_mem_heldBy tree)))
    fun node => fails_of_pure_pre fun hreads => ?_
  cases htree with
  | empty => exact absurd hbranches id
  | leaf => exact absurd hbranches id
  | branch =>
      obtain ⟨stack, rfl, -⟩ := hreads.branch
      exact fails_walkRecursiveNode_branch _ _ []
  | @extension depth key hashed child hkey hflag hchild =>
      rw [hreads.eq_node (by simp)]
      have hextend : extend [] key = .ok key :=
        extend_of_le (by rw [List.length_nil]; omega)
      have hreadable := readable_extension hflag hchild
        ((Tree.held_subset_heldBy true _).trans hheld)
      unfold Tree.node EthTrie.walkRecursiveNode
      refine fails_bind (Q := fun nextPath t => nextPath = key ∧
        Coherent base strings clean known t) (triple_liftExcept hextend
          fun t ht => ⟨rfl, ht⟩) fun nextPath => fails_of_pure_pre ?_
      rintro rfl
      refine fails_bind (getNodeFromRlp_spec hstrings (by omega) hreadable) fun child' =>
        fails_of_pure_pre fun hreads' => ?_
      cases hchild with
      | empty => exact absurd hbranches id
      | leaf => exact absurd hbranches id
      | extension => exact absurd hbranches id
      | branch =>
          obtain ⟨stack, rfl, -⟩ := hreads'.branch
          exact fails_walkRecursiveNode_branch _ _ _

omit [Keccak256] in
theorem branches_canon {leaves : List (B256 × Bytes)} (hnodup : (leaves.map Prod.fst).Nodup)
    (hfit : ValuesFit leaves) (htwo : 2 ≤ leaves.length) :
    (Tree.canon 64 (contentsOf leaves)).Branches := by
  have hlists := lists_contentsOf hnodup
  have hsupported := supported_contentsOf hfit
  have hbranching := branching_sharedPath hlists hsupported
    (by rw [entriesOf, List.length_map]; exact htwo)
  obtain ⟨depth, hdepth⟩ := Tree.depth_of_branching hsupported hbranching
  rw [hdepth] at hsupported ⊢
  have hisBranch := (Tree.isBranch_canon hsupported.restrict).mpr hbranching
  rw [Tree.canon_of_shared hsupported hbranching fun _ => hlists.isPrefix_sharedPath]
  cases hshape : Tree.canon (depth + 1)
      (Tree.restrict (sharedPath (entriesOf leaves)) (contentsOf leaves)) with
  | branch hashed child =>
      unfold Tree.wrap
      split
      · exact trivial
      · exact trivial
  | empty =>
      rw [hshape] at hisBranch
      cases hisBranch
  | leaf key value =>
      rw [hshape] at hisBranch
      cases hisBranch
  | extension key hashed child =>
      rw [hshape] at hisBranch
      cases hisBranch

theorem fails_allEntries (hstrings : CollisionFree strings) {f : Nibbles → Option Bytes}
    (hbranches : (Tree.canon 64 f).Branches) :
    Fails (· ∈ strings) (HoldsMap store strings f) EthTrie.allEntries := by
  unfold EthTrie.allEntries
  refine fails_read_bind fun t ht => ?_
  have hmem := ht.held (Tree.encode_mem_heldBy (Tree.canon 64 f))
  have hne : Tree.canon 64 f ≠ .empty := by
    intro hempty
    rw [hempty] at hbranches
    exact hbranches
  rw [ht.root, if_neg ((hash_eq_emptyRootHash hstrings ht.regular le_rfl
    (ht.coherent.found _ hmem).1).not.mpr hne)]
  have hwalk : Fails (· ∈ strings) (Coherent (EthTrie.new store (Tree.canon 64 f).hash) strings
      True (Tree.heldBy true (Tree.canon 64 f)))
      (EthTrie.walkRecursive (Tree.canon 64 f).hash []) :=
    fails_walkRecursive hstrings le_rfl ht.regular ht.held hbranches
  apply hwalk.consequence
  rintro s rfl
  exact ht.coherent

/-! ## At most one leaf -/

theorem allEntries_empty :
    Triple (· ∈ strings) (HoldsMap store strings fun _ => none) EthTrie.allEntries
      fun entries _ => entries = [] := by
  unfold EthTrie.allEntries
  refine triple_read_bind fun t ht => ?_
  have hempty : (Tree.empty).hash = emptyRootHash := rfl
  rw [ht.root, Tree.canon_none, if_pos hempty]
  exact triple_pure fun _ _ => rfl

theorem allEntries_leaf (hstrings : CollisionFree strings) {key : B256} {value : Bytes}
    (hvalue : value.length < 2 ^ 63) :
    Triple (· ∈ strings)
      (HoldsMap store strings (Function.update (fun _ => none) (unpack key) (some value)))
      EthTrie.allEntries fun entries _ => entries = [(key, value)] := by
  unfold HoldsMap
  rw [Tree.canon_single (length_unpack key) le_rfl hvalue]
  unfold EthTrie.allEntries
  refine triple_read_bind fun t ht => ?_
  have hmem := ht.held (Tree.encode_mem_heldBy (.leaf (unpack key) value))
  have hextend : extend [] (unpack key) = .ok (unpack key) :=
    extend_of_le (by rw [List.length_nil, length_unpack])
  rw [ht.root, if_neg ((hash_eq_emptyRootHash hstrings ht.regular le_rfl
    (ht.coherent.found _ hmem).1).not.mpr (Tree.leaf_ne_empty _ _))]
  unfold EthTrie.walkRecursive
  refine triple_bind ((getNode_spec hstrings ht.regular le_rfl hmem).consequence
    (fun s hs => by subst hs; exact ht.coherent) fun _ _ h => h) fun node =>
      triple_of_pure_pre fun hreads => ?_
  rw [hreads.eq_node (by simp)]
  refine triple_bind (Q := fun fullPath _ => fullPath = unpack key ∧ True)
    (triple_liftExcept hextend fun _ _ => ⟨rfl, trivial⟩) fun fullPath => triple_of_pure_pre ?_
  rintro rfl
  exact triple_pure fun _ _ => entryAt_unpack key value

/-! ## Any number of leaves -/

/-- Only a trie without a branch is listed, and it is listed as it is. -/
theorem listsLeaves_iff (hstore : HashKeyed store) {leaves : List (B256 × Bytes)}
    (hnodup : (leaves.map Prod.fst).Nodup) (hfit : ValuesFit leaves)
    (hfree : Set.InjOn keccak256 (runStrings store
      (insertAndList leaves (EthTrie.new store emptyRootHash)).log)) :
    ListsLeaves store leaves ↔ leaves.length ≤ 1 := by
  have hstrings := collisionFree_runStrings hfree
  have hstored : ∀ hash data, store.get hash = some data → data ∈ runStrings store
      (insertAndList leaves (EthTrie.new store emptyRootHash)).log ∧ keccak256 data = hash :=
    fun hash data hget => ⟨.inr (.inr ⟨hash, hget⟩), hstore hash data hget⟩
  have hlog : ∀ data ∈ (insertAndList leaves (EthTrie.new store emptyRootHash)).log,
      data ∈ runStrings store (insertAndList leaves (EthTrie.new store emptyRootHash)).log :=
    fun data hdata => .inr (.inl hdata)
  have hbuilt := insertAll_new hstrings hstored hnodup hfit
  match leaves, hnodup, hfit with
  | [], _, _ =>
      obtain ⟨entries, hresult, heq⟩ :=
        triple_bind hbuilt (fun _ => allEntries_empty) _ rfl hlog
      exact iff_of_true ⟨entries, hresult, .of_eq heq⟩ (Nat.zero_le 1)
  | [(key, value)], _, hfit =>
      have hvalue : value.length < 2 ^ 63 := hfit (key, value) (List.mem_singleton_self _)
      obtain ⟨entries, hresult, heq⟩ :=
        triple_bind hbuilt (fun _ => allEntries_leaf hstrings hvalue) _ rfl hlog
      exact iff_of_true ⟨entries, hresult, .of_eq heq⟩ le_rfl
  | first :: second :: rest, hnodup, hfit =>
      have hbranches := branches_canon hnodup hfit (by simp)
      refine iff_of_false ?_ (by simp)
      rintro ⟨entries, hresult, -⟩
      exact fails_bind hbuilt (fun _ => fails_allEntries hstrings hbranches) _ rfl hlog entries
        hresult

end

section Keccak

attribute [local instance] keccak

theorem listsLeaves_one : ListsLeaves ∅ [(B256.leading 0x11, [1])] := by
  refine (listsLeaves_iff (by simp [HashKeyed]) (by decide) (by simp [ValuesFit]) ?_).mpr le_rfl
  exact injOn_runStrings_empty (by decide +kernel)

/-- With two leaves there is a branch, and the walk goes out of bounds. -/
theorem insertAndList_two :
    (insertAndList [(B256.leading 0x11, [1]), (B256.leading 0x12, [2])]
      (EthTrie.new ∅ emptyRootHash)).result = .error .panic := by
  decide +kernel

theorem not_listsLeaves_two :
    ¬ ListsLeaves ∅ [(B256.leading 0x11, [1]), (B256.leading 0x12, [2])] := by
  rintro ⟨entries, hresult, -⟩
  rw [insertAndList_two] at hresult
  cases hresult

end Keccak

end WasixEth.Storage
