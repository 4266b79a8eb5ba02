import WasixEth.Storage.TrieStore

/-! # Operations on stored nodes refine operations on trees

Started on the hash of a tree whose hashed parts can be found, lookup returns
the value in the tree, and insertion and deletion return the hash of the
changed tree and leave its hashed parts findable. None of them fails.
-/

namespace WasixEth.Storage

open Routine RlpNode EthTrie

variable [Keccak256] {base : EthTrie} {strings known : Set Bytes} {clean : Prop}

/-- A reference whose child can be read. -/
structure Readable (known : Set Bytes) (depth : Nat) (rlp : RlpNode) (hashed : Bool)
    (child : Tree) : Prop where
  denotes : Tree.Denotes rlp hashed child
  flag : Tree.FlagOk hashed child
  regular : child.Regular depth
  held : Tree.heldBy hashed child ⊆ known

namespace Readable

variable {depth : Nat} {rlp : RlpNode} {hashed : Bool} {child : Tree}

theorem mono {known' : Set Bytes} (h : Readable known depth rlp hashed child)
    (hsubset : known ⊆ known') : Readable known' depth rlp hashed child :=
  ⟨h.denotes, h.flag, h.regular, h.held.trans hsubset⟩

theorem asHash_eq (h : Readable known depth rlp true child) : rlp.asHash = some child.hash := by
  rw [h.denotes.eq_wordRlp, asHash_wordRlp]

theorem encode_mem (h : Readable known depth rlp true child) : child.encode ∈ known :=
  h.held (Tree.encode_mem_heldBy child)

theorem inline (h : Readable known depth rlp false child) (hdepth : depth ≤ 64) :
    rlp.asHash = none ∧ (rlp.isEmpty = true → child = .empty) ∧
      (rlp.isEmpty = false → MyTrieNode.decode rlp.bytes = .ok child.node) :=
  h.denotes.inline h.regular hdepth (h.flag.1 rfl)

theorem child_held (h : Readable known depth rlp hashed child) : child.held ⊆ known :=
  (Tree.held_subset_heldBy hashed child).trans h.held

end Readable

theorem readable_extension {depth : Nat} {key : Nibbles} {hashed : Bool} {child : Tree}
    (hflag : Tree.FlagOk hashed child) (hchild : child.Regular depth)
    (hheld : (Tree.extension key hashed child).held ⊆ known) :
    Readable known depth (refOf hashed child.node) hashed child :=
  ⟨Tree.denotes_refOf hashed child, hflag, hchild, hheld⟩

theorem readable_slot {depth : Nat} {hashed : Nibble → Bool} {child : Nibble → Tree}
    {stack : Nibble → RlpNode} (hstack : ∀ i, Tree.Denotes (stack i) (hashed i) (child i))
    (hflag : ∀ i, Tree.FlagOk (hashed i) (child i)) (hchild : ∀ i, (child i).Regular depth)
    (hheld : (Tree.branch hashed child).held ⊆ known) (i : Nibble) :
    Readable known depth (stack i) (hashed i) (child i) :=
  ⟨hstack i, hflag i, hchild i, (Tree.heldBy_subset_branch hashed child i).trans hheld⟩

/-! ## Lookup -/

theorem getRecursiveRlp_spec (hstrings : CollisionFree strings) {depth : Nat} {rlp : RlpNode}
    {hashed : Bool} {child : Tree} {nibbles : Nibbles}
    {get : MyTrieNode → Nibbles → TrieM (Option Bytes)} (hdepth : depth ≤ 64)
    (hchild : Readable known depth rlp hashed child)
    (hget : ∀ node, Reads clean node child →
      Triple (· ∈ strings) (Coherent base strings clean known) (get node nibbles)
        fun value t => value = child.lookup nibbles ∧ Coherent base strings clean known t) :
    Triple (· ∈ strings) (Coherent base strings clean known) (getRecursiveRlp get rlp nibbles)
      fun value t => value = child.lookup nibbles ∧ Coherent base strings clean known t := by
  unfold getRecursiveRlp
  cases hashed with
  | true =>
      rw [hchild.asHash_eq]
      simp only
      split
      next hempty =>
        refine triple_pure fun t ht => ⟨?_, ht⟩
        rw [hash_eq_emptyRootHash hstrings hchild.regular hdepth
          (ht.found _ hchild.encode_mem).1] at hempty
        subst hempty
        rfl
      next =>
        refine triple_bind (getNode_spec hstrings hchild.regular hdepth hchild.encode_mem) ?_
        exact fun node => triple_of_pure_pre fun hreads => hget node hreads
  | false =>
      obtain ⟨hhash, hempty, hdecode⟩ := hchild.inline hdepth
      rw [hhash]
      simp only
      split
      next hnil =>
        obtain rfl := hempty hnil
        exact triple_pure fun t ht => ⟨rfl, ht⟩
      next hne =>
        refine triple_bind (Q := fun node t => Reads clean node child ∧
          Coherent base strings clean known t) (triple_liftExcept (hdecode (by simpa using hne))
            fun t ht => ⟨reads_node hchild.regular hdepth, ht⟩) ?_
        exact fun node => triple_of_pure_pre fun hreads => hget node hreads

/-- Lookup on stored nodes is lookup in the tree they stand for. -/
theorem getRecursiveNode_spec (hstrings : CollisionFree strings) (fuel : Nat) {depth : Nat}
    {node : MyTrieNode} {tree : Tree} {nibbles : Nibbles} (hdepth : depth ≤ 64)
    (htree : tree.Regular depth) (hreads : Reads clean node tree) (hheld : tree.held ⊆ known)
    (hlength : nibbles.length = depth) (hfuel : depth < fuel) :
    Triple (· ∈ strings) (Coherent base strings clean known) (getRecursiveNode fuel node nibbles)
      fun value t => value = tree.lookup nibbles ∧ Coherent base strings clean known t := by
  induction fuel generalizing depth node tree nibbles with
  | zero => omega
  | succ fuel ih =>
      cases htree with
      | empty =>
          rw [hreads.eq_node (by simp)]
          exact triple_pure fun t ht => ⟨rfl, ht⟩
      | leaf hkey hvalue =>
          rw [hreads.eq_node (by simp)]
          exact triple_pure fun t ht => ⟨rfl, ht⟩
      | @extension depth key hashed child hkey hflag hchild =>
          have hpos : 0 < key.length := List.length_pos_iff.mpr hkey
          rw [hreads.eq_node (by simp)]
          simp only [getRecursiveNode, Tree.node, Tree.lookup]
          split
          next hpre =>
            have hreadable := readable_extension hflag hchild hheld
            exact getRecursiveRlp_spec hstrings (by omega) hreadable fun node' hreads' =>
              ih (by omega) hchild hreads'
                hreadable.child_held
                (by rw [List.length_drop]; omega) (by omega)
          next => exact triple_pure fun t ht => ⟨rfl, ht⟩
      | @branch depth hashed child hflag hchild =>
          obtain ⟨stack, rfl, hstack, -⟩ := hreads.branch
          cases nibbles with
          | nil => simp at hlength
          | cons index remaining =>
              have hslot := readable_slot hstack hflag hchild hheld index
              simp only [List.length_cons] at hlength
              exact getRecursiveRlp_spec hstrings (by omega) hslot fun node' hreads' =>
                ih (by omega) (hchild index) hreads' hslot.child_held (by omega) (by omega)

/-! ## Insertion -/

namespace Tree

theorem reread_refOf {depth : Nat} {tree : Tree} (hashed : Bool) (htree : tree.Regular depth)
    (hdepth : depth ≤ 64) (hne : tree ≠ empty) :
    (refOf hashed tree.node).reread = refOf hashed tree.node := by
  cases hashed with
  | true => simp [refOf]
  | false =>
      simp only [refOf, Bool.false_eq_true, if_false, fromRlp]
      split
      next =>
        unfold RlpNode.reread
        exact if_neg fun hcode => hne (eq_empty_of_encode htree hdepth hcode)
      next => simp

theorem reread_refOf_empty : (refOf false (empty : Tree).node).reread = default := rfl

theorem Denotes.item {depth : Nat} {rlp : RlpNode} {hashed : Bool} {child : Tree}
    (h : Denotes rlp hashed child) (hchild : child.Regular depth) (hdepth : depth ≤ 64) :
    rlp = default ∨ Rlp.IsItem rlp.bytes := by
  unfold Denotes RlpNode.reread at h
  split at h
  next hcode =>
    rw [hcode]
    exact .inr isItem_emptyString
  next =>
    split at h
    · exact .inl h
    · rw [h]
      exact .inr (isItem_refOf hashed (valid_node hchild hdepth))

theorem node_fork {i j : Nibble} {first second : Bool × Tree} :
    (fork i first j second).node =
      .branch (((default : MyBranchNode).set i (refOf first.1 first.2.node).reread).set j
        (refOf second.1 second.2.node).reread) := by
  simp only [fork, node, MyBranchNode.set, MyTrieNode.branch.injEq, MyBranchNode.mk.injEq]
  refine ⟨?_, rfl⟩
  funext a
  by_cases hj : a = j
  · subst hj
    simp
  · by_cases hi : a = i
    · subst hi
      simp [hj]
    · simp only [Function.update_of_ne hj, Function.update_of_ne hi]
      exact reread_refOf_empty

theorem held_fork_subset {i j : Nibble} {first second : Bool × Tree} :
    (fork i first j second).held ⊆ heldBy first.1 first.2 ∪ heldBy second.1 second.2 := by
  have hnone : (branch (fun _ => false) (fun _ => empty)).held = ∅ := by
    ext data
    simp [held]
  refine held_update_subset.trans (Set.union_subset_union_left _ ?_)
  refine held_update_subset.trans ?_
  rw [hnone, Set.empty_union]

theorem held_wrap_subset (path : Nibbles) (tree : Tree) :
    (wrap path tree).held ⊆ { data | tree.link = true ∧ data = tree.encode } ∪ tree.held := by
  unfold wrap
  split
  · exact Set.subset_union_right
  · rw [held_extension]
    rintro data (hdata | hdata)
    · exact .inr hdata
    · exact .inl hdata

theorem heldBy_leaf (hashed : Bool) (key : Nibbles) (value : Bytes) :
    heldBy hashed (leaf key value) =
      { data | hashed = true ∧ data = (leaf key value).encode } := by
  ext data
  simp [heldBy, held]

end Tree

omit [Keccak256] in
theorem nibbleAt_parting (path : Nibbles) (i : Nibble) (key : Nibbles) :
    nibbleAt (path ++ i :: key) path.length = pure i := by
  simp [nibbleAt]

theorem placeLeaf_spec {depth : Nat} (branch : MyBranchNode) (path : Nibbles) (i : Nibble)
    {key : Nibbles} {value : Bytes} (hkey : key.length = depth) (hdepth : depth ≤ 64)
    (hvalue : value.length < 2 ^ 63) :
    Triple (· ∈ strings) (Coherent base strings clean known)
      (placeLeaf branch (path ++ i :: key) path.length value)
      fun branch' t =>
        branch' = branch.set i (refOf (Tree.leaf key value).link (Tree.leaf key value).node) ∧
        Coherent base strings clean
          (Tree.heldBy (Tree.leaf key value).link (Tree.leaf key value) ∪ known) t := by
  have hleaf : (Tree.leaf key value).Regular depth := .leaf hkey hvalue
  have hdrop : (path ++ i :: key).drop (path.length + 1) = key := by simp
  unfold placeLeaf
  rw [nibbleAt_parting, hdrop]
  refine triple_bind (Q := fun index t => index = i ∧ Coherent base strings clean known t)
    (triple_pure fun t ht => ⟨rfl, ht⟩) fun index => triple_of_pure_pre ?_
  rintro rfl
  refine triple_bind (storeNodeToRlp_spec (reads_node hleaf hdepth) hleaf hdepth) fun child => ?_
  refine triple_pure fun t ht => ⟨by rw [ht.1], ?_⟩
  rw [Tree.heldBy_leaf]
  exact ht.2

theorem wrapBranch_spec {depth : Nat} {branch : MyBranchNode} {tree : Tree} (path : Nibbles)
    (hreads : Reads clean (.branch branch) tree) (htree : tree.Regular depth)
    (hdepth : path.length + depth ≤ 64) (hheld : tree.held ⊆ known) :
    Triple (· ∈ strings) (Coherent base strings clean known) (wrapBranch path branch)
      fun node t => Reads clean node (tree.wrap path) ∧
        Coherent base strings clean ((tree.wrap path).held ∪ known) t := by
  have hwrap := Tree.held_wrap_subset path tree
  unfold wrapBranch
  split
  next hpos =>
    have hpath : path ≠ [] := List.length_pos_iff.mp hpos
    refine triple_bind (storeNodeToRlp_spec hreads htree (by omega)) fun child => ?_
    refine triple_pure fun t ht => ⟨?_, ht.2.mono ?_ id⟩
    · have hregular := Tree.regular_wrap path htree
      have hnode : Reads clean _ _ := reads_node hregular hdepth
      rw [ht.1]
      simpa [Tree.wrap, hpath, Tree.node] using hnode
    · rintro data (hdata | hdata)
      · exact (hwrap hdata).imp_right fun h => hheld h
      · exact .inr hdata
  next hpos =>
    obtain rfl : path = [] := List.length_eq_zero_iff.mp (by omega)
    refine triple_pure fun t ht => ⟨by simpa [Tree.wrap] using hreads, ht.mono ?_ id⟩
    simpa [Tree.wrap] using hheld

/-- The two ends of a split, one of them a new leaf, become a branch. -/
theorem reads_fork {depth : Nat} {i j : Nibble} {first : Bool × Tree} {rlp : RlpNode}
    {nibbles : Nibbles} {value : Bytes} (hdepth : depth + 1 ≤ 64)
    (hfirst : Tree.FlagOk first.1 first.2 ∧ first.2.Regular depth)
    (hrlp : Tree.Denotes rlp first.1 first.2) (hclean : clean → rlp.reread = rlp)
    (hlength : nibbles.length = depth) (hvalue : value.length < 2 ^ 63) (hij : i ≠ j) :
    Reads clean (.branch (((default : MyBranchNode).set i rlp).set j
        (refOf (Tree.leaf nibbles value).link (Tree.leaf nibbles value).node)))
      (Tree.fork i first j (Tree.linked (.leaf nibbles value))) := by
  have hleaf : (Tree.leaf nibbles value).Regular depth := .leaf hlength hvalue
  have hregular := Tree.regular_fork (i := i) (j := j) hfirst (Tree.regular_linked hleaf)
  have hreread : (MyTrieNode.branch (((default : MyBranchNode).set i rlp).set j
      (refOf (Tree.leaf nibbles value).link (Tree.leaf nibbles value).node))).reread =
        (Tree.fork i first j (Tree.linked (.leaf nibbles value))).node := by
    rw [Tree.node_fork]
    simp only [MyTrieNode.reread, MyBranchNode.set, MyTrieNode.branch.injEq,
      MyBranchNode.mk.injEq, and_true, Tree.linked]
    funext a
    by_cases hj : a = j
    · subst hj
      simp
    · by_cases hi : a = i
      · subst hi
        simpa [hj] using (show rlp.reread = _ from hrlp)
      · simp only [Function.update_of_ne hj, Function.update_of_ne hi]
        rfl
  refine ⟨?_, hreread, ?_⟩
  · refine ⟨fun a => ?_, rfl⟩
    by_cases hj : a = j
    · subst hj
      simpa [MyBranchNode.set] using
        Or.inr (isItem_refOf _ (Tree.valid_node hleaf (by omega)))
    · by_cases hi : a = i
      · subst hi
        simpa [MyBranchNode.set, hj] using hrlp.item hfirst.2 (by omega)
      · simp only [MyBranchNode.set, Function.update_of_ne hj, Function.update_of_ne hi]
        exact .inl rfl
  · intro hc
    rw [Tree.node_fork, Tree.linked, Tree.reread_refOf _ hleaf (by omega) (by simp), ← hrlp,
      hclean hc]

theorem branchAtLeaf_spec {depth : Nat} {path key nibbles : Nibbles} {i j : Nibble}
    {old value : Bytes} (hkey : key.length = depth) (hlength : nibbles.length = depth)
    (hdepth : depth ≤ 64) (hold : old.length < 2 ^ 63) (hvalue : value.length < 2 ^ 63) :
    Triple (· ∈ strings) (Coherent base strings clean known)
      (branchAtLeaf ⟨path ++ i :: key, old⟩ (path ++ j :: nibbles) path.length value)
      fun branch t =>
        branch = ((default : MyBranchNode).set i (refOf (Tree.leaf key old).link
          (Tree.leaf key old).node)).set j
            (refOf (Tree.leaf nibbles value).link (Tree.leaf nibbles value).node) ∧
        Coherent base strings clean
          (Tree.heldBy (Tree.leaf nibbles value).link (.leaf nibbles value) ∪
          (Tree.heldBy (Tree.leaf key old).link (.leaf key old) ∪ known)) t := by
  unfold branchAtLeaf
  rw [if_neg (by simp), if_neg (by simp)]
  refine triple_bind (placeLeaf_spec default path i hkey hdepth hold) fun branch =>
    triple_of_pure_pre ?_
  rintro rfl
  exact placeLeaf_spec _ path j hlength hdepth hvalue

theorem splitLeaf_spec {depth : Nat} {path key nibbles : Nibbles} {i j : Nibble}
    {old value : Bytes} (hkey : key.length = depth) (hlength : nibbles.length = depth)
    (hdepth : path.length + (depth + 1) ≤ 64) (hold : old.length < 2 ^ 63)
    (hvalue : value.length < 2 ^ 63) (hij : i ≠ j) :
    Triple (· ∈ strings) (Coherent base strings clean known)
      (splitLeaf ⟨path ++ i :: key, old⟩ (path ++ j :: nibbles) value)
      fun node t =>
        Reads clean node (Tree.wrap path (Tree.fork i (Tree.linked (.leaf key old)) j
          (Tree.linked (.leaf nibbles value)))) ∧
        Coherent base strings clean ((Tree.wrap path (Tree.fork i (Tree.linked (.leaf key old)) j
          (Tree.linked (.leaf nibbles value)))).held ∪ known) t := by
  have hleaf : (Tree.leaf key old).Regular depth := .leaf hkey hold
  have hleaf' : (Tree.leaf nibbles value).Regular depth := .leaf hlength hvalue
  unfold splitLeaf
  simp only [commonPrefixLength_parting path key nibbles hij, List.take_left]
  refine triple_bind (branchAtLeaf_spec hkey hlength (by omega) hold hvalue) fun branch =>
    triple_of_pure_pre ?_
  rintro rfl
  refine (wrapBranch_spec path (reads_fork (by omega) (Tree.regular_linked hleaf)
    (Tree.denotes_refOf _ _)
    (fun _ => Tree.reread_refOf _ hleaf (by omega) (Tree.leaf_ne_empty key old))
    hlength hvalue hij) (Tree.regular_fork (Tree.regular_linked hleaf)
      (Tree.regular_linked hleaf')) hdepth ?_).weaken ?_
  · refine Tree.held_fork_subset.trans ?_
    rintro data (hdata | hdata)
    · exact .inr (.inl hdata)
    · exact .inl hdata
  · rintro node t ⟨hreads, ht⟩
    exact ⟨hreads, ht.mono (Set.union_subset_union_right _
      (Set.subset_union_right.trans Set.subset_union_right)) id⟩

theorem Tree.heldBy_linked_extension (key : Nibbles) (hashed : Bool) (child : Tree) :
    Tree.heldBy (Tree.extension key hashed child).link (.extension key hashed child) =
      { data | (Tree.extension key hashed child).link = true ∧
        data = (Tree.extension key hashed child).encode } ∪ Tree.heldBy hashed child := by
  ext data
  simp only [Tree.heldBy, Tree.held, Set.mem_ofPred_eq, Set.mem_union]
  tauto

theorem placeExtension_spec {depth : Nat} (path : Nibbles) (i : Nibble) {key : Nibbles}
    {hashed : Bool} {child : Tree} (hflag : Tree.FlagOk hashed child)
    (hchild : child.Regular depth) (hdepth : key.length + depth ≤ 64)
    (hheld : Tree.heldBy hashed child ⊆ known) (hsolid : clean → child ≠ .empty) :
    Triple (· ∈ strings) (Coherent base strings clean known)
      (placeExtension default ⟨path ++ i :: key, refOf hashed child.node⟩ path.length)
      fun branch t => ∃ rlp, branch = (default : MyBranchNode).set i rlp ∧
        Tree.Denotes rlp (Tree.hang key hashed child).1 (Tree.hang key hashed child).2 ∧
        (clean → rlp.reread = rlp) ∧ Coherent base strings clean
          (Tree.heldBy (Tree.hang key hashed child).1 (Tree.hang key hashed child).2 ∪ known)
            t := by
  have hdrop : (path ++ i :: key).drop (path.length + 1) = key := by simp
  unfold placeExtension
  simp only [nibbleAt_parting, hdrop]
  refine triple_bind (Q := fun index t => index = i ∧ Coherent base strings clean known t)
    (triple_pure fun t ht => ⟨rfl, ht⟩) fun index => triple_of_pure_pre ?_
  rintro rfl
  by_cases hkey : key = []
  · subst hkey
    simp only [List.isEmpty_nil, if_true, Tree.hang]
    refine triple_pure fun t ht => ⟨_, rfl, Tree.denotes_refOf hashed child, fun hc =>
      Tree.reread_refOf hashed hchild (by simpa using hdepth) (hsolid hc), ht.mono ?_ id⟩
    exact Set.union_subset hheld subset_rfl
  · have hext : (Tree.extension key hashed child).Regular (key.length + depth) :=
      .extension hkey hflag hchild
    rw [if_neg (by simpa using hkey)]
    simp only [Tree.hang, hkey, if_false, Tree.linked]
    refine triple_bind (storeNodeToRlp_spec (reads_node hext hdepth) hext hdepth) fun rlp =>
      triple_of_pure_pre ?_
    rintro rfl
    refine triple_pure fun t ht => ⟨_, rfl, Tree.denotes_refOf _ _, fun _ =>
      Tree.reread_refOf _ hext hdepth (by simp), ht.mono ?_ id⟩
    rw [Tree.heldBy_linked_extension, Set.union_assoc]
    exact Set.union_subset_union_right _ (Set.union_subset hheld subset_rfl)

theorem splitExtension_spec {depth : Nat} {path key nibbles : Nibbles} {i j : Nibble}
    {hashed : Bool} {child : Tree} {value : Bytes} (hflag : Tree.FlagOk hashed child)
    (hchild : child.Regular depth) (hlength : nibbles.length = key.length + depth)
    (hdepth : path.length + (key.length + depth + 1) ≤ 64)
    (hheld : Tree.heldBy hashed child ⊆ known) (hsolid : clean → child ≠ .empty)
    (hvalue : value.length < 2 ^ 63) (hij : i ≠ j) :
    Triple (· ∈ strings) (Coherent base strings clean known)
      (splitExtension ⟨path ++ i :: key, refOf hashed child.node⟩ (path ++ j :: nibbles) value)
      fun node t =>
        Reads clean node (Tree.wrap path (Tree.fork i (Tree.hang key hashed child) j
          (Tree.linked (.leaf nibbles value)))) ∧
        Coherent base strings clean ((Tree.wrap path (Tree.fork i (Tree.hang key hashed child) j
          (Tree.linked (.leaf nibbles value)))).held ∪ known) t := by
  have hleaf : (Tree.leaf nibbles value).Regular (key.length + depth) := .leaf hlength hvalue
  have hhang := Tree.regular_hang key hflag hchild
  unfold splitExtension
  simp only [commonPrefixLength_parting path key nibbles hij, List.take_left]
  refine triple_bind (Q := fun branch t => ∃ rlp,
    branch = ((default : MyBranchNode).set i rlp).set j
      (refOf (Tree.leaf nibbles value).link (Tree.leaf nibbles value).node) ∧
    Tree.Denotes rlp (Tree.hang key hashed child).1 (Tree.hang key hashed child).2 ∧
    (clean → rlp.reread = rlp) ∧ Coherent base strings clean
      (Tree.heldBy (Tree.leaf nibbles value).link (.leaf nibbles value) ∪
        (Tree.heldBy (Tree.hang key hashed child).1 (Tree.hang key hashed child).2 ∪ known)) t)
    ?_ ?_
  · unfold branchAtExtension
    rw [if_neg (by simp)]
    refine triple_bind (placeExtension_spec path i hflag hchild (by omega) hheld hsolid)
      fun branch => triple_of_exists_pre fun rlp => triple_of_pure_pre ?_
    rintro rfl
    refine triple_of_pure_pre fun hrlp => triple_of_pure_pre fun hclean => ?_
    refine (placeLeaf_spec _ path j hlength (by omega) hvalue).weaken ?_
    rintro branch t ⟨rfl, ht⟩
    exact ⟨rlp, rfl, hrlp, hclean, ht⟩
  · refine fun branch => triple_of_exists_pre fun rlp => triple_of_pure_pre ?_
    rintro rfl
    refine triple_of_pure_pre fun hrlp => triple_of_pure_pre fun hclean => ?_
    refine (wrapBranch_spec path (reads_fork (by omega) hhang hrlp hclean hlength hvalue hij)
      (Tree.regular_fork hhang (Tree.regular_linked hleaf)) hdepth ?_).weaken ?_
    · refine Tree.held_fork_subset.trans ?_
      rintro data (hdata | hdata)
      · exact .inr (.inl hdata)
      · exact .inl hdata
    · rintro node t ⟨hreads, ht⟩
      exact ⟨hreads, ht.mono (Set.union_subset_union_right _
        (Set.subset_union_right.trans Set.subset_union_right)) id⟩

/-- Replacing one slot of a branch that stands for a tree. -/
theorem reads_set {depth : Nat} {hashed : Nibble → Bool} {child : Nibble → Tree}
    {stack : Nibble → RlpNode} {index : Nibble} {rlp : RlpNode} {hashed' : Bool} {child' : Tree}
    (hdepth : depth + 1 ≤ 64) (hstack : ∀ i, Tree.Denotes (stack i) (hashed i) (child i))
    (hclean : clean → ∀ i, (stack i).reread = stack i) (hchild : ∀ i, (child i).Regular depth)
    (hrlp : Tree.Denotes rlp hashed' child') (hrlpClean : clean → rlp.reread = rlp)
    (hchild' : child'.Regular depth) :
    Reads clean (.branch (MyBranchNode.set ⟨stack, none⟩ index rlp))
      (.branch (Function.update hashed index hashed') (Function.update child index child')) := by
  have hreread : (MyTrieNode.branch (MyBranchNode.set ⟨stack, none⟩ index rlp)).reread =
      (Tree.branch (Function.update hashed index hashed')
        (Function.update child index child')).node := by
    simp only [MyTrieNode.reread, MyBranchNode.set, Tree.node, MyTrieNode.branch.injEq,
      MyBranchNode.mk.injEq, and_true]
    funext i
    by_cases hi : i = index
    · subst hi
      simpa using (show rlp.reread = _ from hrlp)
    · simpa [hi] using (show (stack i).reread = _ from hstack i)
  refine ⟨⟨fun i => ?_, rfl⟩, hreread, fun hc => ?_⟩
  · by_cases hi : i = index
    · subst hi
      simpa [MyBranchNode.set] using hrlp.item hchild' (by omega)
    · simpa [MyBranchNode.set, hi] using (hstack i).item (hchild i) (by omega)
  · rw [← hreread]
    simp only [MyTrieNode.reread, MyBranchNode.set, MyTrieNode.branch.injEq,
      MyBranchNode.mk.injEq, and_true]
    funext i
    by_cases hi : i = index
    · subst hi
      simpa using (hrlpClean hc).symm
    · simpa [hi] using (hclean hc i).symm

theorem inlinedNode_spec {depth : Nat} {rlp : RlpNode} {child : Tree} (hdepth : depth ≤ 64)
    (hchild : Readable known depth rlp false child) :
    Triple (· ∈ strings) (Coherent base strings clean known) (inlinedNode rlp)
      fun node t => node = child.node ∧ Coherent base strings clean known t := by
  obtain ⟨-, hempty, hdecode⟩ := hchild.inline hdepth
  unfold inlinedNode
  split
  next hnil =>
    obtain rfl := hempty hnil
    exact triple_pure fun t ht => ⟨rfl, ht⟩
  next hne => exact triple_liftExcept (hdecode (by simpa using hne)) fun t ht => ⟨rfl, ht⟩

theorem insertRecursiveRlp_spec (hstrings : CollisionFree strings) {depth : Nat} {rlp : RlpNode}
    {hashed : Bool} {child : Tree} {nibbles : Nibbles} {value : Bytes}
    {insertHash : B256 → Nibbles → Bytes → TrieM B256} (hdepth : depth ≤ 64)
    (hchild : Readable known depth rlp hashed child) (hlength : nibbles.length = depth)
    (hvalue : value.length < 2 ^ 63)
    (hinsert : ∀ known', Tree.heldBy true child ⊆ known' →
      Triple (· ∈ strings) (Coherent base strings clean known') (insertHash child.hash nibbles value)
        fun hash t => hash = (child.insert nibbles value).hash ∧ Coherent base strings clean
          (Tree.heldBy true (child.insert nibbles value) ∪ known') t) :
    Triple (· ∈ strings) (Coherent base strings clean known)
      (insertRecursiveRlp insertHash rlp nibbles value)
      fun rlp' t =>
        rlp' = refOf (hashed || (child.insert nibbles value).link)
          (child.insert nibbles value).node ∧
        Coherent base strings clean (Tree.heldBy (hashed || (child.insert nibbles value).link)
          (child.insert nibbles value) ∪ known) t := by
  obtain ⟨hregular, -⟩ := Tree.regular_insert hchild.regular hlength hvalue
  unfold insertRecursiveRlp
  cases hashed with
  | true =>
      rw [hchild.asHash_eq]
      refine triple_bind (hinsert known hchild.held) fun hash => triple_of_pure_pre ?_
      rintro rfl
      exact triple_pure fun t ht => ⟨rfl, ht⟩
  | false =>
      rw [(hchild.inline hdepth).1]
      simp only [Bool.false_or]
      refine triple_bind (inlinedNode_spec hdepth hchild) fun node => triple_of_pure_pre ?_
      rintro rfl
      refine triple_bind (storeNode_spec (Tree.valid_node hchild.regular hdepth) fun _ =>
        Tree.reread_node child) fun hash => triple_of_pure_pre ?_
      rintro rfl
      have hknown : Tree.heldBy true child ⊆ insert child.encode known := by
        rintro data (hdata | ⟨-, rfl⟩)
        · exact .inr (hchild.child_held hdata)
        · exact .inl rfl
      refine triple_bind (hinsert _ hknown) fun newHash => triple_of_pure_pre ?_
      rintro rfl
      refine triple_bind (getNode_spec hstrings hregular hdepth
        (.inl (Tree.encode_mem_heldBy _))) fun newNode => triple_of_pure_pre fun hreads => ?_
      refine (storeNodeToRlp_spec hreads hregular hdepth).weaken ?_
      rintro rlp' t ⟨rfl, ht⟩
      refine ⟨rfl, ht.mono ?_ id⟩
      rintro data ((hdata | hdata) | hdata)
      · exact .inr (.inl (.inl hdata))
      · exact .inl hdata
      · exact .inr (.inr (.inr hdata))

/-- One level of insertion, given what it does to the child it descends to. -/
theorem insertNode_spec {depth : Nat} {node : MyTrieNode} {tree : Tree} {nibbles : Nibbles}
    {value : Bytes} {insertRlp : RlpNode → Nibbles → Bytes → TrieM RlpNode} (hdepth : depth ≤ 64)
    (htree : tree.Regular depth) (hreads : Reads clean node tree) (hheld : tree.held ⊆ known)
    (hsolid : clean → tree.Solid) (hlength : nibbles.length = depth)
    (hvalue : value.length < 2 ^ 63)
    (hrec : ∀ {depth' rlp hashed child nibbles'}, depth' < depth →
      Readable known depth' rlp hashed child → (clean → child.Solid) → nibbles'.length = depth' →
      Triple (· ∈ strings) (Coherent base strings clean known) (insertRlp rlp nibbles' value)
        fun rlp' t =>
          rlp' = refOf (hashed || (child.insert nibbles' value).link)
            (child.insert nibbles' value).node ∧
          Coherent base strings clean (Tree.heldBy (hashed || (child.insert nibbles' value).link)
            (child.insert nibbles' value) ∪ known) t) :
    Triple (· ∈ strings) (Coherent base strings clean known) (insertNode insertRlp node nibbles value)
      fun node' t => Reads clean node' (tree.insert nibbles value) ∧
        Coherent base strings clean ((tree.insert nibbles value).held ∪ known) t := by
  obtain ⟨hregular, -⟩ := Tree.regular_insert htree hlength hvalue
  cases htree with
  | empty =>
      rw [hreads.eq_node (by simp)]
      refine triple_pure fun t ht => ⟨reads_node hregular hdepth, ht.mono ?_ id⟩
      simp [Tree.insert, Tree.held]
  | @leaf _ key old hkey hold =>
      rw [hreads.eq_node (by simp)]
      simp only [insertNode, Tree.node, Tree.insert] at hregular ⊢
      by_cases heq : key = nibbles
      · subst heq
        rw [if_pos ⟨commonPrefixLength_of_isPrefix List.prefix_rfl,
          commonPrefixLength_of_isPrefix List.prefix_rfl⟩]
        rw [if_pos rfl] at hregular ⊢
        refine triple_pure fun t ht => ⟨reads_node hregular hdepth, ht.mono ?_ id⟩
        simp [Tree.held]
      · have hnot : ¬ key <+: nibbles := fun hp => heq (hp.eq_of_length (by omega))
        rw [if_neg fun h => hnot (commonPrefixLength_eq_length h.2), if_neg heq]
        obtain ⟨path, i, key', j, nibbles', rfl, rfl, hij⟩ :=
          exists_parting hnot (not_prefix_of_length_le (by omega) hnot)
        rw [Tree.splitAt_parting _ _ _ _ _ hij]
        simp only [List.length_append, List.length_cons] at hkey hlength
        exact splitLeaf_spec rfl (by omega) (by omega) hold hvalue hij
  | @extension depth key hashed child hkey hflag hchild =>
      have hpos : 0 < key.length := List.length_pos_iff.mpr hkey
      rw [hreads.eq_node (by simp)]
      simp only [insertNode, Tree.node, Tree.insert] at hregular ⊢
      by_cases hpre : key <+: nibbles
      · rw [if_pos (commonPrefixLength_of_isPrefix hpre), commonPrefixLength_of_isPrefix hpre]
        rw [if_pos hpre] at hregular ⊢
        refine triple_bind (hrec (by omega) (readable_extension hflag hchild hheld)
          (fun hc => (hsolid hc).2) (by rw [List.length_drop]; omega)) fun rlp =>
          triple_of_pure_pre ?_
        rintro rfl
        exact triple_pure fun t ht => ⟨reads_node hregular hdepth, ht⟩
      · rw [if_neg fun h => hpre (commonPrefixLength_eq_length h), if_neg hpre]
        obtain ⟨path, i, key', j, nibbles', rfl, rfl, hij⟩ :=
          exists_parting hpre (not_prefix_of_length_le (by omega) hpre)
        rw [Tree.splitAt_parting _ _ _ _ _ hij]
        simp only [List.length_append, List.length_cons] at hdepth hlength
        exact splitExtension_spec hflag hchild (by omega) (by omega) hheld
          (fun hc => (hsolid hc).1) hvalue hij
  | @branch depth hashed child hflag hchild =>
      obtain ⟨stack, rfl, hstack, hclean⟩ := hreads.branch
      cases nibbles with
      | nil => simp at hlength
      | cons index remaining =>
          have hremaining : remaining.length = depth := by simpa using hlength
          obtain ⟨hregular', hne⟩ := Tree.regular_insert (hchild index) hremaining hvalue
          refine triple_bind (hrec (by omega) (readable_slot hstack hflag hchild hheld index)
            (fun hc => hsolid hc index) hremaining) fun rlp => triple_of_pure_pre ?_
          rintro rfl
          refine triple_pure fun t ht => ⟨reads_set hdepth hstack hclean hchild
            (Tree.denotes_refOf _ _) (fun _ => Tree.reread_refOf _ hregular' (by omega) hne)
            hregular', ht.mono ?_ id⟩
          refine Set.union_subset (Tree.held_update_subset.trans ?_) Set.subset_union_right
          exact Set.union_subset (hheld.trans Set.subset_union_right) Set.subset_union_left

/-- Insertion on stored nodes is insertion into the tree they stand for. -/
theorem insertRecursive_spec (hstrings : CollisionFree strings) (fuel : Nat) {depth : Nat}
    {tree : Tree} {nibbles : Nibbles} {value : Bytes} (hdepth : depth ≤ 64)
    (htree : tree.Regular depth) (hheld : Tree.heldBy true tree ⊆ known)
    (hsolid : clean → tree.Solid) (hlength : nibbles.length = depth)
    (hvalue : value.length < 2 ^ 63) (hfuel : depth < fuel) :
    Triple (· ∈ strings) (Coherent base strings clean known)
      (insertRecursive fuel tree.hash nibbles value)
      fun hash t => hash = (tree.insert nibbles value).hash ∧
        Coherent base strings clean (Tree.heldBy true (tree.insert nibbles value) ∪ known) t := by
  induction fuel generalizing depth tree nibbles known with
  | zero => omega
  | succ fuel ih =>
      obtain ⟨hregular, -⟩ := Tree.regular_insert htree hlength hvalue
      have hmem := hheld (Tree.encode_mem_heldBy tree)
      have hstore : ∀ {node known'}, Reads clean node (tree.insert nibbles value) →
          (tree.insert nibbles value).held ∪ known ⊆ known' →
          Triple (· ∈ strings) (Coherent base strings clean known') (storeNode node)
            fun hash t => hash = (tree.insert nibbles value).hash ∧
              Coherent base strings clean (Tree.heldBy true (tree.insert nibbles value) ∪ known) t := by
        intro node known' hreads hsubset
        refine (storeNode_spec hreads.valid fun hc => ?_).weaken ?_
        · rw [hreads.exact hc, Tree.reread_node]
        · rintro hash t ⟨rfl, ht⟩
          rw [hreads.encode_eq] at ht ⊢
          refine ⟨rfl, ht.mono ?_ id⟩
          rintro data ((hdata | ⟨-, rfl⟩) | hdata)
          · exact .inr (hsubset (.inl hdata))
          · exact .inl rfl
          · exact .inr (hsubset (.inr hdata))
      unfold insertRecursive
      split
      next hempty =>
        intro t ht hlog
        obtain rfl := (hash_eq_emptyRootHash hstrings htree hdepth (ht.found _ hmem).1).mp hempty
        exact hstore (reads_node hregular hdepth) (by simp [Tree.insert, Tree.held]) t ht hlog
      next =>
        refine triple_bind (getNode_spec hstrings htree hdepth hmem) fun node =>
          triple_of_pure_pre fun hreads => ?_
        refine triple_bind (insertNode_spec hdepth htree hreads
          ((Tree.held_subset_heldBy true tree).trans hheld) hsolid hlength hvalue ?_) fun node' =>
          triple_of_pure_pre fun hreads' => hstore hreads' subset_rfl
        intro depth' rlp hashed child nibbles' hlt hchild hsolid' hlength'
        refine insertRecursiveRlp_spec hstrings (by omega) hchild hlength' hvalue ?_
        intro known' hknown'
        exact ih (by omega) hchild.regular hknown' hsolid' hlength' (by omega)

end WasixEth.Storage
