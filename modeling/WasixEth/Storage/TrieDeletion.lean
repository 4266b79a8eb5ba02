import WasixEth.Storage.TrieRefinement

/-! # Deletion on stored nodes refines deletion on trees

The slots that count as children are those of the nodes actually read, so the
result is a deletion for some count at each branch on the way. As long as no
branch read has an emptied slot, every count is the plain one, and the trie
stays in that condition when the deletion leaves no such slot itself.
-/

namespace WasixEth.Storage

open Routine RlpNode EthTrie

variable [Keccak256] {base : EthTrie} {strings known : Set Bytes} {clean : Prop}

namespace Tree

theorem heldBy_relink_empty (hashed : Bool) : heldBy (relink hashed empty) empty = ∅ :=
  heldBy_empty _ rfl

theorem held_joinExtension_subset (key : Nibbles) (hashed : Bool) (child : Tree) :
    (joinExtension key hashed child).held ⊆ heldBy hashed child := by
  cases child with
  | extension key' hashed' child =>
      rw [joinExtension, held_extension, ← held_extension key']
      exact held_subset_heldBy _ _
  | empty => exact subset_rfl
  | leaf key' value => exact subset_rfl
  | branch hashed' child => exact subset_rfl

theorem held_joinBranch_subset (index : Nibble) (hashed : Bool) (child : Tree) :
    (joinBranch index hashed child).held ⊆ heldBy hashed child := by
  cases child with
  | extension key' hashed' child =>
      rw [joinBranch, held_extension, ← held_extension key']
      exact held_subset_heldBy _ _
  | empty => exact subset_rfl
  | leaf key' value => simp [joinBranch, held]
  | branch hashed' child => exact subset_rfl

theorem held_collapse_subset (hashed : Nibble → Bool) (child : Nibble → Tree) :
    (collapse hashed child).held ⊆ (branch hashed child).held := by
  unfold collapse
  split
  · simp [held]
  next index _ =>
    exact (held_joinBranch_subset _ _ _).trans (heldBy_subset_branch hashed child index)
  · exact subset_rfl

end Tree

theorem Coherent.addEmpty {t : EthTrie} (hstrings : CollisionFree strings)
    (h : Coherent base strings clean known t) :
    Coherent base strings clean (insert [emptyStringCode] known) t := by
  refine ⟨h.cache, h.dirty, h.state_eq, h.root_eq, h.state, ?_⟩
  rintro data (rfl | hdata)
  · exact ⟨hstrings.empty_mem, .inl rfl⟩
  · exact h.found data hdata

theorem getNodeFromRlp_spec (hstrings : CollisionFree strings) {depth : Nat} {rlp : RlpNode}
    {hashed : Bool} {child : Tree} (hdepth : depth ≤ 64)
    (hchild : Readable known depth rlp hashed child) :
    Triple (· ∈ strings) (Coherent base strings clean known) (getNodeFromRlp rlp)
      fun node t => Reads clean node child ∧ Coherent base strings clean known t := by
  unfold getNodeFromRlp
  cases hashed with
  | true =>
      rw [hchild.asHash_eq]
      exact getNode_spec hstrings hchild.regular hdepth hchild.encode_mem
  | false =>
      rw [(hchild.inline hdepth).1]
      refine (inlinedNode_spec hdepth hchild).weaken ?_
      rintro node t ⟨rfl, ht⟩
      exact ⟨reads_node hchild.regular hdepth, ht⟩

/-! ## Collapsing -/

theorem collapseExtension_spec (hstrings : CollisionFree strings) {depth : Nat} {key : Nibbles}
    {hashed : Bool} {child : Tree} (hdepth : key.length + depth ≤ 64) (hkey : key ≠ [])
    (hchild : Readable known depth (refOf hashed child.node) hashed child) :
    Triple (· ∈ strings) (Coherent base strings clean known)
      (collapseExtension ⟨key, refOf hashed child.node⟩)
      fun node t => Reads clean node (Tree.joinExtension key hashed child) ∧
        Coherent base strings clean known t := by
  have hregular := Tree.regular_joinExtension hkey hchild.flag hchild.regular
  have hresult : Reads clean _ _ := reads_node hregular hdepth
  unfold collapseExtension
  refine triple_bind (getNodeFromRlp_spec hstrings (by omega) hchild) fun node =>
    triple_of_pure_pre fun hreads => ?_
  cases child with
  | extension key' hashed' child' =>
      rw [hreads.eq_node (by simp)]
      have hextend : extend key key' = .ok (key ++ key') := by
        cases hchild.regular
        exact extend_of_le (by omega)
      refine triple_bind (Q := fun newKey t => newKey = key ++ key' ∧
        Coherent base strings clean known t) (triple_liftExcept hextend
          fun t ht => ⟨rfl, ht⟩) fun newKey => triple_of_pure_pre ?_
      rintro rfl
      exact triple_pure fun t ht => ⟨hresult, ht⟩
  | empty =>
      rw [hreads.eq_node (by simp)]
      exact triple_pure fun t ht => ⟨hresult, ht⟩
  | leaf key' value =>
      rw [hreads.eq_node (by simp)]
      exact triple_pure fun t ht => ⟨hresult, ht⟩
  | branch hashed' child' =>
      obtain ⟨stack, rfl, -⟩ := hreads.branch
      exact triple_pure fun t ht => ⟨hresult, ht⟩

theorem eq_refOf_of_denotes {depth : Nat} {rlp : RlpNode} {hashed : Bool} {child : Tree}
    (h : Tree.Denotes rlp hashed child) (hchild : child.Regular depth) (hdepth : depth ≤ 64)
    (hne : child ≠ .empty) : rlp = refOf hashed child.node := by
  have hreread : rlp.reread = refOf hashed child.node :=
    h.trans (Tree.reread_refOf hashed hchild hdepth hne)
  unfold RlpNode.reread at hreread
  split at hreread
  next =>
    have hnonempty := Tree.refOf_ne_nil hashed (Tree.valid_node hchild hdepth)
    rw [← hreread] at hnonempty
    simp [RlpNode.isEmpty, default] at hnonempty
  next => exact hreread

theorem collapseChild_spec (hstrings : CollisionFree strings) {depth : Nat}
    {branch : MyBranchNode} {index : Nibble} {hashed : Bool} {child : Tree}
    (hdepth : depth + 1 ≤ 64) (hchild : Readable known depth (branch.stack index) hashed child)
    (hne : child ≠ .empty) :
    Triple (· ∈ strings) (Coherent base strings clean known) (collapseChild branch index)
      fun node t => Reads clean node (Tree.joinBranch index hashed child) ∧
        Coherent base strings clean known t := by
  have hregular := Tree.regular_joinBranch index hchild.flag hchild.regular
  have hresult : Reads clean _ _ := reads_node hregular hdepth
  have hrlp := eq_refOf_of_denotes hchild.denotes hchild.regular (by omega) hne
  unfold collapseChild
  refine triple_bind (getNodeFromRlp_spec hstrings (by omega) hchild) fun node =>
    triple_of_pure_pre fun hreads => ?_
  have hextend : ∀ {key : Nibbles}, key.length ≤ depth → extend [index] key = .ok (index :: key) :=
    fun hlength => extend_of_le (by simp only [List.length_singleton]; omega)
  cases child with
  | empty => exact absurd rfl hne
  | leaf key value =>
      rw [hreads.eq_node (by simp)]
      have hlength : key.length ≤ depth := by
        cases hchild.regular
        omega
      refine triple_bind (Q := fun newKey t => newKey = index :: key ∧
        Coherent base strings clean known t) (triple_liftExcept (hextend hlength)
          fun t ht => ⟨rfl, ht⟩) fun newKey => triple_of_pure_pre ?_
      rintro rfl
      exact triple_pure fun t ht => ⟨hresult, ht⟩
  | extension key hashed' child' =>
      rw [hreads.eq_node (by simp)]
      have hlength : key.length ≤ depth := by
        cases hchild.regular
        omega
      refine triple_bind (Q := fun newKey t => newKey = index :: key ∧
        Coherent base strings clean known t) (triple_liftExcept (hextend hlength)
          fun t ht => ⟨rfl, ht⟩) fun newKey => triple_of_pure_pre ?_
      rintro rfl
      exact triple_pure fun t ht => ⟨hresult, ht⟩
  | branch hashed' child' =>
      obtain ⟨stack, rfl, -⟩ := hreads.branch
      rw [hrlp]
      exact triple_pure fun t ht => ⟨hresult, ht⟩

/-- An empty slot that counts as a child. -/
def Counted (stack : Nibble → RlpNode) (child : Nibble → Tree) : Prop :=
  ∃ i, child i = .empty ∧ (stack i).isEmpty = false

omit [Keccak256] in
theorem mem_occupied {branch : MyBranchNode} {i : Nibble} :
    i ∈ occupied branch ↔ (branch.stack i).isEmpty = false := by
  simp [occupied]

theorem slot_nonempty {depth : Nat} {rlp : RlpNode} {hashed : Bool} {child : Tree}
    (h : Tree.Denotes rlp hashed child) (hchild : child.Regular depth) (hdepth : depth ≤ 64)
    (hne : child ≠ .empty) : rlp.isEmpty = false := by
  rw [eq_refOf_of_denotes h hchild hdepth hne]
  exact Tree.refOf_ne_nil hashed (Tree.valid_node hchild hdepth)

theorem occupied_eq_children {depth : Nat} {stack : Nibble → RlpNode} {hashed : Nibble → Bool}
    {child : Nibble → Tree} (hstack : ∀ i, Tree.Denotes (stack i) (hashed i) (child i))
    (hchild : ∀ i, (child i).Regular depth) (hdepth : depth ≤ 64)
    (hcounted : ¬ Counted stack child) :
    occupied ⟨stack, none⟩ = Tree.children child := by
  unfold occupied Tree.children
  refine List.filter_congr fun i _ => ?_
  by_cases hempty : child i = .empty
  · have hslot : (stack i).isEmpty = true := by
      by_contra hne
      exact hcounted ⟨i, hempty, by simpa using hne⟩
    simp [hempty, hslot]
  · have hslot := slot_nonempty (hstack i) (hchild i) hdepth hempty
    have hisEmpty : (child i).isEmpty = false := by simpa using hempty
    simp [hslot, hisEmpty]

/-- A counted empty slot keeps the branch from being collapsed. -/
theorem collapseBranch_counted (hstrings : CollisionFree strings) {depth : Nat}
    {stack : Nibble → RlpNode} {hashed : Nibble → Bool} {child : Nibble → Tree}
    (hdepth : depth ≤ 64) (hchild : ∀ i, Readable known depth (stack i) (hashed i) (child i))
    (hcounted : Counted stack child) :
    Triple (· ∈ strings) (Coherent base strings clean known) (collapseBranch ⟨stack, none⟩)
      fun node t => node = .branch ⟨stack, none⟩ ∧ Coherent base strings clean known t := by
  obtain ⟨i, hempty, hslot⟩ := hcounted
  have hmem : i ∈ occupied ⟨stack, none⟩ := mem_occupied.mpr hslot
  unfold collapseBranch
  split
  next hnone _ => simp [hnone] at hmem
  next index hone _ =>
    obtain rfl : i = index := by simpa [hone] using hmem
    unfold collapseChild
    refine triple_bind (getNodeFromRlp_spec hstrings hdepth (hchild i))
      fun node => triple_of_pure_pre fun hreads => ?_
    rw [hempty] at hreads
    rw [hreads.eq_node (by simp)]
    exact triple_pure fun t ht => ⟨rfl, ht⟩
  next => exact triple_pure fun t ht => ⟨rfl, ht⟩

theorem collapseBranch_plain (hstrings : CollisionFree strings) {depth : Nat}
    {stack : Nibble → RlpNode} {hashed : Nibble → Bool} {child : Nibble → Tree}
    (hdepth : depth + 1 ≤ 64)
    (hreads : Reads clean (.branch ⟨stack, none⟩) (.branch hashed child))
    (hchild : ∀ i, Readable known depth (stack i) (hashed i) (child i))
    (hcounted : ¬ Counted stack child) :
    Triple (· ∈ strings) (Coherent base strings clean known) (collapseBranch ⟨stack, none⟩)
      fun node t => Reads clean node (Tree.collapse hashed child) ∧
        Coherent base strings clean known t := by
  have hoccupied := occupied_eq_children (fun i => (hchild i).denotes)
    (fun i => (hchild i).regular) (by omega) hcounted
  unfold collapseBranch Tree.collapse
  rw [hoccupied]
  split
  next hnone _ =>
    rw [hnone]
    exact triple_pure fun t ht => ⟨reads_node (.empty 0) (by omega), ht⟩
  next index hone _ =>
    rw [hone]
    have hne : child index ≠ .empty := Tree.mem_children.mp (by simp [hone])
    exact collapseChild_spec hstrings hdepth (hchild index) hne
  next hnone hone =>
    split
    next heq => exact (hnone heq rfl).elim
    next index heq => exact (hone index heq rfl).elim
    next => exact triple_pure fun t ht => ⟨hreads, ht⟩

/-! ## Deletion -/

/-- What a deletion below `child` promises: the result stands for the child
without the path, for some count of emptied slots. -/
def DeletesNode (base : EthTrie) (strings known : Set Bytes) (clean : Prop)
    (child : Tree) (nibbles : Nibbles) (node : MyTrieNode) (t : EthTrie) : Prop :=
  ∃ counted, (clean → counted = fun _ => false) ∧
    Reads (clean ∧ child.leavesSlot nibbles = false) node (child.delete counted nibbles) ∧
    Coherent base strings (clean ∧ child.leavesSlot nibbles = false)
      ((child.delete counted nibbles).held ∪ known) t

/-- The reference left after a deletion below a child. A child held by hash,
or a slot that was empty before, leaves the empty reference. -/
def DeletesRef (base : EthTrie) (strings known : Set Bytes) (clean : Prop)
    (rlp : RlpNode) (hashed : Bool) (child : Tree) (nibbles : Nibbles) (rlp' : RlpNode)
    (t : EthTrie) : Prop :=
  ∃ counted, (clean → counted = fun _ => false) ∧
    rlp' = (if (child.delete counted nibbles).isEmpty && (hashed || rlp.isEmpty) then default
      else refOf (Tree.relink hashed (child.delete counted nibbles))
        (child.delete counted nibbles).node) ∧
    Coherent base strings (clean ∧ child.leavesSlot nibbles = false)
      (Tree.heldBy (Tree.relink hashed (child.delete counted nibbles))
        (child.delete counted nibbles) ∪ known) t

theorem deleteRecursive_spec (hstrings : CollisionFree strings) {depth : Nat} {tree : Tree}
    {nibbles : Nibbles} {deleteNode : MyTrieNode → Nibbles → TrieM MyTrieNode}
    (hdepth : depth ≤ 64) (htree : tree.Regular depth) (hlength : nibbles.length = depth)
    (hheld : Tree.heldBy true tree ⊆ known)
    (hdelete : ∀ node, Reads clean node tree →
      Triple (· ∈ strings) (Coherent base strings clean known) (deleteNode node nibbles)
        (DeletesNode base strings known clean tree nibbles)) :
    Triple (· ∈ strings) (Coherent base strings clean known)
      (deleteRecursive deleteNode tree.hash nibbles)
      fun hash t => ∃ counted, (clean → counted = fun _ => false) ∧
        hash = (tree.delete counted nibbles).hash ∧
        Coherent base strings (clean ∧ tree.leavesSlot nibbles = false)
          (Tree.heldBy true (tree.delete counted nibbles) ∪ known) t := by
  have hmem := hheld (Tree.encode_mem_heldBy tree)
  have hvanish : ∀ {counted known'}, tree.delete counted nibbles = .empty → known ⊆ known' →
      ∀ {t}, Coherent base strings (clean ∧ tree.leavesSlot nibbles = false) known' t →
        emptyRootHash = (tree.delete counted nibbles).hash ∧
        Coherent base strings (clean ∧ tree.leavesSlot nibbles = false)
          (Tree.heldBy true (tree.delete counted nibbles) ∪ known) t := by
    intro counted known' hempty hsubset t ht
    rw [hempty]
    refine ⟨rfl, (ht.addEmpty hstrings).mono ?_ id⟩
    rintro data ((hdata | ⟨-, rfl⟩) | hdata)
    · simp [Tree.held] at hdata
    · exact .inl rfl
    · exact .inr (hsubset hdata)
  unfold deleteRecursive
  split
  next hempty =>
    refine triple_pure fun t ht => ⟨fun _ => false, fun _ => rfl, ?_⟩
    obtain rfl := (hash_eq_emptyRootHash hstrings htree hdepth (ht.found _ hmem).1).mp hempty
    exact hvanish rfl subset_rfl (ht.mono subset_rfl And.left)
  next =>
    refine triple_bind (getNode_spec hstrings htree hdepth hmem) fun node =>
      triple_of_pure_pre fun hreads => ?_
    refine triple_bind (hdelete node hreads) fun newNode => triple_of_exists_pre fun counted =>
      triple_of_pure_pre fun hcounted => triple_of_pure_pre fun hreads' => ?_
    have hregular := Tree.regular_delete htree counted hlength
    split
    next hroot =>
      subst hroot
      refine triple_pure fun t ht => ⟨counted, hcounted, hvanish ?_ Set.subset_union_right ht⟩
      exact Tree.node_eq_emptyRoot.mp hreads'.reread.symm
    next =>
      refine (storeNode_spec hreads'.valid fun hc => ?_).weaken ?_
      · rw [hreads'.exact hc, Tree.reread_node]
      · rintro hash t ⟨rfl, ht⟩
        rw [hreads'.encode_eq] at ht ⊢
        refine ⟨counted, hcounted, rfl, ht.mono ?_ id⟩
        rintro data ((hdata | ⟨-, rfl⟩) | hdata)
        · exact .inr (.inl hdata)
        · exact .inl rfl
        · exact .inr (.inr hdata)

theorem deleteRecursiveRlp_spec (hstrings : CollisionFree strings) {depth : Nat} {rlp : RlpNode}
    {hashed : Bool} {child : Tree} {nibbles : Nibbles}
    {deleteNode : MyTrieNode → Nibbles → TrieM MyTrieNode} (hdepth : depth ≤ 64)
    (hchild : Readable known depth rlp hashed child) (hlength : nibbles.length = depth)
    (hdelete : ∀ node, Reads clean node child →
      Triple (· ∈ strings) (Coherent base strings clean known) (deleteNode node nibbles)
        (DeletesNode base strings known clean child nibbles)) :
    Triple (· ∈ strings) (Coherent base strings clean known)
      (deleteRecursiveRlp deleteNode rlp nibbles)
      (DeletesRef base strings known clean rlp hashed child nibbles) := by
  unfold deleteRecursiveRlp
  cases hashed with
  | true =>
      rw [hchild.asHash_eq]
      refine triple_bind (deleteRecursive_spec hstrings hdepth hchild.regular hlength hchild.held
        hdelete) fun newHash => triple_of_exists_pre fun counted =>
          triple_of_pure_pre fun hcounted => triple_of_pure_pre ?_
      rintro rfl
      have hregular := Tree.regular_delete hchild.regular counted hlength
      set child' := child.delete counted nibbles with hchild'
      have hmem : child'.encode ∈ Tree.heldBy true child' ∪ known :=
        .inl (Tree.encode_mem_heldBy child')
      split
      next hempty =>
        refine triple_pure fun t ht => ⟨counted, hcounted, ?_⟩
        have hgone := (hash_eq_emptyRootHash hstrings hregular hdepth
          (ht.found _ hmem).1).mp hempty
        rw [← hchild', hgone]
        refine ⟨rfl, ht.mono (Set.union_subset ?_ Set.subset_union_right) id⟩
        rw [Tree.heldBy_relink_empty]
        exact Set.empty_subset _
      next hne =>
        have hnonempty : child'.isEmpty = false := by
          simp only [Tree.isEmpty_eq_false_iff]
          rintro hgone
          exact hne (by rw [hgone]; rfl)
        refine triple_pure fun t ht => ⟨counted, hcounted, ?_⟩
        rw [← hchild']
        simp only [hnonempty, Tree.relink, Bool.false_and, Bool.false_eq_true, if_false,
          Bool.not_false, Bool.true_or, Bool.and_self]
        exact ⟨rfl, ht⟩
  | false =>
      rw [(hchild.inline hdepth).1]
      simp only
      split
      next hnil =>
        obtain rfl := (hchild.inline hdepth).2.1 hnil
        refine triple_pure fun t ht => ⟨fun _ => false, fun _ => rfl, ?_, ?_⟩
        · simp [Tree.delete, Tree.isEmpty, hnil]
        · simp only [Tree.delete]
          rw [Tree.heldBy_relink_empty, Set.empty_union]
          exact ht.mono subset_rfl And.left
      next hne =>
        refine triple_bind (Q := fun node t => node = child.node ∧
          Coherent base strings clean known t)
          (triple_liftExcept ((hchild.inline hdepth).2.2 (by simpa using hne))
            fun t ht => ⟨rfl, ht⟩) fun node => triple_of_pure_pre ?_
        rintro rfl
        refine triple_bind (hdelete _ (reads_node hchild.regular hdepth)) fun newNode =>
          triple_of_exists_pre fun counted => triple_of_pure_pre fun hcounted =>
            triple_of_pure_pre fun hreads => ?_
        have hregular := Tree.regular_delete hchild.regular counted hlength
        set child' := child.delete counted nibbles with hchild'
        have hrelink : Tree.relink false child' = child'.link := by
          by_cases hempty : child' = .empty
          · rw [hempty]
            rfl
          · have hisEmpty : child'.isEmpty = false := by simpa using hempty
            simp [Tree.relink, hisEmpty]
        refine (storeNodeToRlp_spec hreads hregular hdepth).weaken ?_
        rintro rlp' t ⟨rfl, ht⟩
        refine ⟨counted, hcounted, ?_, ht.mono ?_ id⟩
        · simp [← hchild', hne, hrelink]
        · rw [← hchild', hrelink]
          rintro data ((hdata | hdata) | hdata)
          · exact .inr (.inl hdata)
          · exact .inl hdata
          · exact .inr (.inr hdata)

theorem denotes_deleted {rlp : RlpNode} {hashed emptied : Bool} {child : Tree}
    (h : rlp = if child.isEmpty && emptied then default
      else refOf (Tree.relink hashed child) child.node) :
    Tree.Denotes rlp (Tree.relink hashed child) child := by
  subst h
  split
  next hgone =>
    simp only [Bool.and_eq_true, Tree.isEmpty_iff] at hgone
    rw [hgone.1]
    rfl
  next => exact Tree.denotes_refOf _ _

/-- The emptied slots of a branch after one of its children was replaced. -/
theorem counted_update {depth : Nat} {stack : Nibble → RlpNode} {hashed : Nibble → Bool}
    {child : Nibble → Tree} {index : Nibble} {rlp' : RlpNode} {child' : Tree}
    (hdepth : depth ≤ 64) (hstack : ∀ i, Tree.Denotes (stack i) (hashed i) (child i))
    (hflag : ∀ i, Tree.FlagOk (hashed i) (child i)) (hchild : ∀ i, (child i).Regular depth)
    (hkept : child index = .empty → child' = .empty)
    (hrlp' : rlp' = if child'.isEmpty && (hashed index || (stack index).isEmpty) then default
      else refOf (Tree.relink (hashed index) child') child'.node)
    (hchild' : child'.Regular depth) :
    Counted (Function.update stack index rlp') (Function.update child index child') ↔
      Counted stack child ∨ (child' = .empty ∧ hashed index = false ∧ child index ≠ .empty) := by
  have hslot : child' = .empty → (rlp'.isEmpty = false ↔
      hashed index = false ∧ (stack index).isEmpty = false) := by
    rintro rfl
    rw [hrlp']
    by_cases hemptied : (hashed index || (stack index).isEmpty) = true
    · simp only [Tree.isEmpty, hemptied, Bool.and_self, if_true]
      simp only [Bool.or_eq_true] at hemptied
      constructor
      · intro h
        simp [RlpNode.isEmpty, default] at h
      · rintro ⟨h1, h2⟩
        simp [h1, h2] at hemptied
    · have hnonempty := Tree.refOf_ne_nil (Tree.relink (hashed index) .empty)
        (Tree.valid_node hchild' hdepth)
      simp only [Tree.isEmpty, hemptied, Bool.and_false, Bool.false_eq_true, if_false, hnonempty]
      simpa using hemptied
  constructor
  · rintro ⟨i, hempty, hnonempty⟩
    by_cases hi : i = index
    · subst hi
      simp only [Function.update_self] at hempty hnonempty
      obtain ⟨hhashed, hstackNonempty⟩ := (hslot hempty).mp hnonempty
      by_cases hbefore : child i = .empty
      · exact .inl ⟨i, hbefore, hstackNonempty⟩
      · exact .inr ⟨hempty, hhashed, hbefore⟩
    · simp only [Function.update_of_ne hi] at hempty hnonempty
      exact .inl ⟨i, hempty, hnonempty⟩
  · rintro (⟨i, hempty, hnonempty⟩ | ⟨hempty, hhashed, hbefore⟩)
    · refine ⟨i, ?_⟩
      by_cases hi : i = index
      · subst hi
        have hgone := hkept hempty
        simp only [Function.update_self]
        exact ⟨hgone, (hslot hgone).mpr ⟨(hflag i).2 hempty, hnonempty⟩⟩
      · simpa [hi] using ⟨hempty, hnonempty⟩
    · refine ⟨index, ?_⟩
      simp only [Function.update_self]
      exact ⟨hempty, (hslot hempty).mpr ⟨hhashed,
        slot_nonempty (hstack index) (hchild index) hdepth hbefore⟩⟩

/-- What is counted at a level, above what is counted below it. -/
def countedAbove (first : Bool) (counted : Nat → Bool) : Nat → Bool
  | 0 => first
  | d + 1 => counted d

omit [Keccak256] in
@[simp] theorem countedAbove_zero (first : Bool) (counted : Nat → Bool) :
    countedAbove first counted 0 = first :=
  rfl

omit [Keccak256] in
@[simp] theorem countedAbove_succ (first : Bool) (counted : Nat → Bool) (d : Nat) :
    countedAbove first counted (d + 1) = counted d :=
  rfl

omit [Keccak256] in
theorem countedAbove_false : countedAbove false (fun _ => false) = fun _ => false := by
  funext d
  cases d with
  | zero => rfl
  | succ d => rfl

/-- One level of deletion at a branch, given the deletion below one slot. -/
theorem deleteBranch_spec (hstrings : CollisionFree strings) {depth : Nat}
    {stack : Nibble → RlpNode} {hashed : Nibble → Bool} {child : Nibble → Tree}
    {index : Nibble} {remaining : Nibbles} {rlp' : RlpNode} (hdepth : depth + 1 ≤ 64)
    (hremaining : remaining.length = depth)
    (hstack : ∀ i, Tree.Denotes (stack i) (hashed i) (child i))
    (hclean : clean → ∀ i, (stack i).reread = stack i)
    (hflag : ∀ i, Tree.FlagOk (hashed i) (child i)) (hchild : ∀ i, (child i).Regular depth)
    (hheld : (Tree.branch hashed child).held ⊆ known) :
    Triple (· ∈ strings)
      (DeletesRef base strings known clean (stack index) (hashed index) (child index) remaining rlp')
      (collapseBranch (MyBranchNode.set ⟨stack, none⟩ index rlp'))
      (DeletesNode base strings known clean (.branch hashed child) (index :: remaining)) := by
  classical
  refine triple_of_exists_pre fun counted => triple_of_pure_pre fun hcounted =>
    triple_of_pure_pre fun hrlp' => ?_
  have hchild' := Tree.regular_delete (hchild index) counted hremaining
  obtain ⟨hflags, hchildren⟩ := Tree.regular_update hflag hchild index
    (Tree.flagOk_relink (hashed index) _) hchild'
  have hnotCounted : clean → ¬ Counted stack child := by
    rintro hc ⟨i, hempty, hnonempty⟩
    have hreread : (stack i).reread = default := by
      rw [show (stack i).reread = _ from hstack i, hempty, (hflag i).2 hempty]
      rfl
    rw [← hclean hc i, hreread] at hnonempty
    simp [RlpNode.isEmpty, default] at hnonempty
  have hkept : child index = .empty → (child index).delete counted remaining = .empty := by
    intro hempty
    rw [hempty]
    rfl
  have hiff := counted_update (by omega) hstack hflag hchild hkept hrlp' hchild'
  set counted' := countedAbove (decide (Counted stack child)) counted with hcounted'
  set child' := (child index).delete counted remaining with hchild'Eq
  have hplain : clean → counted' = fun _ => false := by
    intro hc
    rw [hcounted', hcounted hc, decide_eq_false (hnotCounted hc)]
    exact countedAbove_false
  have hresult : (Tree.branch hashed child).delete counted' (index :: remaining) =
      if Counted (Function.update stack index rlp') (Function.update child index child') then
        .branch (Function.update hashed index (Tree.relink (hashed index) child'))
          (Function.update child index child')
      else Tree.collapse (Function.update hashed index (Tree.relink (hashed index) child'))
          (Function.update child index child') := by
    simp only [Tree.delete, hcounted', countedAbove_zero, countedAbove_succ, ← hchild'Eq, hiff]
    refine if_congr ?_ rfl rfl
    simp [and_assoc]
  have hslot : clean ∧ (Tree.branch hashed child).leavesSlot (index :: remaining) = false →
      rlp'.reread = rlp' := by
    rintro ⟨hc, hleaves⟩
    rw [hrlp']
    split
    · rfl
    next hkeptRef =>
      by_cases hempty : child' = .empty
      · simp only [hempty, Tree.isEmpty, Bool.true_and, Bool.or_eq_true, not_or,
          Bool.not_eq_true] at hkeptRef
        have hbefore : child index = .empty := by
          simp only [Tree.leavesSlot, Bool.or_eq_false_iff] at hleaves
          rw [hcounted hc] at hchild'Eq
          have hslot := hleaves.2
          rw [← hchild'Eq, hempty, hkeptRef.1] at hslot
          simpa using hslot
        exact absurd ⟨index, hbefore, hkeptRef.2⟩ (hnotCounted hc)
      · exact Tree.reread_refOf _ hchild' (by omega) hempty
  have hleaves : clean ∧ (Tree.branch hashed child).leavesSlot (index :: remaining) = false →
      clean ∧ (child index).leavesSlot remaining = false := by
    rintro ⟨hc, hleaves⟩
    simp only [Tree.leavesSlot, Bool.or_eq_false_iff] at hleaves
    exact ⟨hc, hleaves.1⟩
  have hreads : Reads (clean ∧ (Tree.branch hashed child).leavesSlot (index :: remaining) = false)
      (.branch (MyBranchNode.set ⟨stack, none⟩ index rlp'))
      (.branch (Function.update hashed index (Tree.relink (hashed index) child'))
        (Function.update child index child')) :=
    reads_set hdepth hstack (fun h => hclean h.1) hchild (denotes_deleted hrlp') hslot hchild'
  have hheld' : (Tree.branch (Function.update hashed index (Tree.relink (hashed index) child'))
      (Function.update child index child')).held ⊆
        Tree.heldBy (Tree.relink (hashed index) child') child' ∪ known := by
    refine Tree.held_update_subset.trans ?_
    exact Set.union_subset (hheld.trans Set.subset_union_right) Set.subset_union_left
  have hreadable : ∀ i, Readable (Tree.heldBy (Tree.relink (hashed index) child') child' ∪ known)
      depth (Function.update stack index rlp' i)
      (Function.update hashed index (Tree.relink (hashed index) child') i)
      (Function.update child index child' i) := by
    refine readable_slot ?_ hflags hchildren hheld'
    intro i
    by_cases hi : i = index
    · subst hi
      simpa using denotes_deleted hrlp'
    · simpa [hi] using hstack i
  by_cases hmarked : Counted (Function.update stack index rlp')
      (Function.update child index child')
  · rw [if_pos hmarked] at hresult
    refine (collapseBranch_counted hstrings (by omega) hreadable hmarked).consequence
      (fun t ht => ht.mono subset_rfl hleaves) ?_
    rintro node t ⟨rfl, ht⟩
    refine ⟨counted', hplain, ?_⟩
    rw [hresult]
    exact ⟨hreads, ht.mono (Set.union_subset hheld' Set.subset_union_right) id⟩
  · rw [if_neg hmarked] at hresult
    refine (collapseBranch_plain hstrings hdepth hreads hreadable hmarked).consequence
      (fun t ht => ht.mono subset_rfl hleaves) ?_
    rintro node t ⟨hreads', ht⟩
    refine ⟨counted', hplain, ?_⟩
    rw [hresult]
    exact ⟨hreads', ht.mono (Set.union_subset ((Tree.held_collapse_subset _ _).trans hheld')
      Set.subset_union_right) id⟩

/-- Deletion on stored nodes is deletion from the tree they stand for. -/
theorem deleteRecursiveNode_spec (hstrings : CollisionFree strings) (fuel : Nat) {depth : Nat}
    {node : MyTrieNode} {tree : Tree} {nibbles : Nibbles} (hdepth : depth ≤ 64)
    (htree : tree.Regular depth) (hreads : Reads clean node tree) (hheld : tree.held ⊆ known)
    (hlength : nibbles.length = depth) (hfuel : depth < fuel) :
    Triple (· ∈ strings) (Coherent base strings clean known) (deleteRecursiveNode fuel node nibbles)
      (DeletesNode base strings known clean tree nibbles) := by
  induction fuel generalizing depth node tree nibbles with
  | zero => omega
  | succ fuel ih =>
      have hkeep : ∀ {node'} counted, tree.delete counted nibbles = tree ∨
          tree.delete counted nibbles = .empty → (clean → counted = fun _ => false) →
          node' = (tree.delete counted nibbles).node →
          Triple (· ∈ strings) (Coherent base strings clean known) (pure node' : TrieM MyTrieNode)
            (DeletesNode base strings known clean tree nibbles) := by
        rintro node' counted hresult hcounted rfl
        refine triple_pure fun t ht => ⟨counted, hcounted, reads_node
          (Tree.regular_delete htree counted hlength) hdepth, ht.mono ?_ And.left⟩
        obtain hsame | hgone := hresult
        · rw [hsame]
          exact Set.union_subset hheld subset_rfl
        · simp [hgone, Tree.held]
      cases htree with
      | empty =>
          rw [hreads.eq_node (by simp)]
          exact hkeep (fun _ => false) (.inl rfl) (fun _ => rfl) rfl
      | @leaf _ key value hkey hvalue =>
          rw [hreads.eq_node (by simp)]
          refine hkeep (fun _ => false) ?_ (fun _ => rfl) ?_
          · by_cases heq : key = nibbles
            · exact .inr (by simp [Tree.delete, heq])
            · exact .inl (by simp [Tree.delete, heq])
          · by_cases heq : key = nibbles <;> simp [Tree.delete, heq, Tree.node]
      | @extension depth key hashed child hkey hflag hchild =>
          have hpos : 0 < key.length := List.length_pos_iff.mpr hkey
          rw [hreads.eq_node (by simp)]
          simp only [deleteRecursiveNode, Tree.node]
          split
          next hpre =>
            have hreadable := readable_extension hflag hchild hheld
            have hnonempty := Tree.refOf_ne_nil hashed (Tree.valid_node hchild (by omega))
            have hdrop : (nibbles.drop key.length).length = depth := by
              rw [List.length_drop]
              omega
            refine triple_bind (deleteRecursiveRlp_spec hstrings (by omega) hreadable hdrop
              fun node' hreads' => ih (by omega) hchild hreads' hreadable.child_held hdrop
                (by omega)) fun rlp' => triple_of_exists_pre fun counted =>
                  triple_of_pure_pre fun hcounted => triple_of_pure_pre ?_
            rintro rfl
            have hchild' := Tree.regular_delete hchild counted hdrop
            set child' := child.delete counted (nibbles.drop key.length) with hchildEq
            set counted' := countedAbove false counted with hcounted'
            have hplain : clean → counted' = fun _ => false := by
              intro hc
              rw [hcounted', hcounted hc]
              exact countedAbove_false
            have hresult : (Tree.extension key hashed child).delete counted' nibbles =
                if child'.isEmpty && hashed then .empty
                else Tree.joinExtension key (Tree.relink hashed child') child' := by
              simp only [Tree.delete, hpre, if_true, hcounted', countedAbove_succ, ← hchildEq]
            have hleaves : (Tree.extension key hashed child).leavesSlot nibbles =
                child.leavesSlot (nibbles.drop key.length) := by
              simp [Tree.leavesSlot, hpre]
            simp only [hnonempty, Bool.or_false]
            by_cases hgone : (child'.isEmpty && hashed) = true
            · rw [if_pos hgone] at hresult
              simp only [hgone, if_true]
              rw [if_pos (show (default : RlpNode).isEmpty = true from rfl)]
              refine triple_pure fun t ht => ⟨counted', hplain, ?_⟩
              rw [hresult, hleaves]
              refine ⟨reads_node (.empty 0) (by omega), ht.mono ?_ id⟩
              simp [Tree.held]
            · rw [if_neg hgone] at hresult
              rw [if_neg hgone, if_neg (by
                rw [Tree.refOf_ne_nil _ (Tree.valid_node hchild' (by omega))]
                simp)]
              refine (collapseExtension_spec hstrings hdepth hkey ⟨Tree.denotes_refOf _ _,
                Tree.flagOk_relink _ _, hchild', Set.subset_union_left⟩).weaken ?_
              rintro node' t ⟨hreads', ht⟩
              refine ⟨counted', hplain, ?_⟩
              rw [hresult, hleaves]
              exact ⟨hreads', ht.mono (Set.union_subset
                ((Tree.held_joinExtension_subset _ _ _).trans Set.subset_union_left)
                Set.subset_union_right) id⟩
          next hpre =>
            exact hkeep (fun _ => false) (.inl (by simp [Tree.delete, hpre]))
              (fun _ => rfl) (by simp [Tree.delete, hpre, Tree.node])
      | @branch depth hashed child hflag hchild =>
          obtain ⟨stack, rfl, hstack, hclean⟩ := hreads.branch
          cases nibbles with
          | nil => simp at hlength
          | cons index remaining =>
              have hremaining : remaining.length = depth := by simpa using hlength
              have hslot := readable_slot hstack hflag hchild hheld index
              exact triple_bind (deleteRecursiveRlp_spec hstrings (by omega) hslot hremaining
                fun node' hreads' => ih (by omega) (hchild index) hreads' hslot.child_held
                  hremaining (by omega)) fun rlp' =>
                deleteBranch_spec hstrings hdepth hremaining hstack hclean hflag hchild hheld

end WasixEth.Storage
