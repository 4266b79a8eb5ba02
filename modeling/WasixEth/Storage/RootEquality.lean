import WasixEth.Storage.CanonicalDelete
import WasixEth.Storage.FreshTrie

/-! # When two tries have the same root

Without collisions among the strings reached through hashes, the encoding of a
tree determines the tree. Two tries therefore have equal roots exactly when
they stand for the same tree.
-/

namespace WasixEth.Storage

open RlpNode YellowPaper

variable [Keccak256] {strings : Set Bytes}

namespace Tree

theorem bytes_eq_of_reread {depth depth' : Nat} {hashed hashed' : Bool} {child child' : Tree}
    (hchild : Regular depth child) (hchild' : Regular depth' child') (hdepth : depth ≤ 64)
    (hdepth' : depth' ≤ 64)
    (h : (refOf hashed child.node).reread = (refOf hashed' child'.node).reread) :
    (refOf hashed child.node).bytes = (refOf hashed' child'.node).bytes := by
  have hslot := congrArg slotBytes h
  rw [slotBytes_reread, slotBytes_reread, slotBytes, slotBytes,
    refOf_ne_nil hashed (valid_node hchild hdepth),
    refOf_ne_nil hashed' (valid_node hchild' hdepth')] at hslot
  exact hslot

/-- A reference tells how its child is held, and the child's encoding. -/
theorem reference_inj (hfree : Set.InjOn keccak256 strings) {depth depth' : Nat}
    {hashed hashed' : Bool} {child child' : Tree} (hchild : Regular depth child)
    (hchild' : Regular depth' child') (hdepth : depth ≤ 64) (hdepth' : depth' ≤ 64)
    (hflag : FlagOk hashed child) (hflag' : FlagOk hashed' child')
    (hheld : heldBy hashed child ⊆ strings) (hheld' : heldBy hashed' child' ⊆ strings)
    (h : (refOf hashed child.node).bytes = (refOf hashed' child'.node).bytes) :
    hashed = hashed' ∧ child.encode = child'.encode := by
  have hlength := congrArg List.length h
  rw [length_refOf (length_tree_encode hchild hdepth) hflag,
    length_refOf (length_tree_encode hchild' hdepth') hflag'] at hlength
  cases hashed with
  | true =>
      cases hashed' with
      | true =>
          refine ⟨rfl, hfree (hheld (encode_mem_heldBy child))
            (hheld' (encode_mem_heldBy child')) ?_⟩
          simp only [refOf, if_true, wordRlp, List.cons.injEq, true_and] at h
          exact B256.ext h
      | false =>
          have hshort := hflag'.1 rfl
          simp only [refSize, if_true, Bool.false_eq_true, if_false] at hlength
          omega
  | false =>
      have hshort := hflag.1 rfl
      cases hashed' with
      | true =>
          simp only [refSize, if_true, Bool.false_eq_true, if_false] at hlength
          omega
      | false =>
          refine ⟨rfl, ?_⟩
          rw [refOf_inline hchild hdepth hshort,
            refOf_inline hchild' hdepth' (hflag'.1 rfl)] at h
          exact h

theorem node_eq_of_encode {depth depth' : Nat} {tree tree' : Tree} (h : Regular depth tree)
    (h' : Regular depth' tree') (hdepth : depth ≤ 64) (hdepth' : depth' ≤ 64)
    (hencode : tree.encode = tree'.encode) : tree.node = tree'.node := by
  have hdecode := decode_tree_encode h hdepth
  rw [hencode, decode_tree_encode h' hdepth'] at hdecode
  exact (Except.ok.inj hdecode).symm

/-- Trees with the same encoding are the same. -/
theorem encode_inj (hfree : Set.InjOn keccak256 strings) {depth : Nat} {tree tree' : Tree}
    (h : Regular depth tree) (h' : Regular depth tree') (hdepth : depth ≤ 64)
    (hheld : tree.held ⊆ strings) (hheld' : tree'.held ⊆ strings)
    (hencode : tree.encode = tree'.encode) : tree = tree' := by
  induction h generalizing tree' with
  | empty depth =>
      exact (node_eq_emptyRoot.mp (node_eq_of_encode h' (.empty depth) hdepth hdepth
        hencode.symm)).symm
  | leaf hkey hvalue =>
      have hnode := node_eq_of_encode (.leaf hkey hvalue) h' hdepth hdepth hencode
      cases tree' with
      | leaf key' value' => simpa [node] using hnode
      | empty => simp [node] at hnode
      | extension key' hashed' child' => simp [node] at hnode
      | branch hashed' child' => simp [node] at hnode
  | @extension depth key hashed child hkey hflag hchild ih =>
      have hnode := node_eq_of_encode (.extension hkey hflag hchild) h' hdepth hdepth hencode
      cases tree' with
      | empty => simp [node] at hnode
      | leaf key' value' => simp [node] at hnode
      | branch hashed' child' => simp [node] at hnode
      | extension key' hashed' child' =>
          simp only [node, MyTrieNode.extension.injEq, MyExtensionNode.mk.injEq] at hnode
          obtain ⟨rfl, hrefs⟩ := hnode
          obtain ⟨hflag', hchild'⟩ := h'.of_extension
          rw [held_extension] at hheld hheld'
          obtain ⟨rfl, hchildren⟩ := reference_inj hfree hchild hchild' (by omega) (by omega)
            hflag hflag' hheld hheld' (congrArg RlpNode.bytes hrefs)
          rw [ih hchild' (by omega) ((held_subset_heldBy _ _).trans hheld)
            ((held_subset_heldBy _ _).trans hheld') hchildren]
  | @branch depth hashed child hflag hchild ih =>
      have hnode := node_eq_of_encode (.branch hflag hchild) h' hdepth hdepth hencode
      cases tree' with
      | empty => simp [node] at hnode
      | leaf key' value' => simp [node] at hnode
      | extension key' hashed' child' => simp [node] at hnode
      | branch hashed' child' =>
          simp only [node, MyTrieNode.branch.injEq, MyBranchNode.mk.injEq, and_true] at hnode
          have hslot : ∀ i, hashed i = hashed' i ∧ child i = child' i := by
            intro i
            obtain ⟨hflag', hchild'⟩ := h'.of_branch i
            have hbelow := (heldBy_subset_branch hashed child i).trans hheld
            have hbelow' := (heldBy_subset_branch hashed' child' i).trans hheld'
            have hbytes := bytes_eq_of_reread (hchild i) hchild' (by omega) (by omega)
              (congrFun hnode i)
            obtain ⟨hflags, hchildren⟩ := reference_inj hfree (hchild i) hchild' (by omega)
              (by omega) (hflag i) hflag' hbelow hbelow' hbytes
            refine ⟨hflags, ih i hchild' (by omega) ?_ ?_ hchildren⟩
            · exact (held_subset_heldBy _ _).trans hbelow
            · exact (held_subset_heldBy _ _).trans hbelow'
          rw [funext fun i => (hslot i).1, funext fun i => (hslot i).2]

end Tree

/-- Two tries have the same root exactly when they stand for the same tree. -/
theorem Holds.root_eq_iff (hstrings : CollisionFree strings) {store store' : Table B256 Bytes}
    {clean clean' : Prop} {known known' : Set Bytes} {tree tree' : Tree} {t t' : EthTrie}
    (h : Holds store strings clean known tree t)
    (h' : Holds store' strings clean' known' tree' t') :
    t.rootHash = t'.rootHash ↔ tree = tree' := by
  have hheld : Tree.heldBy true tree ⊆ strings := fun data hdata =>
    (h.coherent.found data (h.held hdata)).1
  have hheld' : Tree.heldBy true tree' ⊆ strings := fun data hdata =>
    (h'.coherent.found data (h'.held hdata)).1
  rw [h.root, h'.root]
  constructor
  · intro hhash
    refine Tree.encode_inj hstrings.injOn h.regular h'.regular le_rfl
      ((Tree.held_subset_heldBy _ _).trans hheld) ((Tree.held_subset_heldBy _ _).trans hheld') ?_
    exact hstrings.injOn (hheld (Tree.encode_mem_heldBy tree))
      (hheld' (Tree.encode_mem_heldBy tree')) hhash
  · rintro rfl
    rfl

end WasixEth.Storage
