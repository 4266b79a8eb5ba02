import WasixEth.Storage.TreeLaws
import WasixEth.Storage.TrieCodec

/-! # Trees as stored nodes

The node at the root of a tree, its encoding and its hash. A child reference
found in a stored node denotes a tree and the way it is held; what the code
does with the reference depends on nothing else.
-/

namespace WasixEth.Storage

open Rlp RlpNode

variable [Keccak256]

/-- The reference a parent keeps to a node. -/
def refOf (hashed : Bool) (node : MyTrieNode) : RlpNode :=
  if hashed then wordRlp (keccak256 node.encode) else fromRlp node.encode

namespace Tree

def node : Tree → MyTrieNode
  | empty => .emptyRoot
  | leaf key value => .leaf ⟨key, value⟩
  | extension key hashed child => .extension ⟨key, refOf hashed child.node⟩
  | branch hashed child => .branch ⟨fun i => (refOf (hashed i) (child i).node).reread, none⟩

def encode (tree : Tree) : Bytes := tree.node.encode

def hash (tree : Tree) : B256 := keccak256 tree.encode

end Tree

/-! ## Slots read back -/

omit [Keccak256] in
@[simp] theorem reread_default : (default : RlpNode).reread = default := rfl

omit [Keccak256] in
@[simp] theorem reread_reread (child : RlpNode) : child.reread.reread = child.reread := by
  by_cases hempty : child.bytes = [emptyStringCode]
  · simp [RlpNode.reread, hempty]
  · simp [RlpNode.reread, hempty]

omit [Keccak256] in
@[simp] theorem slotBytes_reread (child : RlpNode) : slotBytes child.reread = slotBytes child := by
  unfold RlpNode.reread
  split
  next hempty => simp [slotBytes, RlpNode.isEmpty, hempty, default]
  · rfl

omit [Keccak256] in
@[simp] theorem reread_wordRlp (word : B256) : (wordRlp word).reread = wordRlp word := by
  unfold RlpNode.reread
  rw [if_neg]
  intro h
  have hlength := congrArg List.length h
  simp [wordRlp, word.length_eq] at hlength

omit [Keccak256] in
theorem eq_wordRlp_of_reread {child : RlpNode} {word : B256} (h : child.reread = wordRlp word) :
    child = wordRlp word := by
  unfold RlpNode.reread at h
  split at h
  next =>
    have hbytes := congrArg RlpNode.bytes h
    simp [wordRlp, default] at hbytes
  next => exact h

omit [Keccak256] in
@[simp] theorem asHash_wordRlp (word : B256) : (wordRlp word).asHash = some word := by
  simp [asHash, wordRlp, word.length_eq]

namespace MyTrieNode

omit [Keccak256] in
@[simp] theorem reread_reread (node : MyTrieNode) : node.reread.reread = node.reread := by
  cases node <;> simp [MyTrieNode.reread]

omit [Keccak256] in
@[simp] theorem encode_reread (node : MyTrieNode) : node.reread.encode = node.encode := by
  cases node <;> simp [MyTrieNode.reread, MyTrieNode.encode, MyBranchNode.encode]

omit [Keccak256] in
theorem Valid.reread {node : MyTrieNode} (h : node.Valid) : node.reread.Valid := by
  cases node with
  | branch node =>
      refine ⟨fun i => ?_, h.2⟩
      simp only [RlpNode.reread]
      split
      · exact .inl rfl
      · exact h.1 i
  | emptyRoot => exact h
  | leaf node => exact h
  | extension node => exact h

omit [Keccak256] in
/-- Nodes with the same encoding are read back as the same node. -/
theorem reread_eq_of_encode_eq {node other : MyTrieNode} (hnode : node.Valid)
    (hother : other.Valid) (h : node.encode = other.encode) : node.reread = other.reread := by
  have hdecode := decode_encode hnode
  rw [h, decode_encode hother] at hdecode
  exact (Except.ok.inj hdecode).symm

omit [Keccak256] in
theorem isItem_encode {node : MyTrieNode} (h : node.Valid) : IsItem node.encode := by
  cases node with
  | emptyRoot => exact isItem_emptyString
  | leaf node =>
      refine isItem_list ?_
      have h1 := bytesLength_le (encodePath node.key true)
      have h2 := bytesLength_le node.value
      have h3 := h.1
      have h4 := h.2
      rw [length_encodePath] at h1
      simp only [List.length_append, length_encodeBytes]
      omega
  | extension node =>
      refine isItem_list ?_
      have h1 := bytesLength_le (encodePath node.key false)
      have h2 := node.child.length_le
      have h3 := h.1
      rw [length_encodePath] at h1
      simp only [List.length_append, length_encodeBytes]
      omega
  | branch node =>
      refine isItem_list ?_
      have h1 := length_flatten_slots_le ((List.finRange 16).map node.stack)
      rw [List.map_map, ← List.flatMap_def] at h1
      simp only [List.length_map, List.length_finRange, Function.comp_def] at h1
      simp only [h.2, List.length_append, List.length_singleton]
      omega

end MyTrieNode

theorem isItem_refOf {node : MyTrieNode} (hashed : Bool) (h : node.Valid) :
    IsItem (refOf hashed node).bytes := by
  unfold refOf fromRlp
  split
  · exact isItem_wordRlp _
  · split
    · exact MyTrieNode.isItem_encode h
    · exact isItem_wordRlp _

namespace Tree

/-! ## The node of a tree -/

@[simp] theorem reread_node (tree : Tree) : tree.node.reread = tree.node := by
  cases tree <;> simp [node, MyTrieNode.reread]

theorem node_eq_emptyRoot {tree : Tree} : tree.node = .emptyRoot ↔ tree = empty := by
  cases tree <;> simp [node]

theorem valid_node {depth : Nat} {tree : Tree} (h : Regular depth tree) (hdepth : depth ≤ 64) :
    tree.node.Valid := by
  induction h with
  | empty depth => exact trivial
  | leaf hkey hvalue => exact ⟨hkey.trans_le hdepth, hvalue⟩
  | @extension depth key hashed child hkey hflag hchild ih =>
      exact ⟨(Nat.le_add_right _ _).trans hdepth, isItem_refOf hashed (ih (by omega))⟩
  | @branch depth hashed child hflag hchild ih =>
      refine ⟨fun i => ?_, rfl⟩
      simp only [RlpNode.reread]
      split
      · exact .inl rfl
      · exact .inr (isItem_refOf _ (ih i (by omega)))

theorem decode_tree_encode {depth : Nat} {tree : Tree} (h : Regular depth tree)
    (hdepth : depth ≤ 64) : MyTrieNode.decode tree.encode = .ok tree.node := by
  rw [encode, decode_encode (valid_node h hdepth), reread_node]

theorem encode_empty : (empty : Tree).encode = [emptyStringCode] := rfl

theorem eq_empty_of_encode {depth : Nat} {tree : Tree} (h : Regular depth tree)
    (hdepth : depth ≤ 64) (hencode : tree.encode = [emptyStringCode]) : tree = empty := by
  have hdecode := decode_tree_encode h hdepth
  rw [hencode, decode_emptyString] at hdecode
  exact node_eq_emptyRoot.mp (Except.ok.inj hdecode).symm

omit [Keccak256] in
theorem length_encodeList (payload : Bytes) :
    (encodeList payload).length = listSize payload.length := by
  simp [encodeList, length_encode, listSize]

theorem length_refOf {hashed : Bool} {child : Tree} (hsize : child.encode.length = child.size)
    (hflag : FlagOk hashed child) :
    (refOf hashed child.node).bytes.length = refSize hashed child.size := by
  cases hashed with
  | true => simp [refOf, refSize, wordRlp, B256.length_eq]
  | false =>
      have hlt := hflag.1 rfl
      rw [← hsize, encode] at hlt
      rw [← hsize, encode]
      simp [refOf, refSize, fromRlp, hlt]

theorem refOf_ne_nil {node : MyTrieNode} (hashed : Bool) (h : node.Valid) :
    (refOf hashed node).isEmpty = false := by
  have hne := (isItem_refOf hashed h).1
  simpa [RlpNode.isEmpty] using hne

theorem length_tree_encode {depth : Nat} {tree : Tree} (h : Regular depth tree)
    (hdepth : depth ≤ 64) : tree.encode.length = tree.size := by
  induction h with
  | empty depth => rfl
  | leaf hkey hvalue =>
      simp [encode, node, MyTrieNode.encode, MyLeafNode.encode, length_encodeList, size,
        length_encodeBytes]
  | @extension depth key hashed child hkey hflag hchild ih =>
      have hchild' := length_refOf (ih (by omega)) hflag
      simp [encode, node, MyTrieNode.encode, MyExtensionNode.encode, length_encodeList, size,
        length_encodeBytes, hchild']
  | @branch depth hashed child hflag hchild ih =>
      have hslot : ∀ i, (slotBytes (refOf (hashed i) (child i).node)).length =
          refSize (hashed i) (child i).size := by
        intro i
        have hne := refOf_ne_nil (hashed i) (valid_node (hchild i) (by omega))
        simp only [slotBytes, hne, Bool.false_eq_true, if_false]
        exact length_refOf (ih i (by omega)) (hflag i)
      simp only [encode, node, MyTrieNode.encode, MyBranchNode.encode, length_encodeList, size,
        slotBytes_reread, List.length_append, List.length_flatMap, hslot, List.length_singleton]

theorem link_eq {depth : Nat} {tree : Tree} (h : Regular depth tree) (hdepth : depth ≤ 64) :
    tree.link = decide (32 ≤ tree.encode.length) := by
  rw [link, length_tree_encode h hdepth]

/-! ## References read from a node -/

/-- The reference `rlp` holds `child`, by hash or inlined. -/
def Denotes (rlp : RlpNode) (hashed : Bool) (child : Tree) : Prop :=
  rlp.reread = (refOf hashed child.node).reread

theorem denotes_refOf (hashed : Bool) (child : Tree) :
    Denotes (refOf hashed child.node) hashed child := rfl

theorem Denotes.eq_wordRlp {rlp : RlpNode} {child : Tree} (h : Denotes rlp true child) :
    rlp = wordRlp child.hash := by
  refine eq_wordRlp_of_reread ?_
  rw [h]
  simp [refOf, hash, encode]

theorem refOf_inline {depth : Nat} {child : Tree} (hchild : Regular depth child)
    (hdepth : depth ≤ 64) (hsize : child.size < 32) :
    (refOf false child.node).bytes = child.encode := by
  rw [← length_tree_encode hchild hdepth, encode] at hsize
  simp [refOf, fromRlp, hsize, encode]

/-- An inlined reference is read by decoding it in place; an empty one stands
for the absent child. -/
theorem Denotes.inline {depth : Nat} {rlp : RlpNode} {child : Tree} (h : Denotes rlp false child)
    (hchild : Regular depth child) (hdepth : depth ≤ 64) (hsize : child.size < 32) :
    rlp.asHash = none ∧ (rlp.isEmpty = true → child = empty) ∧
      (rlp.isEmpty = false → MyTrieNode.decode rlp.bytes = .ok child.node) := by
  have hbytes := refOf_inline hchild hdepth hsize
  have hlength := length_tree_encode hchild hdepth
  by_cases hempty : child = empty
  · subst hempty
    have hreread : rlp.reread = default := by
      rw [h]
      unfold RlpNode.reread
      rw [if_pos (hbytes.trans encode_empty)]
    unfold RlpNode.reread at hreread
    split at hreread
    next hcode =>
      simp [asHash, hcode, decode_emptyString, node]
    next =>
      subst hreread
      simp [asHash, default, RlpNode.isEmpty]
  · have hcode : child.encode ≠ [emptyStringCode] := fun hcode =>
      hempty (eq_empty_of_encode hchild hdepth hcode)
    have hreread : rlp.reread = refOf false child.node := by
      rw [h]
      unfold RlpNode.reread
      rw [if_neg (by rw [hbytes]; exact hcode)]
    have hrlp : rlp = refOf false child.node := by
      unfold RlpNode.reread at hreread
      split at hreread
      next =>
        have hne := refOf_ne_nil false (valid_node hchild hdepth)
        rw [← hreread] at hne
        simp [RlpNode.isEmpty, default] at hne
      next => exact hreread
    subst hrlp
    refine ⟨?_, ?_, ?_⟩
    · rw [asHash, dif_neg (by rw [hbytes]; omega)]
    · rw [refOf_ne_nil false (valid_node hchild hdepth)]
      simp
    · rw [hbytes]
      exact fun _ => decode_tree_encode hchild hdepth

end Tree

end WasixEth.Storage
