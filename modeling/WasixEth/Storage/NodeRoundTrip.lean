import WasixEth.Lib.RlpItem
import WasixEth.Storage.TrieCodec

/-! # Nodes as bytes

The encoder of a node adds up the lengths of its items by hand, for the header of the list as
well as for the announced size of the whole. A node whose children are references that a trie
builds is read back as it was, with whatever follows it left over.
-/

namespace WasixEth.Storage

open Rlp

/-! ## The encoder -/

def MyLeafNode.payloadLength (leaf : MyLeafNode) : Nat :=
  bytesLength (encodePath leaf.key true) + bytesLength leaf.value

def MyLeafNode.write (leaf : MyLeafNode) : Bytes :=
  Rlp.Header.encode ⟨true, leaf.payloadLength⟩ ++
    (encodeBytes (encodePath leaf.key true) ++ encodeBytes leaf.value)

def MyLeafNode.length (leaf : MyLeafNode) : Nat :=
  lengthOfLength leaf.payloadLength + leaf.payloadLength

def MyExtensionNode.payloadLength (ext : MyExtensionNode) : Nat :=
  bytesLength (encodePath ext.key false) + ext.child.bytes.length

def MyExtensionNode.write (ext : MyExtensionNode) : Bytes :=
  Rlp.Header.encode ⟨true, ext.payloadLength⟩ ++
    (encodeBytes (encodePath ext.key false) ++ ext.child.bytes)

def MyExtensionNode.length (ext : MyExtensionNode) : Nat :=
  lengthOfLength ext.payloadLength + ext.payloadLength

def MyBranchNode.payloadLength (branch : MyBranchNode) : Nat :=
  (List.finRange 16).foldl
      (fun sum i => sum +
        if (branch.stack i).isEmpty then 1 else (branch.stack i).bytes.length) 0 +
    (branch.value.map bytesLength).getD 1

def MyBranchNode.write (branch : MyBranchNode) : Bytes :=
  Rlp.Header.encode ⟨true, branch.payloadLength⟩ ++
    ((List.finRange 16).flatMap (fun i =>
        if (branch.stack i).isEmpty then [emptyStringCode] else (branch.stack i).bytes) ++
      match branch.value with
      | some value => encodeBytes value
      | none => [emptyStringCode])

def MyBranchNode.length (branch : MyBranchNode) : Nat :=
  lengthOfLength branch.payloadLength + branch.payloadLength

def MyTrieNode.write : MyTrieNode → Bytes
  | .emptyRoot => [emptyStringCode]
  | .leaf node => node.write
  | .extension node => node.write
  | .branch node => node.write

/-- What the node in question announces; a trie without entries has no length of its own. -/
def MyTrieNode.length : MyTrieNode → Nat
  | .emptyRoot => 1
  | .leaf node => node.length
  | .extension node => node.length
  | .branch node => node.length

/-- A list behind a header with the length of its payload. -/
theorem encode_eq_encodeList {payloadLength : Nat} {payload : Bytes}
    (h : payload.length = payloadLength) :
    Rlp.Header.encode ⟨true, payloadLength⟩ ++ payload = encodeList payload := by
  rw [encodeList, h]

theorem length_header_append {payloadLength : Nat} {payload : Bytes}
    (h : payload.length = payloadLength) :
    (Rlp.Header.encode ⟨true, payloadLength⟩ ++ payload).length =
      lengthOfLength payloadLength + payloadLength := by
  rw [List.length_append, length_encode, h]

theorem MyLeafNode.length_payload (leaf : MyLeafNode) :
    (encodeBytes (encodePath leaf.key true) ++ encodeBytes leaf.value).length =
      leaf.payloadLength := by
  rw [List.length_append, length_encodeBytes, length_encodeBytes, payloadLength]

theorem MyExtensionNode.length_payload (ext : MyExtensionNode) :
    (encodeBytes (encodePath ext.key false) ++ ext.child.bytes).length = ext.payloadLength := by
  rw [List.length_append, length_encodeBytes, payloadLength]

theorem length_slotBytes (child : RlpNode) :
    (slotBytes child).length = if child.isEmpty then 1 else child.bytes.length := by
  unfold slotBytes
  split <;> rfl

theorem length_flatMap_slots {slots : List Nibble} {stack : Nibble → RlpNode} (start : Nat) :
    start + (slots.flatMap fun i => slotBytes (stack i)).length =
      slots.foldl (fun sum i => sum +
        if (stack i).isEmpty then 1 else (stack i).bytes.length) start := by
  induction slots generalizing start with
  | nil => rfl
  | cons i slots ih =>
      rw [List.flatMap_cons, List.length_append, List.foldl_cons, ← ih, length_slotBytes,
        Nat.add_assoc]

theorem length_valueBytes (value : Option Bytes) :
    (valueBytes value).length = (value.map bytesLength).getD 1 := by
  cases value with
  | none => rfl
  | some value => exact length_encodeBytes value

theorem MyBranchNode.length_payload (branch : MyBranchNode) :
    ((List.finRange 16).flatMap (fun i => slotBytes (branch.stack i)) ++
      valueBytes branch.value).length = branch.payloadLength := by
  rw [List.length_append, length_valueBytes, payloadLength, ← length_flatMap_slots, Nat.zero_add]

/-- The lengths that were added up are those of the items. -/
theorem MyTrieNode.write_eq_encode (node : MyTrieNode) : node.write = node.encode := by
  cases node with
  | emptyRoot => rfl
  | leaf node => exact encode_eq_encodeList node.length_payload
  | extension node => exact encode_eq_encodeList node.length_payload
  | branch node => exact encode_eq_encodeList node.length_payload

theorem MyTrieNode.length_write (node : MyTrieNode) : node.write.length = node.length := by
  cases node with
  | emptyRoot => rfl
  | leaf node => exact length_header_append node.length_payload
  | extension node => exact length_header_append node.length_payload
  | branch node => exact length_header_append node.length_payload

/-! ## The decoder -/

/-- Read one node from the front of a buffer, and what follows it. -/
def MyTrieNode.decodeFrom (buf : Bytes) : Except TrieError (MyTrieNode × Bytes) :=
  if buf.isEmpty then .error .emptyBuffer
  else
    match Rlp.Header.decode buf with
    | .error e => .error (.header e)
    | .ok (h, after) =>
        if !h.list then
          if h.payloadLength = 0 then .ok (.emptyRoot, after)
          else .error (.expectedList h.payloadLength)
        else
          let payload := after.take h.payloadLength
          match splitItems payload.length payload with
          | .error e => .error e
          | .ok items => (decodeItems items).map (·, after.drop h.payloadLength)

theorem MyTrieNode.decode_eq (buf : Bytes) : decode buf = (decodeFrom buf).map Prod.fst := by
  unfold decode decodeFrom
  split
  · rfl
  · cases hheader : Rlp.Header.decode buf with
    | error e => rfl
    | ok found =>
        obtain ⟨⟨list, payloadLength⟩, after⟩ := found
        dsimp only
        cases list with
        | false => cases payloadLength <;> rfl
        | true =>
            cases splitItems (after.take payloadLength).length (after.take payloadLength) with
            | error e => rfl
            | ok items =>
                have hlist : ¬ (!true) = true := Bool.false_ne_true
                rw [if_neg hlist, if_neg hlist]
                dsimp only
                cases decodeItems items <;> rfl

/-- What follows a list has no part in what the list is decoded to. -/
theorem decodeFrom_encodeList {payload : Bytes} (hlt : payload.length < 2 ^ 64) (rest : Bytes) :
    MyTrieNode.decodeFrom (encodeList payload ++ rest) =
      (MyTrieNode.decode (encodeList payload)).map (·, rest) := by
  have hann : Rlp.Header.Announces ⟨true, payload.length⟩ payload := ⟨rfl, hlt, by simp⟩
  have hdecode := Rlp.decode_encode hann rest
  rw [← List.append_assoc] at hdecode
  change Rlp.Header.decode (encodeList payload ++ rest) = _ at hdecode
  have hne : ¬ (encodeList payload ++ rest).isEmpty := by
    simp [encodeList_ne_nil]
  unfold MyTrieNode.decodeFrom MyTrieNode.decode
  rw [if_neg hne, if_neg (by simp [encodeList_ne_nil]), hdecode, decode_encodeList hlt]
  simp only [Bool.not_true, Bool.false_eq_true, if_false, List.take_left, List.take_length,
    List.drop_left]
  cases splitItems payload.length payload <;> rfl

/-! ## Nodes of a trie -/

mutual

/-- A node as a trie builds it. A vector has fewer than `2 ^ 63` bytes. -/
inductive WellFormed : MyTrieNode → Prop
  | leaf {key : Nibbles} {value : Bytes} (hkey : key.length ≤ 64)
      (hvalue : value.length < 2 ^ 63) : WellFormed (.leaf ⟨key, value⟩)
  | extension {key : Nibbles} {child : RlpNode} (hne : key ≠ []) (hkey : key.length ≤ 64)
      (hchild : Reference child) : WellFormed (.extension ⟨key, child⟩)
  | branch {stack : Nibble → RlpNode} {value : Option Bytes}
      (hstack : ∀ i, stack i ≠ default → Reference (stack i)) (hvalue : ValidValue value) :
      WellFormed (.branch ⟨stack, value⟩)

/-- A child that is not empty: its hash, or itself where it is short. -/
inductive Reference : RlpNode → Prop
  | hash (word : B256) : Reference (RlpNode.wordRlp word)
  | inline {node : MyTrieNode} {child : RlpNode} (hnode : WellFormed node)
      (hchild : child.bytes = node.write) (hshort : node.write.length < 32) : Reference child

end

theorem length_flatMap_slots_le (slots : List Nibble) (stack : Nibble → RlpNode) :
    (slots.flatMap fun i => slotBytes (stack i)).length ≤ 33 * slots.length := by
  induction slots with
  | nil => exact Nat.le_refl _
  | cons i slots ih =>
      have hslot := length_slotBytes_le (stack i)
      rw [List.flatMap_cons, List.length_append, List.length_cons]
      omega

/-- The bytes of a well-formed node are one list. -/
theorem WellFormed.list {node : MyTrieNode} (h : WellFormed node) :
    ∃ payload, node.encode = encodeList payload ∧ payload.length < 2 ^ 64 := by
  cases h with
  | @leaf key value hkey hvalue =>
      have hpath := bytesLength_le (encodePath key true)
      have hbytes := bytesLength_le value
      rw [length_encodePath] at hpath
      refine ⟨_, rfl, ?_⟩
      rw [List.length_append, length_encodeBytes, length_encodeBytes]
      dsimp only
      omega
  | @extension key child hne hkey hchild =>
      have hpath := bytesLength_le (encodePath key false)
      have hlength := child.length_le
      rw [length_encodePath] at hpath
      refine ⟨_, rfl, ?_⟩
      rw [List.length_append, length_encodeBytes]
      dsimp only
      omega
  | @branch stack value hstack hvalue =>
      have hslots := length_flatMap_slots_le (List.finRange 16) stack
      have hlast := length_valueBytes_le hvalue
      rw [List.length_finRange] at hslots
      refine ⟨(List.finRange 16).flatMap (fun i => slotBytes (stack i)) ++ valueBytes value,
        rfl, ?_⟩
      rw [List.length_append]
      omega

theorem encodeList_ne_emptyString {payload : Bytes} (hlt : payload.length < 2 ^ 64) :
    encodeList payload ≠ [emptyStringCode] := by
  intro heq
  have hdecode := decode_encodeList hlt
  have hempty := decode_encodeBytes [] (by simp) []
  have hcode : encodeBytes [] ++ [] = [emptyStringCode] := rfl
  rw [heq, ← hcode, hempty] at hdecode
  cases hdecode

theorem Reference.isItem {child : RlpNode} (h : Reference child) : IsItem child.bytes := by
  cases h with
  | hash word => exact isItem_wordRlp word
  | @inline node child hnode hchild hshort =>
      obtain ⟨payload, hwrite, hlt⟩ := hnode.list
      rw [hchild, node.write_eq_encode, hwrite]
      exact isItem_list hlt

/-- No child is taken for an empty slot. -/
theorem Reference.reread {child : RlpNode} (h : Reference child) : child.reread = child := by
  refine if_neg fun hempty => ?_
  cases h with
  | hash word =>
      have hlength := congrArg List.length hempty
      simp [RlpNode.wordRlp, word.length_eq] at hlength
  | @inline node child hnode hchild hshort =>
      obtain ⟨payload, hwrite, hlt⟩ := hnode.list
      rw [hchild, node.write_eq_encode, hwrite] at hempty
      exact encodeList_ne_emptyString hlt hempty

theorem WellFormed.decode_encode {node : MyTrieNode} (h : WellFormed node) :
    MyTrieNode.decode node.encode = .ok node := by
  cases h with
  | leaf hkey hvalue => exact decode_encode_leaf hkey hvalue
  | extension hne hkey hchild => exact decode_encode_extension hkey hchild.isItem
  | @branch stack value hstack hvalue =>
      have hitems : ∀ i, stack i = default ∨ IsItem (stack i).bytes := fun i =>
        (em (stack i = default)).imp_right fun hne => (hstack i hne).isItem
      have hreread : (fun i => (stack i).reread) = stack := by
        funext i
        by_cases hempty : stack i = default
        · rw [hempty]
          rfl
        · exact (hstack i hempty).reread
      have hdecode := decode_encode_branch_value hitems hvalue
      rw [hreread] at hdecode
      exact hdecode

theorem WellFormed.decodeFrom_write {node : MyTrieNode} (h : WellFormed node) (rest : Bytes) :
    MyTrieNode.decodeFrom (node.write ++ rest) = .ok (node, rest) := by
  obtain ⟨payload, hencode, hlt⟩ := h.list
  have hdecode := h.decode_encode
  rw [hencode] at hdecode
  rw [node.write_eq_encode, hencode, decodeFrom_encodeList hlt, hdecode]
  rfl

/-- Well-formed nodes are read back from their bytes, which announce their own length and are
those of no other node. -/
theorem wellFormed_roundTrip {node : MyTrieNode} (h : WellFormed node) :
    (∀ rest, MyTrieNode.decodeFrom (node.write ++ rest) = .ok (node, rest)) ∧
      node.length = node.write.length ∧
      ∀ other, WellFormed other → other.write = node.write → other = node := by
  refine ⟨h.decodeFrom_write, node.length_write.symm, fun other hother hsame => ?_⟩
  have hfirst := hother.decodeFrom_write []
  rw [hsame, h.decodeFrom_write []] at hfirst
  cases hfirst
  rfl

/-- A branch with a hash, a leaf in place and a value. -/
def mixedBranch : MyTrieNode :=
  .branch
    { stack := fun i =>
        if i = lowNibble 0 then RlpNode.wordRlp B256.zero
        else if i = lowNibble 1 then ⟨MyLeafNode.write ⟨unpackBytes [0x12], [0x80]⟩, by decide⟩
        else default
      value := some [0x01] }

theorem wellFormed_roundTrip_mixedBranch :
    MyTrieNode.decodeFrom (mixedBranch.write ++ [0xC0]) = .ok (mixedBranch, [0xC0]) := by
  refine (wellFormed_roundTrip (.branch (fun i hne => ?_) fun bytes hbytes => ?_)).1 [0xC0]
  · by_cases hzero : i = lowNibble 0
    · rw [if_pos hzero]
      exact .hash _
    · by_cases hone : i = lowNibble 1
      · rw [if_neg hzero, if_pos hone]
        have hleaf : WellFormed (.leaf ⟨unpackBytes [0x12], [0x80]⟩) := .leaf (by decide) (by decide)
        exact .inline hleaf rfl (by decide)
      · rw [if_neg hzero, if_neg hone] at hne
        exact absurd rfl hne
  · cases hbytes
    decide

end WasixEth.Storage
