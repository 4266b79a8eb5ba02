import WasixEth.Storage.TrieNode

/-! # Reading nodes back

Decoding the encoding of a node recovers the node, except that a branch slot
holding the RLP of the empty string is read back as an empty slot. `reread` is
the node a decoder sees, so two nodes with the same encoding differ at most in
such slots.
-/

namespace WasixEth.Storage

open Rlp

/-! ## Paths -/

theorem unpackBytes_packPairs (nibbles : Nibbles) (heven : nibbles.length % 2 = 0) :
    unpackBytes (packPairs nibbles) = nibbles := by
  match nibbles with
  | [] => rfl
  | [a] => simp at heven
  | high :: low :: rest =>
      have hrest : rest.length % 2 = 0 := by
        simp only [List.length_cons] at heven
        omega
      simp [packPairs, unpackBytes, unpackBytes_packPairs rest hrest]

theorem length_packPairs (nibbles : Nibbles) : (packPairs nibbles).length = nibbles.length / 2 := by
  match nibbles with
  | [] => rfl
  | [a] => simp [packPairs]
  | high :: low :: rest =>
      simp only [packPairs, List.length_cons, length_packPairs rest]
      omega

theorem length_encodePath (nibbles : Nibbles) (isLeaf : Bool) :
    (encodePath nibbles isLeaf).length = nibbles.length / 2 + 1 := by
  unfold encodePath
  split
  next hodd =>
    cases nibbles with
    | nil => simp at hodd
    | cons first rest =>
        simp only [List.length_cons, length_packPairs] at hodd ⊢
        omega
  next => simp [length_packPairs]

theorem flag_isLeaf (isLeaf : Bool) (first : Nibble) :
    decide ((pathFlag isLeaf ||| 0x10 ||| nibbleByte first) &&& 0x20 ≠ 0) = isLeaf := by
  revert isLeaf first
  decide

theorem flag_isOdd (isLeaf : Bool) (first : Nibble) :
    decide ((pathFlag isLeaf ||| 0x10 ||| nibbleByte first) &&& 0x10 ≠ 0) = true := by
  revert isLeaf first
  decide

theorem flag_lowNibble (isLeaf : Bool) (first : Nibble) :
    lowNibble (pathFlag isLeaf ||| 0x10 ||| nibbleByte first) = first := by
  revert isLeaf first
  decide

theorem pathFlag_isLeaf (isLeaf : Bool) : decide (pathFlag isLeaf &&& 0x20 ≠ 0) = isLeaf := by
  revert isLeaf
  decide

theorem pathFlag_isOdd (isLeaf : Bool) : decide (pathFlag isLeaf &&& 0x10 ≠ 0) = false := by
  revert isLeaf
  decide

theorem fromNibbles_of_le {nibbles : Nibbles} (h : nibbles.length ≤ 64) :
    fromNibbles nibbles = .ok nibbles := by
  simp [fromNibbles, Nibbles.capacity, h]

theorem extend_of_le {nibbles other : Nibbles} (h : nibbles.length + other.length ≤ 64) :
    extend nibbles other = .ok (nibbles ++ other) :=
  fromNibbles_of_le (by simpa using h)

/-- A path and its leaf flag survive hex-prefix encoding. -/
theorem decodePath_encodePath {nibbles : Nibbles} (hle : nibbles.length ≤ 64) (isLeaf : Bool) :
    decodePath (encodePath nibbles isLeaf) = .ok (nibbles, isLeaf) := by
  unfold encodePath
  split
  next hodd =>
    cases nibbles with
    | nil => simp at hodd
    | cons first rest =>
        have heven : rest.length % 2 = 0 := by
          simp only [List.length_cons] at hodd
          omega
        simp only [decodePath, flag_isLeaf, flag_isOdd, flag_lowNibble, if_true,
          unpackBytes_packPairs rest heven, List.singleton_append]
        rw [fromNibbles_of_le hle]
        rfl
  next heven =>
    simp only [decodePath, pathFlag_isLeaf, pathFlag_isOdd, Bool.false_eq_true, if_false,
      unpackBytes_packPairs nibbles (by omega), List.nil_append]
    rw [fromNibbles_of_le hle]
    rfl

/-! ## Items of a payload -/

theorem splitItems_flatten (items : List Bytes) (hitems : ∀ item ∈ items, IsItem item) (fuel : Nat)
    (hfuel : items.flatten.length ≤ fuel) : splitItems fuel items.flatten = .ok items := by
  induction items generalizing fuel with
  | nil => cases fuel <;> rfl
  | cons item items ih =>
      obtain ⟨hne, hitem⟩ := hitems item (by simp)
      obtain ⟨h, after, hdecode, hlength, hle⟩ := hitem items.flatten
      obtain ⟨b, rest, rfl⟩ := List.exists_cons_of_ne_nil hne
      obtain ⟨fuel, rfl⟩ : ∃ n, fuel = n + 1 := ⟨fuel - 1, by simp at hfuel; omega⟩
      have htail : items.flatten.length ≤ fuel := by
        simp only [List.flatten_cons, List.length_append, List.length_cons] at hfuel
        omega
      rw [List.flatten_cons] at hfuel ⊢
      simp only [List.cons_append] at hdecode ⊢
      simp only [splitItems, hdecode]
      have hextent : (b :: (rest ++ items.flatten)).length - (after ++ items.flatten).length +
          h.payloadLength = (b :: rest).length := by
        simp only [List.length_cons, List.length_append] at hle ⊢
        omega
      rw [hextent, if_neg (by simp), ← List.cons_append, List.drop_left, List.take_left,
        ih (fun item' hmem => hitems item' (by simp [hmem])) fuel htail]
      rfl

theorem isItem_emptyString : IsItem [emptyStringCode] := by
  have := isItem_encodeBytes [] (by simp)
  exact this

theorem isItem_wordRlp (word : B256) : IsItem (RlpNode.wordRlp word).bytes := by
  have hitem := isItem_encodeBytes word.bytes (by simp [word.length_eq])
  rw [encodeBytes_of_length_ne_one (by simp [word.length_eq]), word.length_eq] at hitem
  exact hitem

theorem decode_encodeList {payload : Bytes} (hlt : payload.length < 2 ^ 64) :
    Header.decode (encodeList payload) = .ok (⟨true, payload.length⟩, payload) := by
  have hann : Header.Announces ⟨true, payload.length⟩ payload := ⟨rfl, hlt, by simp⟩
  simpa [encodeList] using Rlp.decode_encode hann []

theorem encodeList_ne_nil (payload : Bytes) : encodeList payload ≠ [] := by
  intro hnil
  have hlength := congrArg List.length hnil
  simp only [encodeList, List.length_append, length_encode, List.length_nil] at hlength
  have := lengthOfLength_pos payload.length
  omega

/-- A node is decoded from the items its list is made of. -/
theorem decode_of_items {items : List Bytes} (hitems : ∀ item ∈ items, IsItem item)
    (hlt : items.flatten.length < 2 ^ 64) :
    MyTrieNode.decode (encodeList items.flatten) = decodeItems items := by
  unfold MyTrieNode.decode
  rw [if_neg (by simpa using encodeList_ne_nil _), decode_encodeList hlt]
  simp only [Bool.not_true, Bool.false_eq_true, if_false, List.take_length,
    splitItems_flatten items hitems _ le_rfl]

theorem decodeItems_of_length {items : List Bytes} (h : items.length = 17) :
    decodeItems items = decodeBranch items := by
  unfold decodeItems
  split
  next => simp at h
  next => rw [if_pos h]

/-! ## Nodes -/

/-- The slot a decoder reads back. -/
def RlpNode.reread (child : RlpNode) : RlpNode :=
  if child.bytes = [emptyStringCode] then default else child

/-- The node a decoder reads back. -/
def MyTrieNode.reread : MyTrieNode → MyTrieNode
  | .branch node => .branch { node with stack := fun i => (node.stack i).reread }
  | node => node

/-- Nodes that fit their format: paths within capacity, child references that
are single RLP items, no value at a branch. -/
def MyTrieNode.Valid : MyTrieNode → Prop
  | .emptyRoot => True
  | .leaf node => node.key.length ≤ 64 ∧ node.value.length < 2 ^ 63
  | .extension node => node.key.length ≤ 64 ∧ IsItem node.child.bytes
  | .branch node => (∀ i, node.stack i = default ∨ IsItem (node.stack i).bytes) ∧ node.value = none

theorem decodePair_encodePath {nibbles : Nibbles} (hle : nibbles.length ≤ 64) (isLeaf : Bool)
    (item : Bytes) :
    decodePair (encodeBytes (encodePath nibbles isLeaf)) item =
      if isLeaf then
        match decodeBytes item with
        | .error e => .error (.leafValue e)
        | .ok (value, _) => .ok (.leaf ⟨nibbles, value⟩)
      else
        match RlpNode.fromRawRlp item with
        | none => .error .extensionChild
        | some child => .ok (.extension ⟨nibbles, child⟩) := by
  have hpath : (encodePath nibbles isLeaf).length < 2 ^ 64 := by
    rw [length_encodePath]
    omega
  have hdecode := decode_encodeBytes _ hpath []
  simp only [List.append_nil] at hdecode
  unfold decodePair
  rw [hdecode]
  simp only [Bool.false_eq_true, if_false, decodePath_encodePath hle]
  cases isLeaf <;> rfl

theorem decode_encode_leaf {key : Nibbles} {value : Bytes} (hkey : key.length ≤ 64)
    (hvalue : value.length < 2 ^ 63) :
    MyTrieNode.decode (MyLeafNode.encode ⟨key, value⟩) = .ok (.leaf ⟨key, value⟩) := by
  have hpath : (encodePath key true).length ≤ 33 := by
    rw [length_encodePath]
    omega
  have hitems : ∀ item ∈ [encodeBytes (encodePath key true), encodeBytes value], IsItem item := by
    intro item hitem
    simp only [List.mem_cons, List.not_mem_nil, or_false] at hitem
    obtain rfl | rfl := hitem
    · exact isItem_encodeBytes _ (by omega)
    · exact isItem_encodeBytes _ (by omega)
  have hdecode := decode_of_items hitems (by
    have h1 := bytesLength_le (encodePath key true)
    have h2 := bytesLength_le value
    simp only [List.flatten_cons, List.flatten_nil, List.append_nil, List.length_append,
      length_encodeBytes]
    omega)
  simp only [List.flatten_cons, List.flatten_nil, List.append_nil] at hdecode
  have hbytes := decodeBytes_encodeBytes value (by omega) []
  rw [List.append_nil] at hbytes
  rw [MyLeafNode.encode, hdecode, decodeItems, decodePair_encodePath hkey, hbytes]
  rfl

theorem decode_encode_extension {key : Nibbles} {child : RlpNode} (hkey : key.length ≤ 64)
    (hchild : IsItem child.bytes) :
    MyTrieNode.decode (MyExtensionNode.encode ⟨key, child⟩) = .ok (.extension ⟨key, child⟩) := by
  have hpath : (encodePath key false).length ≤ 33 := by
    rw [length_encodePath]
    omega
  have hitems : ∀ item ∈ [encodeBytes (encodePath key false), child.bytes], IsItem item := by
    intro item hitem
    simp only [List.mem_cons, List.not_mem_nil, or_false] at hitem
    obtain rfl | rfl := hitem
    · exact isItem_encodeBytes _ (by omega)
    · exact hchild
  have hdecode := decode_of_items hitems (by
    have h1 := bytesLength_le (encodePath key false)
    have h2 := child.length_le
    simp only [List.flatten_cons, List.flatten_nil, List.append_nil, List.length_append,
      length_encodeBytes]
    omega)
  simp only [List.flatten_cons, List.flatten_nil, List.append_nil] at hdecode
  rw [MyExtensionNode.encode, hdecode, decodeItems, decodePair_encodePath hkey]
  simp [RlpNode.fromRawRlp, child.length_le]

theorem isItem_slotBytes {child : RlpNode} (h : child = default ∨ IsItem child.bytes) :
    IsItem (slotBytes child) := by
  unfold slotBytes
  split
  · exact isItem_emptyString
  next hne =>
    obtain rfl | hitem := h
    · simp [RlpNode.isEmpty, default] at hne
    · exact hitem

theorem length_slotBytes_le (child : RlpNode) : (slotBytes child).length ≤ 33 := by
  unfold slotBytes
  split
  · simp
  · exact child.length_le

theorem decodeSlot_slotBytes (child : RlpNode) :
    decodeSlot (slotBytes child) = .ok child.reread := by
  unfold slotBytes
  split
  next hempty =>
    obtain rfl : child = default := RlpNode.ext (List.isEmpty_iff.mp hempty)
    rfl
  next =>
    unfold decodeSlot RlpNode.reread
    split
    · rfl
    · simp [RlpNode.fromRawRlp, child.length_le]

theorem decodeStack_map (children : List RlpNode) :
    decodeStack (children.map slotBytes) = .ok (children.map RlpNode.reread) := by
  induction children with
  | nil => rfl
  | cons child children ih =>
      unfold decodeStack at ih ⊢
      simp only [List.map_cons, List.mapM_cons, decodeSlot_slotBytes, ih]
      rfl

theorem length_flatten_slots_le (children : List RlpNode) :
    (children.map slotBytes).flatten.length ≤ 33 * children.length := by
  induction children with
  | nil => simp
  | cons child children ih =>
      have := length_slotBytes_le child
      simp only [List.map_cons, List.flatten_cons, List.length_append, List.length_cons]
      omega

/-- The last item of a branch. -/
def valueBytes (value : Option Bytes) : Bytes :=
  match value with
  | some value => encodeBytes value
  | none => [emptyStringCode]

/-- A branch holds a value that is not empty, or none. -/
def ValidValue (value : Option Bytes) : Prop :=
  ∀ bytes, value = some bytes → bytes ≠ [] ∧ bytes.length < 2 ^ 63

theorem isItem_valueBytes {value : Option Bytes} (h : ValidValue value) :
    IsItem (valueBytes value) := by
  cases value with
  | none => exact isItem_emptyString
  | some bytes => exact isItem_encodeBytes bytes (by have := (h bytes rfl).2; omega)

theorem length_valueBytes_le {value : Option Bytes} (h : ValidValue value) :
    (valueBytes value).length < 2 ^ 63 + 9 := by
  cases value with
  | none => simp [valueBytes]
  | some bytes =>
      have hlt := (h bytes rfl).2
      have hle := bytesLength_le bytes
      rw [valueBytes, length_encodeBytes]
      omega

theorem encodeBytes_ne_emptyString {bytes : Bytes} (hne : bytes ≠ [])
    (hlt : bytes.length < 2 ^ 64) : encodeBytes bytes ≠ [emptyStringCode] := by
  intro heq
  have hdecode := decodeBytes_encodeBytes bytes hlt []
  have hempty := decodeBytes_encodeBytes [] (by simp) []
  have hcode : encodeBytes [] = [emptyStringCode] := rfl
  rw [heq, ← hcode, hempty] at hdecode
  exact hne (congrArg Prod.fst (Except.ok.inj hdecode)).symm

theorem decodeBranchValue_valueBytes {value : Option Bytes} (h : ValidValue value) :
    decodeBranchValue (valueBytes value) = .ok value := by
  cases value with
  | none => rfl
  | some bytes =>
      obtain ⟨hne, hlt⟩ := h bytes rfl
      have hlt : bytes.length < 2 ^ 64 := by omega
      have hdecode := decodeBytes_encodeBytes bytes hlt []
      rw [List.append_nil] at hdecode
      rw [decodeBranchValue, valueBytes, if_neg (encodeBytes_ne_emptyString hne hlt), hdecode]

theorem decode_encode_branch_value {stack : Nibble → RlpNode} {value : Option Bytes}
    (hstack : ∀ i, stack i = default ∨ IsItem (stack i).bytes) (hvalue : ValidValue value) :
    MyTrieNode.decode (MyBranchNode.encode ⟨stack, value⟩) =
      .ok (.branch ⟨fun i => (stack i).reread, value⟩) := by
  set children := (List.finRange 16).map stack with hchildren
  have hlength : children.length = 16 := by simp [hchildren]
  have hpayload : (List.finRange 16).flatMap (fun i => slotBytes (stack i)) ++ valueBytes value =
      (children.map slotBytes ++ [valueBytes value]).flatten := by
    simp [hchildren, List.flatMap_def, Function.comp_def]
  have hitems : ∀ item ∈ children.map slotBytes ++ [valueBytes value], IsItem item := by
    intro item hitem
    simp only [hchildren, List.map_map, List.mem_append, List.mem_map, List.mem_singleton] at hitem
    obtain ⟨i, -, rfl⟩ | rfl := hitem
    · exact isItem_slotBytes (hstack i)
    · exact isItem_valueBytes hvalue
  have hshort : (children.map slotBytes ++ [valueBytes value]).flatten.length < 2 ^ 64 := by
    have hslots := length_flatten_slots_le children
    have hlast := length_valueBytes_le hvalue
    simp only [List.flatten_append, List.length_append, List.flatten_cons, List.flatten_nil,
      List.append_nil]
    omega
  have hcount : (children.map slotBytes ++ [valueBytes value]).length = 17 := by simp [hlength]
  have hbranch : decodeBranch (children.map slotBytes ++ [valueBytes value]) =
      .ok (.branch ⟨fun i => (stack i).reread, value⟩) := by
    have htake : (children.map slotBytes ++ [valueBytes value]).take 16 =
        children.map slotBytes := by
      rw [List.take_append_of_le_length (by simp [hlength])]
      exact List.take_of_length_le (by simp [hlength])
    have hlast : (children.map slotBytes ++ [valueBytes value]).getD 16 [] = valueBytes value := by
      simp [List.getD_eq_getElem?_getD, hlength]
    unfold decodeBranch
    rw [htake, hlast, decodeStack_map, decodeBranchValue_valueBytes hvalue]
    simp [hchildren, bind, Except.bind, pure, Except.pure]
  change MyTrieNode.decode (encodeList (_ ++ valueBytes value)) = _
  rw [hpayload, decode_of_items hitems hshort, decodeItems_of_length hcount, hbranch]

theorem decode_encode_branch {stack : Nibble → RlpNode}
    (hstack : ∀ i, stack i = default ∨ IsItem (stack i).bytes) :
    MyTrieNode.decode (MyBranchNode.encode ⟨stack, none⟩) =
      .ok (.branch ⟨fun i => (stack i).reread, none⟩) :=
  decode_encode_branch_value hstack nofun

theorem decode_emptyString : MyTrieNode.decode [emptyStringCode] = .ok .emptyRoot := by
  have hdecode := decode_encodeBytes [] (by simp) []
  have hcode : encodeBytes [] ++ [] = [emptyStringCode] := rfl
  rw [hcode] at hdecode
  simp [MyTrieNode.decode, hdecode]

/-- A stored node is read back up to slots holding the empty string. -/
theorem decode_encode {node : MyTrieNode} (hvalid : node.Valid) :
    MyTrieNode.decode node.encode = .ok node.reread := by
  cases node with
  | emptyRoot => exact decode_emptyString
  | leaf node => exact decode_encode_leaf hvalid.1 hvalid.2
  | extension node => exact decode_encode_extension hvalid.1 hvalid.2
  | branch node =>
      obtain ⟨stack, value⟩ := node
      obtain ⟨hstack, hvalue⟩ := hvalid
      subst hvalue
      exact decode_encode_branch hstack

end WasixEth.Storage
