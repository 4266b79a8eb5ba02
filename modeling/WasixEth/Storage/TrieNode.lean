import WasixEth.Primitives

/-! # Trie nodes

The node types of the state trie, their RLP encoding and the decoder that
reads them back from the store. A child is kept in its parent as an `RlpNode`:
the RLP of a small child itself, or the hash of a large one.
-/

namespace WasixEth.Storage

open Rlp

/-- How a trie operation stops early. `panic` stands for a failed assertion of
the path type, `outOfFuel` for a descent deeper than its path allows. -/
inductive TrieError where
  | emptyBuffer
  | header (e : Rlp.Error)
  | expectedList (length : Nat)
  | itemHeader (e : Rlp.Error)
  | itemTooLong (length remaining : Nat)
  | keyHeader (e : Rlp.Error)
  | keyIsList
  | invalidHexPrefix
  | leafValue (e : Rlp.Error)
  | extensionChild
  | branchValue (e : Rlp.Error)
  | branchChild
  | invalidItemCount (count : Nat)
  | nodeNotFound (hash : B256)
  | nibblesEmpty
  | childNotFound
  | panic
  | outOfFuel
  deriving DecidableEq

instance : ToString TrieError where
  toString
    | .emptyBuffer => "Empty RLP buffer"
    | .header e => s!"RLP header decode error: {e}"
    | .expectedList length => s!"Expected RLP list for trie node, got string with length {length}"
    | .itemHeader e => s!"RLP item header decode error: {e}"
    | .itemTooLong length remaining =>
        s!"RLP item length {length} exceeds remaining payload {remaining}"
    | .keyHeader e => s!"Key header decode error: {e}"
    | .keyIsList => "Key must be a string"
    | .invalidHexPrefix => "Invalid hex-prefix encoding"
    | .leafValue e => s!"Leaf value decode error: {e}"
    | .extensionChild => s!"Extension child decode error: {Rlp.Error.unexpectedLength}"
    | .branchValue e => s!"Branch value decode error: {e}"
    | .branchChild => s!"Branch child decode error: {Rlp.Error.unexpectedLength}"
    | .invalidItemCount count => s!"Invalid number of items in trie node RLP list: {count}"
    | .nodeNotFound hash => s!"Trie node not found: {hash}"
    | .nibblesEmpty => "Nibbles empty"
    | .childNotFound => "Child not found"
    | .panic => "capacity overflow"
    | .outOfFuel => "stack overflow"

/-! ## Paths -/

def nibbleByte (n : Nibble) : UInt8 := UInt8.ofNat n.val

def packPairs : Nibbles → Bytes
  | high :: low :: rest => packNibbles high low :: packPairs rest
  | _ => []

def pathFlag (isLeaf : Bool) : UInt8 := if isLeaf then 0x20 else 0x00

/-- Hex-prefix encoding: a flag nibble for leaf and parity, then the path. -/
def encodePath (nibbles : Nibbles) (isLeaf : Bool) : Bytes :=
  if nibbles.length % 2 ≠ 0 then
    match nibbles with
    | first :: rest => (pathFlag isLeaf ||| 0x10 ||| nibbleByte first) :: packPairs rest
    | [] => [pathFlag isLeaf]
  else pathFlag isLeaf :: packPairs nibbles

/-- A path from its nibbles; the path type refuses more than its capacity. -/
def fromNibbles (nibbles : List Nibble) : Except TrieError Nibbles :=
  if nibbles.length ≤ Nibbles.capacity then .ok nibbles else .error .panic

def decodePath (data : Bytes) : Except TrieError (Nibbles × Bool) :=
  match data with
  | [] => .error .invalidHexPrefix
  | first :: rest =>
      let isLeaf := decide (first &&& 0x20 ≠ 0)
      let isOdd := decide (first &&& 0x10 ≠ 0)
      let nibbles := (if isOdd then [lowNibble first] else []) ++ unpackBytes rest
      (fromNibbles nibbles).map (·, isLeaf)

/-- Append a path to another. -/
def extend (nibbles other : Nibbles) : Except TrieError Nibbles :=
  fromNibbles (nibbles ++ other)

/-! ## Child references -/

/-- At most 33 bytes: a child's RLP, or a hash behind its string header. -/
structure RlpNode where
  bytes : Bytes
  length_le : bytes.length ≤ 33
  deriving DecidableEq

namespace RlpNode

instance : Inhabited RlpNode := ⟨⟨[], by simp⟩⟩

@[ext] theorem ext {a b : RlpNode} (h : a.bytes = b.bytes) : a = b := by
  cases a
  cases b
  simpa using h

def isEmpty (node : RlpNode) : Bool := node.bytes.isEmpty

def fromRawRlp (data : Bytes) : Option RlpNode :=
  if h : data.length ≤ 33 then some ⟨data, h⟩ else none

/-- A hash as a child reference. -/
def wordRlp (word : B256) : RlpNode :=
  ⟨0xA0 :: word.bytes, by simp [word.length_eq]⟩

/-- The reference to a child with this RLP: the RLP itself when it is shorter
than a hash. -/
def fromRlp [Keccak256] (rlp : Bytes) : RlpNode :=
  if h : rlp.length < 32 then ⟨rlp, by omega⟩ else wordRlp (keccak256 rlp)

def asHash (node : RlpNode) : Option B256 :=
  if h : node.bytes.length = 33 then some ⟨node.bytes.drop 1, by simp [h]⟩ else none

end RlpNode

/-! ## Nodes -/

/-- `EMPTY_STRING_CODE`, the RLP of the empty string. -/
def emptyStringCode : UInt8 := 0x80

/-- The root of the trie without entries. -/
def emptyRootHash [Keccak256] : B256 := keccak256 [emptyStringCode]

structure MyLeafNode where
  key : Nibbles
  value : Bytes
  deriving DecidableEq

structure MyExtensionNode where
  key : Nibbles
  child : RlpNode
  deriving DecidableEq

structure MyBranchNode where
  stack : Nibble → RlpNode
  value : Option Bytes
  deriving DecidableEq

instance : Inhabited MyBranchNode := ⟨⟨fun _ => default, none⟩⟩

/-- Replace one slot of the stack. -/
def MyBranchNode.set (branch : MyBranchNode) (index : Nibble) (child : RlpNode) : MyBranchNode :=
  { branch with stack := Function.update branch.stack index child }

inductive MyTrieNode where
  | emptyRoot
  | leaf (node : MyLeafNode)
  | extension (node : MyExtensionNode)
  | branch (node : MyBranchNode)
  deriving DecidableEq

def MyLeafNode.encode (leaf : MyLeafNode) : Bytes :=
  encodeList (encodeBytes (encodePath leaf.key true) ++ encodeBytes leaf.value)

def MyExtensionNode.encode (ext : MyExtensionNode) : Bytes :=
  encodeList (encodeBytes (encodePath ext.key false) ++ ext.child.bytes)

/-- A slot as it stands in the branch: an empty slot is the empty string. -/
def slotBytes (child : RlpNode) : Bytes :=
  if child.isEmpty then [emptyStringCode] else child.bytes

def MyBranchNode.encode (branch : MyBranchNode) : Bytes :=
  encodeList ((List.finRange 16).flatMap (fun i => slotBytes (branch.stack i)) ++
    match branch.value with
    | some value => encodeBytes value
    | none => [emptyStringCode])

def MyTrieNode.encode : MyTrieNode → Bytes
  | .emptyRoot => [emptyStringCode]
  | .leaf node => node.encode
  | .extension node => node.encode
  | .branch node => node.encode

/-- Cut a payload into its items. Every round consumes at least the header of
one item, so the payload's length bounds the number of rounds. -/
def splitItems : Nat → Bytes → Except TrieError (List Bytes)
  | _, [] => .ok []
  | 0, _ :: _ => .error .outOfFuel
  | fuel + 1, payload =>
      match Header.decode payload with
      | .error e => .error (.itemHeader e)
      | .ok (h, after) =>
          let itemLength := payload.length - after.length + h.payloadLength
          if payload.length < itemLength then .error (.itemTooLong itemLength payload.length)
          else (splitItems fuel (payload.drop itemLength)).map (payload.take itemLength :: ·)

def decodeBranchValue (item : Bytes) : Except TrieError (Option Bytes) :=
  if item = [emptyStringCode] then .ok none
  else
    match decodeBytes item with
    | .error e => .error (.branchValue e)
    | .ok (value, _) => .ok (some value)

def decodeSlot (item : Bytes) : Except TrieError RlpNode :=
  if item = [emptyStringCode] then .ok default
  else
    match RlpNode.fromRawRlp item with
    | none => .error .branchChild
    | some child => .ok child

/-- The sixteen slots of a branch, read in order. -/
def decodeStack (items : List Bytes) : Except TrieError (List RlpNode) :=
  items.mapM decodeSlot

/-- A two-item list is a leaf or an extension, told apart by its path. -/
def decodePair (item0 item1 : Bytes) : Except TrieError MyTrieNode :=
  match Header.decode item0 with
  | .error e => .error (.keyHeader e)
  | .ok (h, path) =>
      if h.list then .error .keyIsList
      else
        match decodePath path with
        | .error e => .error e
        | .ok (nibbles, true) =>
            match decodeBytes item1 with
            | .error e => .error (.leafValue e)
            | .ok (value, _) => .ok (.leaf ⟨nibbles, value⟩)
        | .ok (nibbles, false) =>
            match RlpNode.fromRawRlp item1 with
            | none => .error .extensionChild
            | some child => .ok (.extension ⟨nibbles, child⟩)

def decodeBranch (items : List Bytes) : Except TrieError MyTrieNode := do
  let stack ← decodeStack (items.take 16)
  let value ← decodeBranchValue (items.getD 16 [])
  return .branch ⟨fun i => stack.getD i.val default, value⟩

/-- A node from the items of its list. -/
def decodeItems (items : List Bytes) : Except TrieError MyTrieNode :=
  match items with
  | [item0, item1] => decodePair item0 item1
  | items =>
      if items.length = 17 then decodeBranch items
      else .error (.invalidItemCount items.length)

/-- Read one node from the front of a buffer. -/
def MyTrieNode.decode (buf : Bytes) : Except TrieError MyTrieNode :=
  if buf.isEmpty then .error .emptyBuffer
  else
    match Header.decode buf with
    | .error e => .error (.header e)
    | .ok (h, after) =>
        if !h.list then
          if h.payloadLength = 0 then .ok .emptyRoot else .error (.expectedList h.payloadLength)
        else
          let payload := after.take h.payloadLength
          match splitItems payload.length payload with
          | .error e => .error e
          | .ok items => decodeItems items

end WasixEth.Storage
