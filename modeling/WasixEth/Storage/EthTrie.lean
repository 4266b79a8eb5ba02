import WasixEth.Lib.Routine
import WasixEth.Lib.Table
import WasixEth.Storage.TrieNode

/-! # The Merkle-Patricia trie

`EthTrie` descends from a root hash through nodes found in a cache of decoded
nodes, in the encodings not yet committed, or in the store. Every write
encodes the changed node and hashes it again. The events of an operation are
the strings it hashes.

A descent consumes at least one nibble per level, which bounds the recursion;
a path longer than the fuel cannot arise from nodes with nonempty extension
keys.
-/

namespace WasixEth.Storage

open Routine RlpNode

variable [Keccak256]

structure EthTrie where
  state : Table B256 Bytes
  rootHash : B256
  cache : Table B256 MyTrieNode
  dirty : Table B256 Bytes

def EthTrie.new (state : Table B256 Bytes) (rootHash : B256) : EthTrie :=
  ⟨state, rootHash, ∅, ∅⟩

/-- A trie operation, logging the strings it hashes. -/
abbrev TrieM := Routine EthTrie Bytes TrieError

namespace EthTrie

/-! ## Nodes in the cache and the store -/

def storeNode (node : MyTrieNode) : TrieM B256 := do
  let buf := node.encode
  emit buf
  let hash := keccak256 buf
  modify fun t =>
    { t with dirty := t.dirty.insert hash buf, cache := t.cache.insert hash node }
  return hash

def storeNodeToRlp (node : MyTrieNode) : TrieM RlpNode :=
  if 32 ≤ node.encode.length then do
    let hash ← storeNode node
    return wordRlp hash
  else
    return fromRlp node.encode

/-- The encoding behind a hash: not yet committed, or from the store. -/
def nodeData (t : EthTrie) (hash : B256) : Except TrieError Bytes :=
  match t.dirty.get hash with
  | some data => .ok data
  | none =>
      match t.state.get hash with
      | some data => .ok data
      | none => .error (.nodeNotFound hash)

def getNode (hash : B256) : TrieM MyTrieNode :=
  if hash = emptyRootHash then
    return .emptyRoot
  else do
    let t ← read
    match t.cache.get hash with
    | some node => return node
    | none =>
        let data ← liftExcept (t.nodeData hash)
        let node ← liftExcept (MyTrieNode.decode data)
        modify fun t => { t with cache := t.cache.insert hash node }
        return node

/-- The node inlined in a reference. -/
def inlinedNode (rlpNode : RlpNode) : TrieM MyTrieNode :=
  if rlpNode.isEmpty then return .emptyRoot
  else liftExcept (MyTrieNode.decode rlpNode.bytes)

def getNodeFromRlp (rlpNode : RlpNode) : TrieM MyTrieNode :=
  match rlpNode.asHash with
  | some hash => getNode hash
  | none => inlinedNode rlpNode

/-! ## Lookup -/

def getRecursiveRlp (getRecursiveNode : MyTrieNode → Nibbles → TrieM (Option Bytes))
    (rlpNode : RlpNode) (nibbles : Nibbles) : TrieM (Option Bytes) :=
  match rlpNode.asHash with
  | some hash =>
      if hash = emptyRootHash then return none
      else do
        let node ← getNode hash
        getRecursiveNode node nibbles
  | none =>
      if rlpNode.isEmpty then return none
      else do
        let node ← liftExcept (MyTrieNode.decode rlpNode.bytes)
        getRecursiveNode node nibbles

def getRecursiveNode : Nat → MyTrieNode → Nibbles → TrieM (Option Bytes)
  | 0, _, _ => fail .outOfFuel
  | fuel + 1, node, nibbles =>
      match node with
      | .emptyRoot => return none
      | .leaf leaf => return if leaf.key = nibbles then some leaf.value else none
      | .extension ext =>
          if ext.key <+: nibbles then
            getRecursiveRlp (getRecursiveNode fuel) ext.child (nibbles.drop ext.key.length)
          else return none
      | .branch branch =>
          match nibbles with
          | [] => return branch.value
          | index :: remaining =>
              getRecursiveRlp (getRecursiveNode fuel) (branch.stack index) remaining

def getRecursive (nodeHash : B256) (nibbles : Nibbles) : TrieM (Option Bytes) :=
  if nodeHash = emptyRootHash then return none
  else do
    let node ← getNode nodeHash
    getRecursiveNode (nibbles.length + 1) node nibbles

def getNibbles (nibbles : Nibbles) : TrieM (Option Bytes) := do
  let t ← read
  getRecursive t.rootHash nibbles

def get (key : B256) : TrieM (Option Bytes) := getNibbles (unpack key)

/-! ## Insertion -/

def commonPrefixLength : Nibbles → Nibbles → Nat
  | a :: as, b :: bs => if a = b then commonPrefixLength as bs + 1 else 0
  | _, _ => 0

/-- `nibbles.get(index).expect(..)`. -/
def nibbleAt (nibbles : Nibbles) (index : Nat) : TrieM Nibble :=
  match nibbles[index]? with
  | some nibble => return nibble
  | none => fail .panic

/-- A freshly split branch, behind an extension when the paths share a part. -/
def wrapBranch (key : Nibbles) (branch : MyBranchNode) : TrieM MyTrieNode :=
  if 0 < key.length then do
    let child ← storeNodeToRlp (.branch branch)
    return .extension ⟨key, child⟩
  else return .branch branch

/-- Store a leaf below a branch, in the slot and with the rest of the path
that start at position `common` of its key. -/
def placeLeaf (branch : MyBranchNode) (key : Nibbles) (common : Nat) (value : Bytes) :
    TrieM MyBranchNode := do
  let index ← nibbleAt key common
  let child ← storeNodeToRlp (.leaf ⟨key.drop (common + 1), value⟩)
  return branch.set index child

/-- Hang the child of an extension below a branch, behind a shorter extension
when more than one nibble of its key is left. -/
def placeExtension (branch : MyBranchNode) (ext : MyExtensionNode) (common : Nat) :
    TrieM MyBranchNode := do
  let index ← nibbleAt ext.key common
  let remaining := ext.key.drop (common + 1)
  if remaining.isEmpty then return branch.set index ext.child
  else
    let child ← storeNodeToRlp (.extension ⟨remaining, ext.child⟩)
    return branch.set index child

/-- The branch between a leaf and a new value whose paths part at `common`,
with the value itself at the branch when its path ends there. -/
def branchAtLeaf (leaf : MyLeafNode) (nibbles : Nibbles) (common : Nat) (value : Bytes) :
    TrieM MyBranchNode :=
  if common = leaf.key.length then
    placeLeaf { (default : MyBranchNode) with value := some leaf.value } nibbles common value
  else if common = nibbles.length then
    placeLeaf { (default : MyBranchNode) with value := some value } leaf.key common leaf.value
  else do
    let branch ← placeLeaf default leaf.key common leaf.value
    placeLeaf branch nibbles common value

def splitLeaf (leaf : MyLeafNode) (nibbles : Nibbles) (value : Bytes) : TrieM MyTrieNode := do
  let common := commonPrefixLength nibbles leaf.key
  let branch ← branchAtLeaf leaf nibbles common value
  wrapBranch (nibbles.take common) branch

/-- The branch where a new value parts from the key of an extension. -/
def branchAtExtension (ext : MyExtensionNode) (nibbles : Nibbles) (common : Nat)
    (value : Bytes) : TrieM MyBranchNode :=
  if common = nibbles.length then
    placeExtension { (default : MyBranchNode) with value := some value } ext common
  else do
    let branch ← placeExtension default ext common
    placeLeaf branch nibbles common value

def splitExtension (ext : MyExtensionNode) (nibbles : Nibbles) (value : Bytes) :
    TrieM MyTrieNode := do
  let common := commonPrefixLength nibbles ext.key
  let branch ← branchAtExtension ext nibbles common value
  wrapBranch (ext.key.take common) branch

/-- The node that replaces `node` once `value` is stored at `nibbles`. -/
def insertNode (insertRecursiveRlp : RlpNode → Nibbles → Bytes → TrieM RlpNode)
    (node : MyTrieNode) (nibbles : Nibbles) (value : Bytes) : TrieM MyTrieNode :=
  match node with
  | .emptyRoot => return .leaf ⟨nibbles, value⟩
  | .leaf leaf =>
      let common := commonPrefixLength nibbles leaf.key
      if common = nibbles.length ∧ common = leaf.key.length then
        return .leaf { leaf with value := value }
      else splitLeaf leaf nibbles value
  | .extension ext =>
      let common := commonPrefixLength nibbles ext.key
      if common = ext.key.length then do
        let child ← insertRecursiveRlp ext.child (nibbles.drop common) value
        return .extension { ext with child := child }
      else splitExtension ext nibbles value
  | .branch branch =>
      match nibbles with
      | [] => return .branch { branch with value := some value }
      | index :: remaining => do
          let child ← insertRecursiveRlp (branch.stack index) remaining value
          return .branch (branch.set index child)

/-- A child held by hash stays held by hash. An inlined child is stored as a
node of its own first, and the node that replaces it is inlined again if it is
still short. -/
def insertRecursiveRlp (insertRecursive : B256 → Nibbles → Bytes → TrieM B256)
    (rlpNode : RlpNode) (nibbles : Nibbles) (value : Bytes) : TrieM RlpNode :=
  match rlpNode.asHash with
  | some hash => do
      let newHash ← insertRecursive hash nibbles value
      return wordRlp newHash
  | none => do
      let node ← inlinedNode rlpNode
      let dummyHash ← storeNode node
      let newHash ← insertRecursive dummyHash nibbles value
      let newNode ← getNode newHash
      storeNodeToRlp newNode

def insertRecursive : Nat → B256 → Nibbles → Bytes → TrieM B256
  | 0, _, _, _ => fail .outOfFuel
  | fuel + 1, nodeHash, nibbles, value =>
      if nodeHash = emptyRootHash then storeNode (.leaf ⟨nibbles, value⟩)
      else do
        let node ← getNode nodeHash
        let newNode ← insertNode (insertRecursiveRlp (insertRecursive fuel)) node nibbles value
        storeNode newNode

def insertNibbles (nibbles : Nibbles) (value : Bytes) : TrieM Unit := do
  let t ← read
  let root ← insertRecursive (nibbles.length + 1) t.rootHash nibbles value
  modify fun t => { t with rootHash := root }

def insert (key : B256) (value : Bytes) : TrieM Unit := insertNibbles (unpack key) value

/-! ## Deletion -/

/-- Join an extension to its child when the child is an extension as well. -/
def collapseExtension (ext : MyExtensionNode) : TrieM MyTrieNode := do
  let childNode ← getNodeFromRlp ext.child
  match childNode with
  | .extension childExt => do
      let newKey ← liftExcept (extend ext.key childExt.key)
      return .extension ⟨newKey, childExt.child⟩
  | _ => return .extension ext

/-- Join a branch to its only child. -/
def collapseChild (branch : MyBranchNode) (index : Nibble) : TrieM MyTrieNode := do
  let childRlp := branch.stack index
  let childNode ← getNodeFromRlp childRlp
  match childNode with
  | .leaf leaf => do
      let newKey ← liftExcept (extend [index] leaf.key)
      return .leaf { leaf with key := newKey }
  | .extension ext => do
      let newKey ← liftExcept (extend [index] ext.key)
      return .extension { ext with key := newKey }
  | .branch _ => return .extension ⟨[index], childRlp⟩
  | .emptyRoot => return .branch branch

/-- The slots that are not the empty reference. A slot holding the RLP of the
empty string counts. -/
def occupied (branch : MyBranchNode) : List Nibble :=
  (List.finRange 16).filter fun i => !(branch.stack i).isEmpty

def collapseBranch (branch : MyBranchNode) : TrieM MyTrieNode :=
  match occupied branch, branch.value with
  | [], none => return .emptyRoot
  | [index], none => collapseChild branch index
  | _, _ => return .branch branch

def deleteRecursive (deleteRecursiveNode : MyTrieNode → Nibbles → TrieM MyTrieNode)
    (nodeHash : B256) (nibbles : Nibbles) : TrieM B256 :=
  if nodeHash = emptyRootHash then return emptyRootHash
  else do
    let node ← getNode nodeHash
    let newNode ← deleteRecursiveNode node nibbles
    if newNode = .emptyRoot then return emptyRootHash else storeNode newNode

/-- An inlined child that vanishes leaves the RLP of the empty string behind. -/
def deleteRecursiveRlp (deleteRecursiveNode : MyTrieNode → Nibbles → TrieM MyTrieNode)
    (rlpNode : RlpNode) (nibbles : Nibbles) : TrieM RlpNode :=
  match rlpNode.asHash with
  | some hash => do
      let newHash ← deleteRecursive deleteRecursiveNode hash nibbles
      if newHash = emptyRootHash then return default else return wordRlp newHash
  | none =>
      if rlpNode.isEmpty then return default
      else do
        let node ← liftExcept (MyTrieNode.decode rlpNode.bytes)
        let newNode ← deleteRecursiveNode node nibbles
        storeNodeToRlp newNode

def deleteRecursiveNode : Nat → MyTrieNode → Nibbles → TrieM MyTrieNode
  | 0, _, _ => fail .outOfFuel
  | fuel + 1, node, nibbles =>
      match node with
      | .emptyRoot => return .emptyRoot
      | .leaf leaf => return if leaf.key = nibbles then .emptyRoot else .leaf leaf
      | .extension ext =>
          if ext.key <+: nibbles then do
            let child ← deleteRecursiveRlp (deleteRecursiveNode fuel) ext.child
              (nibbles.drop ext.key.length)
            if child.isEmpty then return .emptyRoot
            else collapseExtension { ext with child := child }
          else return .extension ext
      | .branch branch =>
          match nibbles with
          | [] => collapseBranch { branch with value := none }
          | index :: remaining => do
              let child ← deleteRecursiveRlp (deleteRecursiveNode fuel) (branch.stack index)
                remaining
              collapseBranch (branch.set index child)

def deleteNibbles (nibbles : Nibbles) : TrieM Unit := do
  let t ← read
  let root ← deleteRecursive (deleteRecursiveNode (nibbles.length + 1)) t.rootHash nibbles
  modify fun t => { t with rootHash := root }

def delete (key : B256) : TrieM Unit := deleteNibbles (unpack key)

/-! ## Commit -/

/-- Move the uncommitted encodings to the store. -/
def commit (t : EthTrie) : EthTrie :=
  { t with state := t.state.overlay t.dirty, dirty := ∅ }

end EthTrie

/-- Insert entries one after the other. -/
def insertAll : List (B256 × Bytes) → TrieM Unit
  | [] => return ()
  | (key, value) :: rest => do
      EthTrie.insert key value
      insertAll rest

/-- The root of a trie built in memory from its leaves. -/
def calculateTrieRoot (leaves : List (B256 × Bytes)) : Except TrieError B256 :=
  let outcome := insertAll leaves (EthTrie.new ∅ emptyRootHash)
  outcome.result.map fun _ => outcome.state.rootHash

end WasixEth.Storage
