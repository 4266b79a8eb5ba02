import WasixEth.Storage.Database

/-! # The state of the engine

Beside the database the engine keeps two things in memory: the current fork
choice and the tree of blocks that wait for a parent or are known to be
invalid.
-/

namespace WasixEth

open Storage

structure ForkchoiceState where
  headBlockHash : B256
  safeBlockHash : B256
  finalizedBlockHash : B256
  deriving DecidableEq, Inhabited

/-- The current fork choice and the number of its head. -/
structure CanonicalState where
  state : ForkchoiceState
  headNumber : Nat
  deriving DecidableEq, Inhabited

/-- `CanonicalState::new`: the fork choice as the database has it. -/
def CanonicalState.new (tables : ChainTables) : CanonicalState :=
  let head := tables.forkchoice.head.getD B256.zero
  { state := ⟨head, tables.forkchoice.safe.getD B256.zero,
      tables.forkchoice.finalized.getD B256.zero⟩
    headNumber := if head = B256.zero then 0 else (tables.headerNumbers.get head).getD 0 }

/-- Why a block is known to be invalid: for good, or until it is tried again. -/
inductive InvalidationReason where
  | hard
  | soft
  deriving DecidableEq

instance : ToString InvalidationReason :=
  ⟨fun | .hard => "Hard" | .soft => "Soft"⟩

/-- The child index is kept as the list of its parent and child pairs, in the
order they were added. -/
structure BlockTree where
  blocks : Table B256 Block
  children : List (B256 × B256)
  invalidBlocks : Table B256 (B256 × InvalidationReason)

namespace BlockTree

variable [BlockHashing] (tree : BlockTree)

def empty : BlockTree := ⟨∅, [], ∅⟩

def addOrphan (parentHash : B256) (block : Block) : BlockTree :=
  { tree with
    blocks := tree.blocks.insert block.hash block
    children := tree.children ++ [(parentHash, block.hash)] }

/-- A block that is its own parent is recorded with the zero parent. -/
def markInvalid (hash parentHash : B256) (reason : InvalidationReason) : BlockTree :=
  { tree with
    invalidBlocks := tree.invalidBlocks.insert hash
      (if hash = parentHash then B256.zero else parentHash, reason)
    blocks := tree.blocks.erase hash }

def removeInvalid (hash : B256) : BlockTree :=
  { tree with invalidBlocks := tree.invalidBlocks.erase hash }

def getInvalidationReason (hash : B256) : Option InvalidationReason :=
  (tree.invalidBlocks.get hash).map Prod.snd

def getInvalidParent (hash : B256) : Option B256 := (tree.invalidBlocks.get hash).map Prod.fst

def getChildren (parentHash : B256) : List B256 :=
  (tree.children.filter fun link => link.1 = parentHash).map Prod.snd

def removeChildren (parentHash : B256) : BlockTree :=
  { tree with children := tree.children.filter fun link => link.1 ≠ parentHash }

def getBlock (hash : B256) : Option Block := tree.blocks.get hash

def removeBlock (hash : B256) : BlockTree := { tree with blocks := tree.blocks.erase hash }

end BlockTree

structure Engine where
  chain : ChainTables
  state : StateTables
  canonical : CanonicalState
  blockTree : BlockTree

namespace Engine

variable (engine : Engine)

def database : Database := ⟨engine.chain, engine.state⟩

/-- `get_head()`. -/
def getHead : B256 × Nat := (engine.canonical.state.headBlockHash, engine.canonical.headNumber)

/-- Record a fork choice in memory and, if it is new, in the database. -/
def writeForkchoice (faults : Faults) (canonical : CanonicalState) : Engine :=
  { engine with
    canonical := canonical
    chain := if faults.now then engine.chain else
      engine.chain.updateForkchoice canonical.state.headBlockHash canonical.state.safeBlockHash
        canonical.state.finalizedBlockHash }

/-- `update_state`, whose error every caller ignores: when the write fails
the value in memory has changed all the same. -/
def updateState (faults : Faults) (state : ForkchoiceState) (headNumber : Nat) : Engine :=
  if engine.canonical = ⟨state, headNumber⟩ then engine
  else engine.writeForkchoice faults ⟨state, headNumber⟩

/-- `update_head`. -/
def updateHead (faults : Faults) (hash : B256) (number : Nat) : Except String Unit × Engine :=
  if engine.getHead = (hash, number) then (.ok (), engine)
  else
    let next := engine.writeForkchoice faults
      ⟨{ engine.canonical.state with headBlockHash := hash }, number⟩
    (if faults.now then .error "Storage write failed" else .ok (), next)

end Engine

/-! ## Results of the engine's calls -/

inductive PayloadStatusEnum where
  | valid
  | invalid (validationError : String)
  | syncing
  | accepted
  deriving DecidableEq

structure PayloadStatus where
  status : PayloadStatusEnum
  latestValidHash : Option B256
  deriving DecidableEq

structure ForkchoiceUpdated where
  payloadStatus : PayloadStatus
  payloadId : Option PayloadId
  deriving DecidableEq

inductive RpcError where
  | internal (message : String)
  | invalidForkchoiceState (message : String)
  | invalidPayloadAttributes (message : String)
  | unsupportedFork (message : String)
  deriving DecidableEq

end WasixEth
