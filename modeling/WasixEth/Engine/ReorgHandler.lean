import WasixEth.Engine.State

/-! # Reorganisations

Finding the blocks that a new head makes canonical, marking them, and undoing
the blocks above a height. Each write is a transaction of its own, so an error
leaves everything written before it in place.
-/

namespace WasixEth

open Storage

structure ReorgContext where
  commonAncestorHash : B256
  newCanonicalBlocks : List Block
  isReorg : Bool
  deriving DecidableEq

/-- Where the walk from a new head stopped, and the blocks it passed. -/
structure WalkBack where
  commonAncestorHash : B256
  commonAncestorFound : Bool
  newCanonicalBlocks : List Block
  deriving DecidableEq

namespace Storage.ChainTables

variable [BlockHashing] (tables : ChainTables)

/-- The block data of the walk: a stored block, or one among the payloads. -/
def blockOrPayload (faults : Faults) (hash : B256) : Option Block :=
  (tables.blockByHash (faults.part 0) hash).or
    ((tables.getPayloadByBlockHash (faults.part 1) hash).map (·.block))

/-- The loop of `resolve_reorg`. It has no bound of its own; a walk that is
longer than `fuel` is reported as endless. -/
def walkBack (oldHead : B256) : Nat → Faults → B256 → Except String WalkBack
  | 0, _, current => .error s!"Walk-back does not end at {current}"
  | fuel + 1, faults, current =>
      let pushed (block : Block) : Except String WalkBack → Except String WalkBack
        | .error message => .error message
        | .ok walk => .ok { walk with newCanonicalBlocks := block :: walk.newCanonicalBlocks }
      if current = B256.zero then .ok ⟨B256.zero, false, []⟩
      else if current = oldHead then .ok ⟨oldHead, true, []⟩
      else if tables.isCanonical (faults.part 0) current then .ok ⟨current, true, []⟩
      else match tables.header (faults.part 1) current with
        | some header =>
            match tables.blockOrPayload (faults.part 2) current with
            | some block => pushed block (walkBack oldHead fuel (faults.part 3) header.parentHash)
            | none => .error s!"Block data missing for hash {current} during reorg walk-back"
        | none =>
            match tables.getPayloadByBlockHash (faults.part 4) current with
            | some payload =>
                pushed payload.block
                  (walkBack oldHead fuel (faults.part 3) payload.block.header.parentHash)
            | none => .ok ⟨B256.zero, false, []⟩

/-- Numbers grow by one from parent to child, so a walk from a known block
takes at most this many steps. -/
def walkBound (hash : B256) : Nat :=
  ((tables.headerOrPayload Faults.none hash).map (·.number)).getD 0 + 2

def resolveReorg (faults : Faults) (oldHead newHead : B256) : Except String ReorgContext :=
  match tables.walkBack oldHead (tables.walkBound newHead) faults newHead with
  | .error message => .error message
  | .ok walk =>
      if walk.commonAncestorFound ∧ walk.commonAncestorHash = newHead then
        -- The new head is already canonical: the call moves backwards.
        .ok ⟨walk.commonAncestorHash, [], false⟩
      else if walk.commonAncestorFound ∧ walk.commonAncestorHash = oldHead then
        .ok ⟨walk.commonAncestorHash, walk.newCanonicalBlocks, false⟩
      else
        .ok ⟨walk.commonAncestorHash, walk.newCanonicalBlocks,
          walk.commonAncestorFound && oldHead ≠ walk.commonAncestorHash⟩

end Storage.ChainTables

namespace Engine

variable [BlockHashing]

/-- A write that is its own transaction. -/
def write (faults : Faults) (engine : Engine) (next : Engine) : Except String Unit × Engine :=
  if faults.now then (.error "Storage write failed", engine) else (.ok (), next)

/-- Do one thing and, if it succeeded, the next. -/
def andThen (first : Except String Unit × Engine) (next : Engine → Except String Unit × Engine) :
    Except String Unit × Engine :=
  match first with
  | (.error message, engine) => (.error message, engine)
  | (.ok (), engine) => next engine

/-! ## `mark_branch_canonical` -/

/-- `insert_block`. -/
def insertBlock (engine : Engine) (payload : Payload) : Engine :=
  { engine with
    chain := engine.chain.insertBlock payload.block payload.receipts
    state := engine.state.insertReceiptMetas payload.block.hash payload.metas }

/-- Move a block from the payloads to the main tables if its body is not
there yet. -/
def promotePayload (faults : Faults) (engine : Engine) (hash : B256) :
    Except String Unit × Engine :=
  if (engine.chain.blockBodyByHash (faults.part 0) hash).isSome then (.ok (), engine)
  else match engine.chain.getPayloadByBlockHash (faults.part 1) hash with
    | none => (.ok (), engine)
    | some payload =>
        andThen (engine.write (faults.part 2) (engine.insertBlock payload)) fun engine =>
          engine.write (faults.part 3)
            { engine with chain := engine.chain.removePayloadByBlockHash hash }

/-- Set the total difficulty if the parent's is known and it differs. -/
def correctTd (faults : Faults) (engine : Engine) (block : Block) : Except String Unit × Engine :=
  match (faults.part 0).read (engine.chain.headerTd.get block.header.parentHash) with
  | none => (.ok (), engine)
  | some parentTd =>
      let expected := parentTd + block.header.difficulty
      if (faults.part 1).read (engine.chain.headerTd.get block.hash) = some expected then
        (.ok (), engine)
      else engine.write (faults.part 2)
        { engine with chain := engine.chain.insertHeaderTd block.hash expected }

def updateLookups (blockHash : B256) :
    Faults → Engine → List (Transaction × Nat) → Except String Unit × Engine
  | _, engine, [] => (.ok (), engine)
  | faults, engine, (tx, index) :: rest =>
      andThen (engine.write (faults.part 0)
        { engine with chain := engine.chain.insertTransactionLookup (txHash tx) blockHash index })
        fun engine => updateLookups blockHash (faults.part 1) engine rest

def markCanonical (faults : Faults) (engine : Engine) (block : Block) :
    Except String Unit × Engine :=
  andThen (engine.promotePayload (faults.part 0) block.hash) fun engine =>
  andThen (engine.write (faults.part 1)
    { engine with chain := engine.chain.setCanonical block.header.number block.hash })
    fun engine =>
  andThen (engine.write (faults.part 2)
    { engine with chain := engine.chain.insertHeaderNumber block.hash block.header.number })
    fun engine =>
  andThen (engine.write (faults.part 3)
    { engine with chain := engine.chain.insertHeaderNumber block.hash block.header.number })
    fun engine =>
  andThen (engine.correctTd (faults.part 4) block) fun engine =>
    engine.updateLookups block.hash (faults.part 5) block.body.transactions.zipIdx

/-- Mark the blocks of the list from first to last. -/
def markAll : Faults → Engine → List Block → Except String Unit × Engine
  | _, engine, [] => (.ok (), engine)
  | faults, engine, block :: rest =>
      andThen (engine.markCanonical (faults.part 0) block) fun engine =>
        markAll (faults.part 1) engine rest

/-- The blocks come from the head down and are marked from the oldest up. -/
def markBranchCanonical (faults : Faults) (engine : Engine) (blocks : List Block) :
    Except String Unit × Engine :=
  markAll faults engine blocks.reverse

/-! ## `revert_to_height` -/

def restoreAccounts : Faults → Engine → List (Address × Option TrieAccount) →
    Except String Unit × Engine
  | _, engine, [] => (.ok (), engine)
  | faults, engine, (address, old) :: rest =>
      let restored := match old with
        | some account => engine.state.updateAccount address account
        | none => engine.state.removeAccount address
      -- A row that does not decode is an error too. The plain state, which
      -- nothing reads, is written in a transaction of its own.
      andThen (engine.write (faults.part 0) { engine with state := restored }) fun engine =>
      andThen (engine.write (faults.part 1) engine) fun engine =>
        restoreAccounts (faults.part 2) engine rest

def restoreStorages : Faults → Engine → List (Address × B256 × U256) → Except String Unit × Engine
  | _, engine, [] => (.ok (), engine)
  | faults, engine, (address, slot, old) :: rest =>
      andThen (engine.write (faults.part 0)
        { engine with state := engine.state.updateStorage address slot old }) fun engine =>
        restoreStorages (faults.part 1) engine rest

/-- Errors while the receipt metadata is removed are ignored. -/
def removeReceiptMetas (faults : Faults) (engine : Engine) (blockHash : B256) (count : Nat) :
    Engine :=
  (List.range count).foldl (fun engine index =>
    if (faults.part index).now then engine
    else { engine with state := engine.state.removeReceiptMeta blockHash index }) engine

/-- A read whose failure is an error. -/
def reading {α : Type} (faults : Faults) (engine : Engine) (value : α)
    (next : α → Except String Unit × Engine) : Except String Unit × Engine :=
  if faults.now then (.error "Storage read failed", engine) else next value

/-- Undo one height: restore what its change sets hold and drop it from the
canonical chain. -/
def revertHeight (faults : Faults) (engine : Engine) (height : Nat) : Except String Unit × Engine :=
  andThen (reading (faults.part 0) engine (engine.state.accountChangeSets.get height) fun changes =>
    restoreAccounts (faults.part 1) engine (changes.getD [])) fun engine =>
  andThen (reading (faults.part 2) engine (engine.state.storageChangeSets.get height) fun changes =>
    restoreStorages (faults.part 3) engine (changes.getD [])) fun engine =>
  andThen (engine.write (faults.part 4)
    { engine with state := engine.state.removeChangeSet height }) fun engine =>
  andThen (reading (faults.part 5) engine (engine.chain.canonicalHeads.get height) fun hash =>
    match hash with
    | none => (.ok (), engine)
    | some hash =>
        reading (faults.part 6) engine (engine.chain.blockBodies.get hash) fun body =>
          match body with
          | none => (.ok (), engine)
          | some body =>
              (.ok (), engine.removeReceiptMetas (faults.part 7) hash body.transactions.length))
    fun engine =>
  engine.write (faults.part 8) { engine with chain := engine.chain.removeCanonical height }

/-- Undo the heights from `current` down to, but not including, `height`. -/
def revertDown (height : Nat) : Faults → Engine → Nat → Except String Unit × Engine
  | _, engine, 0 => (.ok (), engine)
  | faults, engine, current + 1 =>
      if current + 1 ≤ height then (.ok (), engine)
      else andThen (engine.revertHeight (faults.part 0) (current + 1)) fun engine =>
        revertDown height (faults.part 1) engine current

/-- The first height undone is the number of the head as the fork choice in
memory has it. -/
def revertToHeight (faults : Faults) (engine : Engine) (height : Nat) :
    Except String Unit × Engine :=
  andThen (revertDown height (faults.part 0) engine engine.canonical.headNumber) fun engine =>
    reading (faults.part 1) engine (engine.chain.canonicalHeads.get height) fun hash =>
      match hash with
      | none => (.error s!"Block hash not found for height {height}", engine)
      | some hash => engine.updateHead (faults.part 2) hash height

end Engine

end WasixEth
