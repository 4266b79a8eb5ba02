import WasixEth.Engine.ChainManager
import WasixEth.Engine.Node

/-! # Importing payloads

`new_payload_internal` checks a block, executes it on the state of its parent,
stores it, and then tries the blocks that were waiting for it. Calls come one
after another, so the set of payloads being processed holds the block in hand
and nothing else. Storage accesses succeed here. A task that is spawned to
invalidate descendants runs before the call that spawned it returns.
-/

namespace WasixEth.Engine

open Storage

variable [BlockHashing] [Proofs] (node : Node) (outside : Outside)

def markInvalid (engine : Engine) (hash parentHash : B256) (reason : InvalidationReason) : Engine :=
  { engine with blockTree := engine.blockTree.markInvalid hash parentHash reason }

def addOrphan (engine : Engine) (parentHash : B256) (block : Block) : Engine :=
  { engine with blockTree := engine.blockTree.addOrphan parentHash block }

def removePayload (engine : Engine) (hash : B256) : Engine :=
  { engine with chain := engine.chain.removePayloadByBlockHash hash }

def validateHeader (engine : Engine) (header parent : Header) : Except String Unit :=
  EthConsensus.validateHeader node.config engine.chain.headerTd outside.now header parent

/-- Answer that the block is invalid, with the latest valid block among the
parent and its ancestors. -/
def invalidStatus (engine : Engine) (parentHash : B256) (message : String) :
    Except RpcError PayloadStatus × Engine :=
  (.ok ⟨.invalid message, engine.getLatestValidAncestor Faults.none parentHash⟩, engine)

/-- Mark the block invalid, drop it from the payloads and answer. -/
def rejectHard (engine : Engine) (hash parentHash : B256) (message : String) :
    Except RpcError PayloadStatus × Engine :=
  ((engine.markInvalid hash parentHash .hard).removePayload hash).invalidStatus parentHash message

/-- A mismatch with the caller's arguments is not held against the block for
good, nor at all if the block is stored. -/
def rejectSoft (engine : Engine) (hash parentHash : B256) (message : String) :
    Except RpcError PayloadStatus × Engine :=
  let marked := if (engine.chain.blockBodies.get hash).isNone then
      engine.markInvalid hash parentHash .soft
    else engine
  marked.invalidStatus parentHash message

/-! ## `invalidate_descendants` -/

/-- Every round either drops an entry of the stack or turns pairs of the child
index into entries, so twice the pairs and the entries bound the rounds. -/
def invalidateLoop : Nat → Engine → List B256 → List B256 → Engine
  | 0, engine, _, removed => removed.foldl (fun engine hash =>
      { engine with blockTree := engine.blockTree.removeBlock hash }) engine
  | _ + 1, engine, [], removed => removed.foldl (fun engine hash =>
      { engine with blockTree := engine.blockTree.removeBlock hash }) engine
  | rounds + 1, engine, parentHash :: stack, removed =>
      let children := engine.blockTree.getChildren parentHash
      let detached := { engine with blockTree := engine.blockTree.removeChildren parentHash }
      let marked := children.foldl (fun engine child =>
        engine.markInvalid child parentHash .hard) detached
      invalidateLoop rounds marked (children.reverse ++ stack) (removed ++ children)

def invalidateDescendants (engine : Engine) (hash : B256) : Engine :=
  invalidateLoop (2 * engine.blockTree.children.length + 2) engine [hash] []

/-! ## `validate_parent_block` -/

/-- Look for an invalid block among the parent and the blocks before it. -/
def invalidAncestor (engine : Engine) : Nat → B256 → Option B256
  | 0, _ => none
  | steps + 1, current =>
      if (engine.blockTree.getInvalidationReason current).isSome then some current
      else match engine.getHeaderFromAnywhere Faults.none current with
        | some header =>
            if header.parentHash = B256.zero then none
            else invalidAncestor engine steps header.parentHash
        | none =>
            match engine.blockTree.getInvalidParent current with
            | some parent => invalidAncestor engine steps parent
            | none => none

/-- Check the headers of the ancestors against their parents. -/
def validateAncestors : Nat → Engine → B256 → Option PayloadStatus × Engine
  | 0, engine, _ => (none, engine)
  | steps + 1, engine, current =>
      match engine.getHeaderFromAnywhere Faults.none current with
      | none => (none, engine)
      | some header =>
          let parentHash := header.parentHash
          if (engine.blockTree.getInvalidationReason parentHash).isSome then
            let latest := engine.getLatestValidAncestor Faults.none parentHash
            let marked := engine.markInvalid current parentHash .hard
            (some ⟨.invalid "Ancestor block is known to be invalid", latest⟩,
              marked.invalidateDescendants current)
          else
            let continued := if parentHash = B256.zero then (none, engine)
              else validateAncestors steps engine parentHash
            match engine.getHeaderFromAnywhere Faults.none parentHash with
            | none => continued
            | some parent =>
                match engine.validateHeader node outside header parent with
                | .ok () => continued
                | .error message =>
                    if engine.hasBlock Faults.none current &&
                        engine.hasBlock Faults.none parentHash then
                      let marked := engine.markInvalid current parentHash .hard
                      (some ⟨.invalid s!"Ancestor header validation failed: {message}",
                        marked.getLatestValidAncestor Faults.none parentHash⟩, marked)
                    else (some ⟨.accepted, none⟩, engine)

def validateParentBlock (engine : Engine) (parentHash : B256) : Option PayloadStatus × Engine :=
  match engine.invalidAncestor 64 parentHash with
  | some hash =>
      (some ⟨.invalid s!"Ancestor block {hash} is known to be invalid",
        engine.getLatestValidAncestor Faults.none hash⟩, engine)
  | none =>
      let isGenesis := engine.chain.isCanonical Faults.none parentHash &&
        engine.chain.headerNumbers.get parentHash = some 0
      if !isGenesis && !engine.hasBlock Faults.none parentHash then
        (some ⟨.accepted, none⟩, engine)
      -- The loop over 32 ancestors is left after the sixteenth.
      else validateAncestors node outside 16 engine parentHash

/-! ## `new_payload_internal_inner` -/

/-- The batch that stores an executed block under the hash of its header. -/
def persistBlock (engine : Engine) (executed : ExecutedBlock) (td : U256) : Engine :=
  let block := executed.block
  let hash := block.hash
  let count := block.body.transactions.length
  let chain := ((engine.chain.insertHeader hash block.header).insertHeaderTd hash td).insertBlockBody
    hash block.body
  { engine with
    chain := ((chain.insertHeaderNumber hash block.header.number).insertReceipts hash
      (executed.receipts.take count)).removePayloadByBlockHash hash
    state := engine.state.insertReceiptMetas hash (executed.metas.take count) }

def validateExecuted (executed : ExecutedBlock) : Except String Unit :=
  EthConsensus.validateBlockPostExecution executed.block
    ((executed.receipts.getLast?.map (·.cumulativeGasUsed)).getD 0)
    (calculateReceiptRoot executed.receipts) (logsBloomOf executed.receipts)
    executed.block.header.stateRoot

/-- Steps 6 and 7: check what execution returned and store it. -/
def storeExecuted (engine : Engine) (actualHash parentHash : B256) (executed : ExecutedBlock) :
    Except RpcError PayloadStatus × Engine :=
  match validateExecuted executed with
  | .error message => engine.rejectHard actualHash parentHash message
  | .ok () =>
      let header := executed.block.header
      let parentTd := if header.number = 0 then some 0
        else engine.chain.headerTd.get header.parentHash
      match parentTd with
      | none => (.error (.internal (s!"Parent TD not found for block {header.number} " ++
          s!"(parent: {header.parentHash})")), engine)
      | some parentTd =>
          let stored := engine.persistBlock executed (parentTd + header.difficulty)
          (.ok ⟨.valid, some actualHash⟩,
            { stored with blockTree := stored.blockTree.removeInvalid actualHash })

/-- Step 5: execute the block on the state of its parent. -/
def executePayload (engine : Engine) (block : Block) (parent : Header) :
    Except RpcError PayloadStatus × Engine :=
  match engine.validateHeader node outside block.header parent with
  | .error message => engine.rejectHard block.hash block.header.parentHash message
  | .ok () =>
      match node.execution.executeBlockWithStateRoot Faults.none engine.database block
          (some parent.stateRoot) with
      | (.error message, state) =>
          { engine with state }.rejectHard block.hash block.header.parentHash message
      | (.ok executed, state) =>
          { engine with state }.storeExecuted block.hash block.header.parentHash executed

/-- Without a stored parent header the block waits for it or is refused. -/
def withoutParent (engine : Engine) (block : Block) : Except RpcError PayloadStatus × Engine :=
  let parentHash := block.header.parentHash
  if parentHash = block.hash then (.ok ⟨.syncing, none⟩, engine)
  else match engine.getHeaderFromAnywhere Faults.none parentHash with
    | none => (.ok ⟨.syncing, none⟩, engine)
    | some parent =>
        match engine.validateHeader node outside block.header parent with
        | .error message =>
            (engine.markInvalid block.hash parentHash .hard).invalidStatus parentHash message
        | .ok () => (.ok ⟨.accepted, none⟩, engine.addOrphan parentHash block)

/-- Step 4 and what follows it. -/
def importChild (engine : Engine) (block : Block) : Except RpcError PayloadStatus × Engine :=
  let parentHash := block.header.parentHash
  match engine.validateParentBlock node outside parentHash with
  | (some status, engine) =>
      if status.status = .syncing ∨ status.status = .accepted then
        (.ok status, engine.addOrphan parentHash block)
      else
        let marked := engine.markInvalid block.hash parentHash .hard
        (.ok ⟨status.status, marked.getLatestValidAncestor Faults.none parentHash⟩,
          marked.invalidateDescendants block.hash)
  | (none, engine) =>
      match engine.chain.header Faults.none parentHash with
      | some parent => engine.executePayload node outside block parent
      | none => engine.withoutParent node outside block

/-- A body that does not fit is held against the block unless its header is
stored. -/
def rejectBody (engine : Engine) (block : Block) (message : String) :
    Except RpcError PayloadStatus × Engine :=
  match engine.chain.header Faults.none block.hash with
  | some existing =>
      if hashSlow existing = block.hash then
        engine.invalidStatus block.header.parentHash message
      else engine.rejectHard block.hash block.header.parentHash message
  | none => engine.rejectHard block.hash block.header.parentHash message

def newPayloadInternalInner (engine : Engine) (block : Block)
    (expectedBlobVersionedHashes : Option (List B256)) (parentBeaconBlockRoot : Option B256) :
    Except RpcError PayloadStatus × Engine :=
  let isCancun :=
    (Hardfork.getActiveFork node.config block.header.number block.header.timestamp).isCancunActive
  let cancun : Except String Unit :=
    if isCancun then EthConsensus.validateCancun block expectedBlobVersionedHashes else .ok ()
  let beaconRoot : Except String Unit :=
    if isCancun then
      EthConsensus.validateParentBeaconBlockRoot block.header parentBeaconBlockRoot
    else .ok ()
  match cancun with
  | .error message => engine.rejectSoft block.hash block.header.parentHash message
  | .ok () =>
      match EthConsensus.validateBody node.config engine.chain.headerTd block with
      | .error message => engine.rejectBody block message
      | .ok () =>
          match beaconRoot with
          | .error message => engine.rejectSoft block.hash block.header.parentHash message
          | .ok () => engine.importChild node outside block

/-! ## `revalidate_dependent_payloads` -/

/-- Try the children that waited for a block; those that turn out valid are
put on the stack in turn. -/
def revalidateChildren : Engine → List B256 → List B256 → Engine × List B256
  | engine, [], stack => (engine, stack)
  | engine, child :: rest, stack =>
      match engine.blockTree.getBlock child with
      | none => revalidateChildren engine rest stack
      | some block =>
          let detached := { engine with blockTree := engine.blockTree.removeBlock child }
          match newPayloadInternalInner node outside detached block none none with
          | (.ok status, engine) =>
              revalidateChildren engine rest
                (if status.status = .valid then child :: stack else stack)
          | (.error _, engine) => revalidateChildren engine rest stack

/-- A block is put on the stack once for a pair of the child index that goes
away, so the pairs bound the rounds. -/
def revalidateLoop : Nat → Engine → List B256 → Engine
  | 0, engine, _ => engine
  | _ + 1, engine, [] => engine
  | rounds + 1, engine, parentHash :: stack =>
      let children := engine.blockTree.getChildren parentHash
      let detached := { engine with blockTree := engine.blockTree.removeChildren parentHash }
      let (engine, stack) := revalidateChildren node outside detached children stack
      revalidateLoop rounds engine stack

def revalidateDependentPayloads (engine : Engine) (hash : B256) : Engine :=
  revalidateLoop node outside (engine.blockTree.children.length + 1) engine [hash]

/-! ## `new_payload_internal` -/

/-- The block is new, and neither it nor its parent is known to be invalid for
a reason that ends the call here. -/
def importNew (engine : Engine) (block : Block)
    (expectedBlobVersionedHashes : Option (List B256)) (parentBeaconBlockRoot : Option B256) :
    Except RpcError PayloadStatus × Engine :=
  let hash := block.hash
  let parentHash := block.header.parentHash
  if engine.blockTree.getInvalidationReason hash = some .hard then
    engine.invalidStatus parentHash "Block is known to be invalid"
  else match engine.blockTree.getInvalidationReason parentHash with
    | some .hard =>
        (.ok ⟨.invalid "Parent block is known to be invalid",
          engine.getLatestValidAncestor Faults.none parentHash⟩,
          engine.markInvalid hash parentHash .hard)
    | some .soft =>
        (.ok ⟨.invalid "Parent block is known to be invalid (Soft)",
          engine.getLatestValidAncestor Faults.none parentHash⟩,
          engine.markInvalid hash parentHash .soft)
    | none =>
        match newPayloadInternalInner node outside engine block expectedBlobVersionedHashes
            parentBeaconBlockRoot with
        | (.ok status, engine) =>
            (.ok status, if status.status = .valid then
              engine.revalidateDependentPayloads node outside hash else engine)
        | (.error error, engine) => (.error error, engine)

def newPayloadInternal (engine : Engine) (block : Block) (expectedBlockHash : B256)
    (expectedBlobVersionedHashes : Option (List B256)) (parentBeaconBlockRoot : Option B256) :
    Except RpcError PayloadStatus × Engine :=
  let hash := block.hash
  let parentHash := block.header.parentHash
  let stored := (engine.chain.blockBodies.get hash).isSome
  let isCancun :=
    (Hardfork.getActiveFork node.config block.header.number block.header.timestamp).isCancunActive
  if hash ≠ expectedBlockHash then
    if stored then (.ok ⟨.invalid "INVALID_BLOCK_HASH", some hash⟩, engine)
    else (.ok ⟨.invalid "INVALID_BLOCK_HASH", none⟩, engine.markInvalid hash parentHash .soft)
  else
    let cancun : Except String Unit :=
      if isCancun then EthConsensus.validateCancun block expectedBlobVersionedHashes else .ok ()
    let beaconRoot : Except String Unit :=
      if isCancun then
        EthConsensus.validateParentBeaconBlockRoot block.header parentBeaconBlockRoot
      else .ok ()
    match cancun, beaconRoot with
    | .error message, _ => engine.rejectSoft hash parentHash message
    | .ok (), .error message => engine.rejectSoft hash parentHash message
    | .ok (), .ok () =>
        if stored then (.ok ⟨.valid, some hash⟩, engine)
        else engine.importNew node outside block expectedBlobVersionedHashes parentBeaconBlockRoot

end WasixEth.Engine
