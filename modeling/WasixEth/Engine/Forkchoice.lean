import WasixEth.Engine.ChainManager
import WasixEth.Engine.PayloadBuilder

/-! # Fork choice updates

`forkchoice_updated` checks the new fork choice, stores it, moves the canonical
chain to the new head and builds a payload on it if asked to. Every access to
the database may fail.
-/

namespace WasixEth.Engine

open Storage

variable [BlockHashing] (node : Node) (outside : Outside)

/-! ## The fork choice validator -/

def checkSafeBlock (faults : Faults) (engine : Engine) (state : ForkchoiceState)
    (header : Header) : Except RpcError Unit :=
  if state.safeBlockHash = B256.zero then .ok ()
  else match engine.chain.knownHeader (faults.part 0) state.safeBlockHash with
    | none => .error (.invalidForkchoiceState "safeBlockHash unknown")
    | some safe =>
        if header.number < safe.number ∨
            engine.isAncestor (faults.part 1) state.headBlockHash state.safeBlockHash = false then
          .error (.invalidForkchoiceState "safeBlockHash is not an ancestor of headBlockHash")
        else .ok ()

/-- The number of the block below which the finalized block must be. -/
def targetNumber (faults : Faults) (engine : Engine) (hash : B256) : Nat :=
  (((engine.chain.headerOrPayload (faults.part 0) hash).map (·.number)).or
    (if engine.chain.blockHash (faults.part 1) 0 = some hash then some 0 else none)).getD 0

def checkFinalizedBlock (faults : Faults) (engine : Engine) (state : ForkchoiceState)
    (header : Header) : Except RpcError Unit :=
  if state.finalizedBlockHash = B256.zero then .ok ()
  else
    let target := if state.safeBlockHash = B256.zero then state.headBlockHash
      else state.safeBlockHash
    match engine.chain.knownHeader (faults.part 0) state.finalizedBlockHash with
    | none => .error (.invalidForkchoiceState "finalizedBlockHash unknown")
    | some finalized =>
        let number := if target = state.headBlockHash then header.number
          else engine.targetNumber (faults.part 1) target
        if number < finalized.number ∨
            engine.isAncestor (faults.part 2) target state.finalizedBlockHash = false then
          .error (.invalidForkchoiceState
            "finalizedBlockHash is not an ancestor of safeBlockHash or headBlockHash")
        else .ok ()

/-- Without a header the head can only be the genesis block. -/
def checkHeaderWithoutHeadheader (faults : Faults) (engine : Engine) (state : ForkchoiceState) :
    Except RpcError Unit :=
  if engine.chain.blockHash faults 0 ≠ some state.headBlockHash then
    .error (.invalidForkchoiceState "headBlockHash header not found")
  else if state.safeBlockHash ≠ B256.zero ∧ state.safeBlockHash ≠ state.headBlockHash then
    .error (.invalidForkchoiceState "safeBlockHash is not an ancestor of headBlockHash")
  else if state.finalizedBlockHash ≠ B256.zero ∧
      state.finalizedBlockHash ≠ state.headBlockHash then
    .error (.invalidForkchoiceState "finalizedBlockHash is not an ancestor of headBlockHash")
  else .ok ()

/-- The checks of the three hashes; the result is the number of the head as
far as it is known by then. -/
def checkForkchoice (faults : Faults) (engine : Engine) (state : ForkchoiceState) :
    Except RpcError Nat :=
  if state.headBlockHash = B256.zero then .ok 0
  else match engine.chain.knownHeader (faults.part 0) state.headBlockHash with
    | some header =>
        match engine.checkSafeBlock (faults.part 1) state header with
        | .error error => .error error
        | .ok () =>
            match engine.checkFinalizedBlock (faults.part 2) state header with
            | .error error => .error error
            | .ok () => .ok header.number
    | none =>
        match engine.checkHeaderWithoutHeadheader (faults.part 1) state with
        | .error error => .error error
        | .ok () => .ok 0

/-! ## The status of the head -/

/-- A head, or a parent, that is known to be invalid: softly so is answered
with `SYNCING`, so that the caller tries again. -/
def invalidHead (faults : Faults) (engine : Engine) (hash : B256) (message : String)
    (reason : InvalidationReason) : PayloadStatus :=
  match reason with
  | .soft => ⟨.syncing, engine.getLatestValidAncestor faults hash⟩
  | .hard => ⟨.invalid message, engine.getLatestValidAncestor faults hash⟩

/-- The status with which the call ends if it is not `VALID`. -/
def headStatus (faults : Faults) (engine : Engine) (head : B256) : PayloadStatus :=
  let status := engine.determinePayloadStatus (faults.part 0) head
  if status.status = .valid then status
  else match engine.blockTree.getInvalidationReason head with
    | some reason =>
        engine.invalidHead (faults.part 1) head s!"Head block is known to be invalid: {reason}"
          reason
    | none =>
        match engine.getHeaderFromAnywhere (faults.part 2) head with
        | none => status
        | some header =>
            match engine.blockTree.getInvalidationReason header.parentHash with
            | none => status
            | some reason =>
                engine.invalidHead (faults.part 3) header.parentHash
                  s!"Parent block {header.parentHash} is known to be invalid: {reason}" reason

/-! ## Moving the canonical chain -/

/-- Execute and commit the blocks that are only among the payloads. -/
def executeMissing : Faults → Engine → List Block → Except String Unit × Engine
  | _, engine, [] => (.ok (), engine)
  | faults, engine, block :: rest =>
      if (engine.chain.blockBodyByHash (faults.part 0) block.hash).isSome then
        executeMissing (faults.part 1) engine rest
      else match node.execution.executeBlockWithCommit (faults.part 2) engine.database block with
        | (.error message, state) =>
            (.error s!"Failed to execute block from payload during promotion: {message}",
              { engine with state })
        | (.ok _, state) => executeMissing (faults.part 1) { engine with state } rest

/-- Revert to the common ancestor; if that fails the old fork choice is
restored. -/
def revertToCommon (faults : Faults) (engine : Engine) (old : CanonicalState)
    (commonAncestorHash : B256) : Except String Unit × Engine :=
  let height := ((engine.chain.header (faults.part 0) commonAncestorHash).map (·.number)).getD 0
  match engine.revertToHeight (faults.part 1) height with
  | (.ok (), engine) => (.ok (), engine)
  | (.error message, engine) =>
      (.error s!"Revert failed: {message}",
        engine.updateState (faults.part 2) old.state old.headNumber)

/-- Mark the new branch, executing first what is not stored yet. -/
def adoptBranch (faults : Faults) (engine : Engine) (blocks : List Block) :
    Except String Unit × Engine :=
  andThen (executeMissing node (faults.part 0) engine blocks) fun engine =>
    match engine.markBranchCanonical (faults.part 1) blocks with
    | (.ok (), engine) => (.ok (), engine)
    | (.error message, engine) => (.error s!"Canonical marking failed: {message}", engine)

/-- Without a reorganisation there is nothing to revert. -/
def revertFor (faults : Faults) (engine : Engine) (old : CanonicalState) (context : ReorgContext) :
    Except String Unit × Engine :=
  if context.isReorg then engine.revertToCommon faults old context.commonAncestorHash
  else (.ok (), engine)

/-- From the stored fork choice to the canonical chain of its head. -/
def switchBranch (faults : Faults) (engine : Engine) (old : CanonicalState) (newHead : B256) :
    Except String Unit × Engine :=
  match engine.chain.resolveReorg (faults.part 0) old.state.headBlockHash newHead with
  | .error message => (.error s!"Reorg resolution failed: {message}", engine)
  | .ok context =>
      andThen (engine.revertFor (faults.part 1) old context) fun engine =>
        engine.adoptBranch node (faults.part 2) context.newCanonicalBlocks

/-! ## The payload attributes -/

def forkValidation (version : Nat) (attributes : PayloadAttributes) : Except RpcError Unit :=
  -- The number of the block is not known here and taken to be zero.
  let fork := Hardfork.getActiveFork node.config 0 attributes.timestamp
  let isCancun := fork.isCancunActive
  let hasRoot := attributes.parentBeaconBlockRoot.isSome
  if 3 ≤ version ∧ isCancun = false then
    let message := "engine_forkchoiceUpdatedV3 and above must be used for Cancun and above"
    if hasRoot then .error (.unsupportedFork message)
    else .error (.invalidPayloadAttributes message)
  else if version < 3 ∧ isCancun then
    let message := "engine_forkchoiceUpdatedV2 and below must be used for forks before Cancun"
    if hasRoot then .error (.invalidPayloadAttributes message)
    else .error (.unsupportedFork message)
  else if Hardfork.shanghai ≤ fork ∧ attributes.withdrawals.isNone then
    .error (.invalidPayloadAttributes "missing withdrawals in payload attributes")
  else if ¬ Hardfork.shanghai ≤ fork ∧ attributes.withdrawals.isSome then
    .error (.invalidPayloadAttributes "unexpected withdrawals in payload attributes")
  else if isCancun ∧ hasRoot = false then
    .error (.invalidPayloadAttributes "missing parentBeaconBlockRoot in payload attributes")
  else if isCancun = false ∧ hasRoot then
    .error (.invalidPayloadAttributes "unexpected parentBeaconBlockRoot in payload attributes")
  else .ok ()

def checkAttributes (faults : Faults) (engine : Engine) (head : B256) (version : Nat)
    (attributes : PayloadAttributes) : Except RpcError Unit :=
  match engine.chain.blockOrPayload faults head with
  | some parent =>
      if attributes.timestamp ≤ parent.header.timestamp then
        .error (.invalidPayloadAttributes "Invalid timestamp")
      else forkValidation node version attributes
  | none => forkValidation node version attributes

/-- The end of the call: the head is in place. -/
def finishForkchoice (faults : Faults) (engine : Engine) (head : B256) (status : PayloadStatus)
    (attributes : Option PayloadAttributes) (version : Nat) :
    Except RpcError ForkchoiceUpdated × Engine :=
  match attributes with
  | none => (.ok ⟨status, none⟩, engine)
  | some attributes =>
      match engine.checkAttributes node (faults.part 0) head version attributes with
      | .error error => (.error error, engine)
      | .ok () =>
          let (id, engine) := engine.buildNewPayload node outside (faults.part 1) head attributes
          (.ok ⟨status, id⟩, engine)

/-! ## `forkchoice_updated` -/

/-- The number stored with the head: looked up again where it came out as
zero. -/
def headNumberOf (faults : Faults) (engine : Engine) (head : B256) (number : Nat) : Nat :=
  if number = 0 ∧ head ≠ B256.zero then (engine.chain.blockNumber faults head).getD 0 else number

/-- The part of the call after its checks. -/
def applyForkchoice (faults : Faults) (engine : Engine) (state : ForkchoiceState)
    (status : PayloadStatus) (number : Nat) (attributes : Option PayloadAttributes)
    (version : Nat) : Except RpcError ForkchoiceUpdated × Engine :=
  let head := state.headBlockHash
  let old := engine.canonical
  let updated := engine.updateState (faults.part 0) state
    (engine.headNumberOf (faults.part 1) head number)
  match updated.chain.headerOrPayload (faults.part 2) head with
  | none => updated.finishForkchoice node outside (faults.part 3) head status attributes version
  | some header =>
      match updated.switchBranch node (faults.part 4) old head with
      | (.error message, engine) => (.error (.internal message), engine)
      | (.ok (), engine) =>
          (engine.updateState (faults.part 5) state header.number).finishForkchoice node outside
            (faults.part 3) head status attributes version

def forkchoiceUpdated (faults : Faults) (engine : Engine) (state : ForkchoiceState)
    (attributes : Option PayloadAttributes) (version : Nat) :
    Except RpcError ForkchoiceUpdated × Engine :=
  let status := engine.headStatus (faults.part 0) state.headBlockHash
  if status.status ≠ .valid then (.ok ⟨status, none⟩, engine)
  else match engine.checkForkchoice (faults.part 1) state with
    | .error error => (.error error, engine)
    | .ok number =>
        engine.applyForkchoice node outside (faults.part 2) state status number attributes version

end WasixEth.Engine
