import WasixEth.Consensus
import WasixEth.Execution.Transaction

/-! # The execution provider

`EthExecutionProvider`: the loop over the transactions of a block, what the
block itself changes, and the header, which is checked against what execution
computed or, in building mode, filled in from it.
-/

namespace WasixEth

open Storage Routine BatchWriter

/-- What the execution of a block returns. -/
structure ExecutedBlock where
  block : Block
  receipts : List Receipt
  metas : List ReceiptMeta
  deriving DecidableEq, Inhabited

/-- What execution computed of a block, before its header is looked at. -/
structure ComputedBlock where
  transactions : List Transaction
  receipts : List Receipt
  metas : List ReceiptMeta
  cumulativeGasUsed : Nat
  stateRoot : B256
  deriving DecidableEq

def logsBloomOf (receipts : List Receipt) : Bloom :=
  receipts.foldl (fun bloom receipt => bloom ||| receipt.logsBloom) 0

structure EthExecutionProvider where
  config : ChainConfig
  order : Enumeration

namespace EthExecutionProvider

variable [Keccak256] [BlockHashing] [Proofs] [Evm] (provider : EthExecutionProvider)

/-! ## The header -/

/-- A default for a field that is missing. -/
def fillIn {α : Type} (field : Option α) (value : α) : Option α := some (field.getD value)

/-- Building mode: the fields are taken from execution. -/
def buildHeader (block : Block) (computed : ComputedBlock) (fork : Hardfork) : Header :=
  let header := { block.header with
    gasUsed := computed.cumulativeGasUsed
    transactionsRoot := calculateTransactionRoot computed.transactions
    receiptsRoot := calculateReceiptRoot computed.receipts
    logsBloom := logsBloomOf computed.receipts
    stateRoot := computed.stateRoot }
  let header := if .shanghai ≤ fork then { header with
      withdrawalsRoot := fillIn header.withdrawalsRoot
        (calculateWithdrawalsRoot (block.body.withdrawals.getD [])) } else header
  if .cancun ≤ fork then { header with
      blobGasUsed := fillIn header.blobGasUsed (EthConsensus.blobGasUsed computed.transactions)
      excessBlobGas := fillIn header.excessBlobGas 0
      parentBeaconBlockRoot := fillIn header.parentBeaconBlockRoot B256.zero } else header

/-- Validation mode: the fields are compared. -/
def checkHeader (block : Block) (computed : ComputedBlock) (fork : Hardfork) :
    Except String Unit := do
  let header := block.header
  let mismatch (field : String) (expected calculated : String) : String :=
    s!"{field} mismatch for block {header.number}: expected {expected}, calculated {calculated}"
  let transactionsRoot := calculateTransactionRoot computed.transactions
  let receiptsRoot := calculateReceiptRoot computed.receipts
  if header.gasUsed ≠ computed.cumulativeGasUsed then
    throw (mismatch "Gas used" (toString header.gasUsed) (toString computed.cumulativeGasUsed))
  if header.transactionsRoot ≠ transactionsRoot then
    throw (mismatch "Transactions root" (toString header.transactionsRoot)
      (toString transactionsRoot))
  if header.receiptsRoot ≠ receiptsRoot then
    throw (mismatch "Receipts root" (toString header.receiptsRoot) (toString receiptsRoot))
  if header.logsBloom ≠ logsBloomOf computed.receipts then
    throw s!"Logs bloom mismatch for block {header.number}"
  if header.stateRoot ≠ computed.stateRoot then
    throw (mismatch "State root" (toString header.stateRoot) (toString computed.stateRoot))
  if .shanghai ≤ fork then
    let withdrawalsRoot := calculateWithdrawalsRoot (block.body.withdrawals.getD [])
    if header.withdrawalsRoot ≠ some withdrawalsRoot then
      throw (mismatch "Withdrawals root" (B256.debugOption header.withdrawalsRoot)
        (toString withdrawalsRoot))

/-- The mode is chosen by what the header looks like. -/
def isBuilding (building : Bool) (header : Header) (cumulativeGasUsed : Nat) : Bool :=
  building || header.stateRoot = B256.zero || (header.gasUsed = 0 && 0 < cumulativeGasUsed)

/-- `finalize_block_header_with_requests`. -/
def finalizeBlockHeader (block : Block) (computed : ComputedBlock) (fork : Hardfork)
    (building : Bool) : Except String Block := do
  let block := { block with body := { block.body with transactions := computed.transactions } }
  if isBuilding building block.header computed.cumulativeGasUsed then
    return { block with header := buildHeader block computed fork }
  else do
    checkHeader block computed fork
    return block

/-! ## The body -/

/-- The part of `prepare_execution_env` that depends on the database. -/
def activeFork (database : Database) (header : Header) : Hardfork :=
  let parentTd := if header.number = 0 then some 0
    else database.chain.headerTd.get header.parentHash
  Hardfork.getActiveForkWithTotalDifficulty provider.config header.number header.timestamp parentTd

def executorFor (database : Database) (header : Header) (stateRoot : Option B256) :
    TransactionExecutor :=
  let fork := provider.activeFork database header
  { env := prepareEnvironment provider.config header fork
    fork
    beneficiary := header.beneficiary
    stateRoot }

/-- The transactions that made it into the block, with what they left. -/
structure Included where
  transactions : List Transaction
  receipts : List Receipt
  metas : List ReceiptMeta
  deriving DecidableEq

def Included.add (included : Included) (tx : Transaction) (result : TransactionExecutionResult) :
    Included :=
  ⟨included.transactions ++ [tx], included.receipts ++ [result.receipt],
    included.metas ++ [result.receiptMeta]⟩

/-- Run a step and hand back its result, error or not. -/
def attempt {α : Type} (operation : ExecM α) : ExecM (Except String α) := fun progress =>
  let outcome := operation progress
  ⟨.ok outcome.result, outcome.state, outcome.log⟩

/-- In building mode a transaction that fails is left out. -/
def executeTransactions (executor : TransactionExecutor) (building : Bool) :
    Included → List Transaction → ExecM Included
  | included, [] => return included
  | included, tx :: rest => do
      let result ← attempt (executor.executeTransaction tx)
      match result with
      | .ok result => executeTransactions executor building (included.add tx result) rest
      | .error message =>
          if building then executeTransactions executor building included rest else fail message

/-- The blob gas of a block is bounded, and is what the header says. -/
def checkBlobGas (fork : Hardfork) (header : Header) (transactions : List Transaction) :
    Except String Unit := do
  if .cancun ≤ fork then
    let used := EthConsensus.blobGasUsed transactions
    let maximum := ((fork.blobParams provider.config).map fun params =>
      params.maxBlobCount * dataGasPerBlob).getD maxBlobGasPerBlock
    if maximum < used then
      throw s!"Block blob gas used {used} exceeds limit {maximum}"
    match header.blobGasUsed with
    | none => pure ()
    | some expected =>
        if expected ≠ used then
          throw s!"Block blob gas used mismatch: header={expected}, calculated={used}"

def liftCheck (check : Except String Unit) : ExecM Unit := liftExcept check

/-- Everything `execute_block_with_batch` does before it looks at the header's
claims. -/
def computeBlock (executor : TransactionExecutor) (block : Block) (building : Bool) :
    ExecM ComputedBlock := do
  let header := block.header
  let stateRoot := executor.stateRoot
  match header.parentBeaconBlockRoot with
  | some beaconRoot =>
      if .cancun ≤ executor.fork then
        onBatch (BlockProcessor.applyBeaconRoot beaconRoot header.timestamp stateRoot)
  | none => pure ()
  let included ← executeTransactions executor building ⟨[], [], []⟩ block.body.transactions
  liftCheck (provider.checkBlobGas executor.fork header included.transactions)
  onBatch (BlockProcessor.processWithdrawals stateRoot (block.body.withdrawals.getD []))
  onBatch (BlockProcessor.applyBlockRewards executor.fork header.beneficiary block.body.ommers
    stateRoot header.number)
  let root ← onBatch (calculateStateRoot (.spuriousDragon ≤ executor.fork) stateRoot)
  let progress ← read
  return ⟨included.transactions, included.receipts, included.metas, progress.cumulativeGasUsed,
    root⟩

/-- The state root to execute on: the parent's unless one is given. -/
def baseRoot (database : Database) (block : Block) (stateRoot : Option B256) :
    Except String (Option B256) :=
  match stateRoot with
  | some root => .ok (some root)
  | none =>
      if block.header.number = 0 then .ok none
      else match database.chain.header Faults.none block.header.parentHash with
        | some parent => .ok (some parent.stateRoot)
        | none => .error (s!"Parent state root not found for block {block.header.number} " ++
            s!"(parent: {block.header.parentHash})")

/-- What executing a block on a state root computes, whatever its header
says. -/
def compute (database : Database) (block : Block) (root : Option B256) (building : Bool) :
    ExecM ComputedBlock := do
  onBatch (root.elim (pure ()) setBaseStateRoot)
  provider.computeBlock (provider.executorFor database block.header root) block building

def executeBlockWithBatch (block : Block) (stateRoot : Option B256) (building : Bool) :
    ExecM ExecutedBlock := do
  let progress ← read
  let database := progress.batch.database
  let root ← liftExcept (baseRoot database block stateRoot)
  let computed ← provider.compute database block root building
  let finalized ← liftExcept (finalizeBlockHeader block computed
    (provider.activeFork database block.header) building)
  return ⟨finalized, computed.receipts, computed.metas⟩

/-! ## Blocks -/

/-- A batch on the database as it stands. -/
def start (database : Database) : Progress := ⟨beginBatch provider.order database, 0⟩

/-- The state after the batch of an executed block is committed. -/
def committed (batch : BatchWriter) (executed : ExecutedBlock) : StateTables :=
  (insertChangeSets executed.block.header.number batch).state.tables.insertReceiptMetas
    executed.block.hash executed.metas

/-- `execute_block_with_state_root(block, true, state_root)`: of the faults,
those of beginning and of committing the batch are modelled. -/
def executeBlockWithStateRoot (faults : Faults) (database : Database) (block : Block)
    (stateRoot : Option B256) : Except String ExecutedBlock × StateTables :=
  if faults.now then (.error "Failed to begin batch", database.state)
  else
    let outcome := provider.executeBlockWithBatch block stateRoot false (provider.start database)
    match outcome.result with
    | .error message => (.error message, database.state)
    | .ok executed =>
        if (faults.part 0).now then (.error "Failed to commit batch", database.state)
        else (.ok executed, committed outcome.state.batch executed)

/-- The header a payload starts from. -/
def payloadHeader (transactions : List Transaction) (parent : Header)
    (attributes : PayloadAttributes) (baseFee : Option Nat) (fork : Hardfork) : Header where
  parentHash := hashSlow parent
  ommersHash := ommersHash []
  beneficiary := attributes.suggestedFeeRecipient
  stateRoot := B256.zero
  transactionsRoot := B256.zero
  receiptsRoot := B256.zero
  logsBloom := 0
  difficulty := if .paris ≤ fork then 0 else parent.difficulty
  number := parent.number + 1
  gasLimit := parent.gasLimit
  gasUsed := 0
  timestamp := attributes.timestamp
  extraData := []
  mixHash := if .paris ≤ fork then attributes.prevRandao else parent.mixHash
  nonce := if .paris ≤ fork then 0 else 0x42
  baseFeePerGas := baseFee
  withdrawalsRoot := if .shanghai ≤ fork then
    some (calculateWithdrawalsRoot (attributes.withdrawals.getD [])) else none
  blobGasUsed := if .cancun ≤ fork then some (EthConsensus.blobGasUsed transactions) else none
  excessBlobGas := if .cancun ≤ fork then
    some (calcExcessBlobGas parent.excessBlobGas parent.blobGasUsed
      (((fork.blobParams provider.config).map fun params =>
        params.targetBlobCount * dataGasPerBlob).getD targetBlobGasPerBlock)) else none
  parentBeaconBlockRoot := if .cancun ≤ fork then attributes.parentBeaconBlockRoot else none
  requestsHash := none

def payloadBlock (transactions : List Transaction) (parent : Header)
    (attributes : PayloadAttributes) (baseFee : Option Nat) : Block :=
  let fork := Hardfork.getActiveFork provider.config (parent.number + 1) attributes.timestamp
  { header := provider.payloadHeader transactions parent attributes baseFee fork
    body := {
      transactions
      ommers := []
      withdrawals := if .shanghai ≤ fork then some (attributes.withdrawals.getD []) else none } }

/-- Nothing of a payload is committed. -/
def executeBlockForPayload (database : Database) (transactions : List Transaction)
    (parent : Header) (attributes : PayloadAttributes) (baseFee : Option Nat) :
    Except String ExecutedBlock :=
  (provider.executeBlockWithBatch (provider.payloadBlock transactions parent attributes baseFee)
    (some parent.stateRoot) true (provider.start database)).result

end EthExecutionProvider

end WasixEth
