import WasixEth.Execution.StateApplier

/-! # Executing a transaction

`TransactionExecutor`: the checks before the machine runs, what becomes of its
errors, and the receipt.
-/

namespace WasixEth

open Storage Routine BatchWriter

/-- Where the execution of a block stands: its batch and the gas used so far. -/
structure Progress where
  batch : BatchWriter
  cumulativeGasUsed : Nat

/-- A step of the execution of a block. What it did before an error stays. -/
abbrev ExecM := Routine Progress Bytes String

def onBatch {α : Type} (operation : BatchM α) : ExecM α := fun progress =>
  let outcome := operation progress.batch
  ⟨outcome.result, { progress with batch := outcome.state }, outcome.log⟩

variable [Keccak256]

/-- The three bits an item sets in a bloom filter. -/
def bloomOf (item : Bytes) : Bloom :=
  let digest := (keccak256 item).bytes
  let bit (i : Nat) : Bloom :=
    BitVec.twoPow 2048 ((256 * (digest.getD i 0).toNat + (digest.getD (i + 1) 0).toNat) % 2048)
  bit 0 ||| bit 2 ||| bit 4

def logsBloom (logs : List Log) : Bloom :=
  logs.foldl (fun bloom log =>
    log.topics.foldl (fun bloom topic => bloom ||| bloomOf topic.bytes)
      (bloom ||| bloomOf log.address.bytes)) 0

/-- What does not change during the execution of a block. -/
structure TransactionExecutor where
  env : Environment
  fork : Hardfork
  beneficiary : Address
  stateRoot : Option B256

structure TransactionExecutionResult where
  gasUsed : Nat
  receipt : Receipt
  receiptMeta : ReceiptMeta
  deriving DecidableEq

namespace TransactionExecutor

variable (executor : TransactionExecutor)

/-! ## Before the machine runs -/

/-- The checks of a transaction against its sender's account. -/
def validateTransaction (tx : Transaction) (sender : Address) (account : TrieAccount) :
    Except String Unit := do
  if tx.nonce ≠ account.nonce.toNat then
    throw s!"Nonce mismatch for sender {sender}: expected {account.nonce}, got {tx.nonce}"
  match tx.chainId with
  | none => pure ()
  | some chainId =>
      if chainId ≠ executor.env.chainId then
        throw s!"Invalid chain ID: expected {executor.env.chainId}, got {chainId}"
  match tx.kind with
  | .eip1559 maxFee maxPriority =>
      if maxFee < executor.env.blockBaseFeePerGas then
        throw s!"Max fee per gas too low: max={maxFee}, base={executor.env.blockBaseFeePerGas}"
      if maxFee < maxPriority then
        throw "Max fee per gas less than max priority fee per gas"
  | .eip4844 _ _ maxFeePerBlobGas _ =>
      if .cancun ≤ executor.fork then
        if maxFeePerBlobGas < executor.env.blobBaseFeePerGas then
          throw (s!"Max fee per blob gas too low: max=Some({maxFeePerBlobGas}), " ++
            s!"base={executor.env.blobBaseFeePerGas}")
  | .eip7702 _ _ _ =>
      if executor.fork < .prague then
        throw "EIP-7702 transactions are not supported in this fork"
  | _ => pure ()
  if .shanghai ≤ executor.fork then
    if tx.toAddress.isNone && maxInitCodeSize < tx.input.length then
      throw s!"Initcode size exceeds maximum limit ({tx.input.length} > {maxInitCodeSize})"

def validateTransactionWithState (tx : Transaction) (sender : Address) : BatchM Unit := do
  let found ← account sender executor.stateRoot
  match executor.validateTransaction tx sender (found.getD .blank) with
  | .ok () => return ()
  | .error message => fail message

/-- What the batch shows of the state. A read through the batch writes nothing,
and the machine takes a failed one for an empty answer. -/
def viewAccount (batch : BatchWriter) (stateRoot : Option B256) (address : Address) :
    Option TrieAccount :=
  match (account address stateRoot batch).result with
  | .ok found => found
  | .error _ => none

def viewStorage (batch : BatchWriter) (stateRoot : Option B256) (address : Address)
    (slot : B256) : U256 :=
  match (storage address slot stateRoot batch).result with
  | .ok value => value
  | .error _ => 0

/-- The precompiles that are warm from the start. -/
def maxPrecompile (fork : Hardfork) : Nat :=
  if .prague ≤ fork then 0x13 else if .cancun ≤ fork then 0x0a else 0x09

def hotAccounts (fork : Hardfork) (tx : Transaction) (sender : Address) : List Address :=
  if .berlin ≤ fork then
    (List.range (maxPrecompile fork)).map (fun i => Address.trailing (UInt8.ofNat (i + 1))) ++
      [sender] ++ tx.toAddress.toList ++ tx.accessList.map Prod.fst
  else []

def hotStorage (fork : Hardfork) (tx : Transaction) : List (Address × B256) :=
  if .berlin ≤ fork then
    tx.accessList.flatMap fun item => item.2.map fun key => (item.1, key)
  else []

def prepareBackend (tx : Transaction) (sender : Address)
    (batch : BatchWriter) : SputnikBackend where
  account := viewAccount batch executor.stateRoot
  storage := viewStorage batch executor.stateRoot
  bytecode := batch.tables.bytecodes.get
  environment :=
    if .cancun ≤ executor.fork then
      { executor.env with blobVersionedHashes := tx.blobVersionedHashes }
    else executor.env
  hotAccounts := hotAccounts executor.fork tx sender
  hotStorage := hotStorage executor.fork tx
  origin := sender

/-- The blob fee of a transaction: zero unless it carries blobs after Cancun. -/
def blobFee (tx : Transaction) : Nat :=
  if .cancun ≤ executor.fork then
    tx.blobVersionedHashes.length * dataGasPerBlob * executor.env.blobBaseFeePerGas
  else 0

/-- `handle_pre_execution_eip_logic`: the blob fee is taken before the machine
runs. -/
def handlePreExecution (tx : Transaction) (sender : Address) (backend : SputnikBackend) :
    Except String OverlayedBackend :=
  match tx.kind with
  | .eip4844 _ _ _ _ =>
      if .cancun ≤ executor.fork then
        if (backend.balance sender).toNat < executor.blobFee tx then
          .error "Insufficient balance for blob fee"
        else .ok ⟨backend, [(sender,
          BitVec.ofNat 256 ((backend.balance sender).toNat - executor.blobFee tx))]⟩
      else .ok ⟨backend, []⟩
  | _ => .ok ⟨backend, []⟩

/-- The price offered to the machine: transactions of type 4 have no gas price
and offer zero. -/
def gasPriceOf (tx : Transaction) : TransactGasPrice :=
  let feeMarket (maxFee maxPriority : Nat) : TransactGasPrice :=
    let baseFee := executor.env.blockBaseFeePerGas
    .feeMarket (if baseFee ≤ maxFee then min maxPriority (maxFee - baseFee) else 0) maxFee
  match tx.kind with
  | .eip1559 maxFee maxPriority => feeMarket maxFee maxPriority
  | .eip4844 maxFee maxPriority _ _ => feeMarket maxFee maxPriority
  | _ => .legacy (tx.gasPrice.getD 0)

def prepareTransactArgs (tx : Transaction) (sender : Address) : TransactArgs where
  caller := sender
  value := tx.value
  gasLimit := tx.gasLimit
  gasPrice := executor.gasPriceOf tx
  accessList := tx.accessList
  callCreate :=
    match tx.toAddress with
    | some address => .call address tx.input
    | none => .create tx.input
  config := getEvmConfig executor.fork

/-! ## After the machine has run -/

variable [Evm]

/-- The gas of a transaction the machine gave up on: what its sender has lost,
but at least the intrinsic gas. -/
def failedGas (tx : Transaction) (args : TransactArgs) (sender : Address)
    (balanceBefore balanceAfter : U256) : Nat :=
  let price := Evm.effectiveGasPrice args executor.env
  let rate := if sender = executor.env.blockCoinbase then
    price - Evm.coinbaseReward args executor.env else price
  let calculated := if 0 < rate then (balanceBefore.toNat - balanceAfter.toNat) / rate else 0
  max calculated (calculateIntrinsicGas tx executor.fork)

/-- `handle_transact_error`: exceptions and reverts are included as failed
transactions, and only a fatal error stops the block. -/
def handleTransactError (tx : Transaction) (args : TransactArgs) (sender : Address)
    (error : ExitError) (balanceBefore balanceAfter : U256) : Except String TransactValue :=
  let value : TransactValue := ⟨.call .stopped [],
    executor.failedGas tx args sender balanceBefore balanceAfter⟩
  match error with
  | .exception _ => .ok value
  | .reverted => .ok value
  | .fatal message => .error s!"Fatal EVM error: {message}"

/-- What the machine makes of a transaction: the value, whether it gave up,
and the changes. -/
def runMachine (tx : Transaction) (sender : Address) (batch : BatchWriter) :
    Except String (TransactValue × Bool × OverlayedChangeSet) := do
  let backend := executor.prepareBackend tx sender batch
  let overlay ← executor.handlePreExecution tx sender backend
  let args := executor.prepareTransactArgs tx sender
  let (result, changes) := Evm.transact args overlay
  match result with
  | .ok value => return (value, false, changes)
  | .error error => do
      let balanceAfter := (changes.balances.lookup sender).getD (backend.balance sender)
      let value ← executor.handleTransactError tx args sender error (backend.balance sender)
        balanceAfter
      return (value, true, changes)

/-- Whether the machine ended as it should: a self-destruct does not count. -/
def succeeded (value : TransactValue) (failed : Bool) : Bool :=
  !failed && match value.callCreate with
    | .call succeed _ => succeed = .returned || succeed = .stopped
    | .create succeed _ => succeed = .returned || succeed = .stopped

def contractAddress (value : TransactValue) (success : Bool) : Option Address :=
  match value.callCreate with
  | .call _ _ => none
  | .create _ address => if success then some address else none

def executeTransaction (tx : Transaction) : ExecM TransactionExecutionResult := do
  let sender ← match Evm.recoverSigner tx with
    | .ok sender => pure sender
    | .error message => fail s!"Failed to recover signer: {message}"
  onBatch (executor.validateTransactionWithState tx sender)
  let progress ← read
  match executor.runMachine tx sender progress.batch with
  | .error message => fail message
  | .ok (value, failed, changes) => do
      let success := succeeded value failed
      let eip161 : Bool := .spuriousDragon ≤ executor.fork
      modify fun progress =>
        { progress with cumulativeGasUsed := progress.cumulativeGasUsed + value.usedGas }
      onBatch (StateApplier.applyChangeset changes eip161 executor.stateRoot)
      let _ ← onBatch (account executor.beneficiary executor.stateRoot)
      let intermediateRoot ← onBatch (calculateStateRoot eip161 executor.stateRoot)
      let logs := if success then changes.logs else []
      let progress ← read
      return {
        gasUsed := value.usedGas
        receipt := {
          txType := tx.ty
          status := if .byzantium ≤ executor.fork then .eip658 success
            else .postState intermediateRoot
          cumulativeGasUsed := progress.cumulativeGasUsed
          logs
          logsBloom := logsBloom logs }
        receiptMeta := ⟨contractAddress value success⟩ }

end TransactionExecutor

end WasixEth
