import WasixEth.ChainConfig
import WasixEth.Storage.Database

/-! # Consensus rules

The checks a header must pass against its parent, a body against its header,
and an executed block against what execution computed. Roots over lists of
transactions, receipts and withdrawals come from outside and are instance
arguments, as is the hash of a list of ommers.
-/

namespace WasixEth

/-- The roots a header commits to. -/
class Proofs where
  calculateTransactionRoot : List Transaction → B256
  calculateReceiptRoot : List Receipt → B256
  calculateWithdrawalsRoot : List Withdrawal → B256
  ommersHash : List Header → B256

export Proofs (calculateTransactionRoot calculateReceiptRoot calculateWithdrawalsRoot ommersHash)

namespace EthConsensus

variable [BlockHashing] [Proofs]

def calculateNextBaseFee (parent : Header) : Option Nat := do
  let baseFee ← parent.baseFeePerGas
  let target := parent.gasLimit / 2
  if parent.gasUsed = target then some baseFee
  else if target < parent.gasUsed then
    let delta := baseFee * (parent.gasUsed - target) / target / 8
    some (baseFee + max (delta % 2 ^ 64) 1)
  else
    let delta := baseFee * (target - parent.gasUsed) / target / 8
    some (baseFee - delta % 2 ^ 64)

section Header

variable (header parent : Header) (parentFork currentFork : Hardfork)

def validateTimestamp (now : Nat) : Except String Unit := do
  if header.timestamp ≤ parent.timestamp then
    throw (s!"Invalid timestamp: must be greater than parent " ++
      s!"({header.timestamp} <= {parent.timestamp})")
  if now + 15 < header.timestamp then
    throw s!"Invalid timestamp: block is too far in the future ({header.timestamp} > {now} + 15)"

def validateGasLimit : Except String Unit := do
  if header.gasLimit < 5000 then
    throw s!"Gas limit too low: {header.gasLimit} < 5000"
  -- The parent's gas limit doubles at the London transition.
  let transition : Bool := parentFork < .london && Hardfork.london ≤ currentFork
  let target := if transition then parent.gasLimit * 2 else parent.gasLimit
  let diff := if target < header.gasLimit then header.gasLimit - target
    else target - header.gasLimit
  if target / 1024 ≤ diff then
    throw (s!"Invalid gas limit change: parent={parent.gasLimit}, current={header.gasLimit}, " ++
      s!"diff={diff}, max_diff={target / 1024 - 1}, is_london_transition={transition}")
  if header.gasLimit < header.gasUsed then
    throw s!"Gas used exceeds gas limit: used={header.gasUsed}, limit={header.gasLimit}"

def validateBaseFee : Except String Unit := do
  if Hardfork.london ≤ currentFork then
    match header.baseFeePerGas with
    | none => throw "Base fee missing in post-London block"
    | some actual =>
        -- The initial fee of the transition block is unreachable: without a
        -- base fee in the parent there is nothing to compare with.
        match calculateNextBaseFee parent with
        | none => pure ()
        | some expected =>
            if actual ≠ expected then
              throw s!"Invalid base fee: expected {expected}, got {actual}"

def validateMerge : Except String Unit := do
  if Hardfork.paris ≤ currentFork then
    if header.difficulty ≠ 0 then
      throw s!"Post-merge block must have difficulty 0, got {header.difficulty.toNat}"
    if header.nonce ≠ 0 then
      throw s!"Post-merge block must have nonce 0, got 0x{(BitVec.ofNat 64 header.nonce).toHex}"
    if header.ommersHash ≠ ommersHash [] then
      throw s!"Post-merge block must have empty ommers hash, got {header.ommersHash}"

/-- The fields of a fork are there if and only if the fork is active. -/
def validatePresence (name field : String) (active present : Bool) : Except String Unit := do
  if active && !present then throw s!"{name} active: {field} must be Some"
  if !active && present then throw s!"{name} not active: {field} must be None"

def validateBlobGas (config : ChainConfig) : Except String Unit := do
  let active := currentFork.isCancunActive
  validatePresence "Cancun" "blob_gas_used" active header.blobGasUsed.isSome
  validatePresence "Cancun" "excess_blob_gas" active header.excessBlobGas.isSome
  validatePresence "Cancun" "parent_beacon_block_root" active header.parentBeaconBlockRoot.isSome
  if active then
    let params := currentFork.blobParams config
    let target := (params.map fun p => p.targetBlobCount * dataGasPerBlob).getD
      targetBlobGasPerBlock
    let maximum := (params.map fun p => p.maxBlobCount * dataGasPerBlob).getD maxBlobGasPerBlock
    if parentFork.isCancunActive then
      let expected := calcExcessBlobGas parent.excessBlobGas parent.blobGasUsed target
      if header.excessBlobGas.getD 0 ≠ expected then
        throw s!"Invalid excess blob gas: expected {expected}, got {header.excessBlobGas.getD 0}"
    else if header.excessBlobGas.getD 0 ≠ 0 then
      throw (s!"Invalid excess blob gas for Cancun transition: expected 0, " ++
        s!"got {header.excessBlobGas.getD 0}")
    if maximum < header.blobGasUsed.getD 0 then
      throw s!"Blob gas used exceeds maximum: used={header.blobGasUsed.getD 0}, max={maximum}"

end Header

/-- `validate_header`, with the clock and the total difficulties as they are
at the time of the call. -/
def validateHeader (config : ChainConfig) (headerTd : Table B256 U256) (now : Nat)
    (header parent : Header) : Except String Unit := do
  if header.number ≠ parent.number + 1 then
    throw s!"Invalid block number: expected {parent.number + 1}, got {header.number}"
  validateTimestamp header parent now
  let td := headerTd.get (hashSlow parent)
  let parentFork :=
    Hardfork.getActiveForkWithTotalDifficulty config parent.number parent.timestamp td
  let currentFork :=
    Hardfork.getActiveForkWithTotalDifficulty config header.number header.timestamp td
  validateGasLimit header parent parentFork currentFork
  if 32 < header.extraData.length then
    throw s!"Extra data too long: {header.extraData.length} > 32"
  validateBaseFee header parent currentFork
  validateMerge header currentFork
  validatePresence "Shanghai" "withdrawals_root" (Hardfork.shanghai ≤ currentFork)
    header.withdrawalsRoot.isSome
  validateBlobGas header parent parentFork currentFork config
  validatePresence "Prague" "requests_hash" (Hardfork.prague ≤ currentFork)
    header.requestsHash.isSome

def blobGasUsed (transactions : List Transaction) : Nat :=
  (transactions.map fun tx => tx.blobVersionedHashes.length * dataGasPerBlob).sum

def validateBody (config : ChainConfig) (headerTd : Table B256 U256) (block : Block) :
    Except String Unit := do
  let header := block.header
  let currentFork := Hardfork.getActiveForkWithTotalDifficulty config header.number
    header.timestamp (headerTd.get header.parentHash)
  let txRoot := calculateTransactionRoot block.body.transactions
  if txRoot ≠ header.transactionsRoot then
    throw s!"Invalid transactions root: expected {header.transactionsRoot}, got {txRoot}"
  let ommers := ommersHash block.body.ommers
  if ommers ≠ header.ommersHash then
    throw s!"Invalid ommers hash: expected {header.ommersHash}, got {ommers}"
  match block.body.withdrawals with
  | some withdrawals =>
      let root := some (calculateWithdrawalsRoot withdrawals)
      if root ≠ header.withdrawalsRoot then
        throw (s!"Invalid withdrawals root: expected {B256.debugOption header.withdrawalsRoot}, " ++
          s!"got {B256.debugOption root}")
  | none =>
      if header.withdrawalsRoot.isSome then
        throw "Withdrawals missing in body but present in header"
  let calculated := blobGasUsed block.body.transactions
  match header.blobGasUsed with
  | some used =>
      if calculated ≠ used then
        throw s!"Invalid blob gas used: expected {used}, got {calculated}"
  | none =>
      if 0 < calculated then
        throw "Blob transactions present but blob_gas_used is missing in header"
  if !(Hardfork.prague ≤ currentFork) && block.body.transactions.any (·.ty = 4) then
    throw "EIP-7702 transaction present before Prague activation"

/-- The header must say what execution computed. -/
def validateBlockPostExecution (block : Block) (cumulativeGasUsed : Nat) (receiptsRoot : B256)
    (logsBloom : Bloom) (calculatedStateRoot : B256) : Except String Unit := do
  if block.header.gasUsed ≠ cumulativeGasUsed then
    throw s!"Gas used mismatch: expected {block.header.gasUsed}, got {cumulativeGasUsed}"
  if block.header.receiptsRoot ≠ receiptsRoot then
    throw s!"Receipts root mismatch: expected {block.header.receiptsRoot}, got {receiptsRoot}"
  if block.header.logsBloom ≠ logsBloom then
    throw (s!"Logs bloom mismatch: expected 0x{block.header.logsBloom.toHex}, " ++
      s!"got 0x{logsBloom.toHex}")
  if block.header.stateRoot ≠ calculatedStateRoot then
    throw s!"State root mismatch: expected {block.header.stateRoot}, got {calculatedStateRoot}"

/-- Hashes are compared only where the caller names some. -/
def validateCancun (block : Block) (expectedBlobVersionedHashes : Option (List B256)) :
    Except String Unit := do
  match expectedBlobVersionedHashes with
  | none => pure ()
  | some expected =>
      let actual := block.body.transactions.flatMap (·.blobVersionedHashes)
      if actual ≠ expected then
        throw s!"Blob versioned hashes mismatch: expected {expected}, actual {actual}"

def validateParentBeaconBlockRoot (header : Header) (parentBeaconBlockRoot : Option B256) :
    Except String Unit := do
  match parentBeaconBlockRoot with
  | none => pure ()
  | some root =>
      if header.parentBeaconBlockRoot ≠ some root then
        throw (s!"Parent beacon block root mismatch: expected {root}, " ++
          s!"actual {B256.debugOption header.parentBeaconBlockRoot}")

/-! ## What a passed check says -/

theorem number_of_validateHeader {config : ChainConfig} {headerTd : Table B256 U256} {now : Nat}
    {header parent : Header} (h : validateHeader config headerTd now header parent = .ok ()) :
    header.number = parent.number + 1 := by
  by_contra hne
  simp [validateHeader, hne, throw, throwThe, MonadExceptOf.throw, bind, Except.bind] at h

end EthConsensus

end WasixEth
