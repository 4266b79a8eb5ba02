import WasixEth.Mempool.Pool

/-! # Submitting transactions

The way a transaction takes into the mempool from the network or a caller, and
the runs of the mempool under its operations.
-/

namespace WasixEth

open Mempool

/-- The errors of `RpcError` that a submission can end in. -/
inductive SubmissionError where
  | invalidParams (message : String)
  | internal (message : String)
  deriving DecidableEq

/-- What submission reads from storage at the current head. -/
structure ReadStorage where
  chainId : Except String Nat
  chainConfig : Option ChainConfig
  latestHeader : Option Header
  transactionCount : Address → Option Nat

namespace ReadStorage

def configOr (storage : ReadStorage) (networkChainId : Nat) : ChainConfig :=
  storage.chainConfig.getD { (default : ChainConfig) with chainId := networkChainId }

/-- The fork at the latest header, if there is one. -/
def currentFork (storage : ReadStorage) (networkChainId : Nat) : Option Hardfork :=
  storage.latestHeader.map fun header =>
    Hardfork.getActiveFork (storage.configOr networkChainId) header.number header.timestamp

end ReadStorage

/-- The checks of a transaction that come before the mempool. -/
def checkSubmission (storage : ReadStorage) (tx : Transaction) : Except SubmissionError Unit := do
  let networkChainId ←
    match storage.chainId with
    | .ok chainId => pure chainId
    | .error message => throw (.internal message)
  match tx.chainId with
  | none => pure ()
  | some chainId =>
      if chainId ≠ networkChainId then
        throw (.invalidParams s!"Invalid chain ID: expected {networkChainId}, got {chainId}")
  match storage.currentFork networkChainId with
  | none => pure ()
  | some fork =>
      if tx.ty = 4 ∧ fork < .prague then
        throw (.invalidParams "EIP-7702 transactions are not supported in this fork")
      if .shanghai ≤ fork ∧ tx.toAddress.isNone ∧ maxInitCodeSize < tx.input.length then
        throw (.invalidParams
          s!"Initcode size exceeds maximum limit ({tx.input.length} > {maxInitCodeSize})")

/-- The nonce behind the transactions that follow on from `expected`. -/
def nonceAfter : List Transaction → Nat → Nat
  | [], expected => expected
  | tx :: rest, expected =>
      if tx.nonce = expected then nonceAfter rest (nextNonce expected)
      else if expected < tx.nonce then expected
      else nonceAfter rest expected

def Mempool.nonceLookup (pool : Mempool) (address : Address) (stateNonce : Nat) : Nat :=
  nonceAfter (pool.queue true address) stateNonce

variable [BlockHashing] [Evm]

/-- The answer to a submission, and the sender that is to be revalidated. -/
structure Submitted where
  result : Except SubmissionError B256
  revalidates : Option Address

def submitTransactionWithSource (storage : ReadStorage) (pool : Mempool) (tx : Transaction)
    (isLocal : Bool) (roll : UInt8) : Mempool × Option Submitted :=
  match checkSubmission storage tx with
  | .error e => (pool, some ⟨.error e, none⟩)
  | .ok () =>
      let sender := senderOf tx
      let stateNonce := (storage.transactionCount sender).getD 0
      let nextPending := pool.nonceLookup sender stateNonce
      let (pool, added) := pool.addTransaction tx stateNonce roll
      match added with
      | none => (pool, none)
      | some true => (pool, some ⟨.ok (txHash tx), none⟩)
      | some false =>
          if isLocal then
            let latest := (storage.transactionCount sender).getD stateNonce
            if tx.nonce < latest then
              let message := s!"Nonce too low: expected {latest}, got {tx.nonce}"
              (pool, some ⟨.error (.invalidParams message), none⟩)
            else
              let expected := max stateNonce nextPending
              let message := s!"Nonce too low: expected {expected}, got {tx.nonce}"
              (pool, some ⟨.error (.invalidParams message),
                if nextPending < stateNonce then some sender else none⟩)
          else (pool, some ⟨.ok (txHash tx), none⟩)

/-- The blobs of a sidecar under their versioned hashes, as far as it has them. -/
def addBlobs (sidecar : BlobTransactionSidecar) :
    Nat → List B256 → Table B256 BlobEntry → Table B256 BlobEntry
  | _, [], blobs => blobs
  | i, hash :: hashes, blobs =>
      match sidecar.blobs[i]?, sidecar.commitments[i]?, sidecar.proofs[i]? with
      | some blob, some commitment, some proof =>
          addBlobs sidecar (i + 1) hashes (blobs.insert hash ⟨blob, commitment, proof⟩)
      | _, _, _ => addBlobs sidecar (i + 1) hashes blobs

/-- What is stored of an envelope before the transaction is submitted. -/
def Mempool.store (pool : Mempool) (pooled : TxPooledEnvelope) (data : Bytes) : Mempool :=
  { pool with
    pooledEnvelopes := pool.pooledEnvelopes.insert (txHash pooled.tx) pooled
    pooledBytes := pool.pooledBytes.insert (txHash pooled.tx) data
    blobs :=
      match pooled.sidecar with
      | some sidecar => addBlobs sidecar 0 pooled.tx.blobVersionedHashes pool.blobs
      | none => pool.blobs }

def importPooledTransactionWithSource (storage : ReadStorage) (pool : Mempool)
    (pooled : TxPooledEnvelope) (data : Bytes) (isLocal : Bool) (roll : UInt8) :
    Mempool × Option Submitted :=
  submitTransactionWithSource storage (pool.store pooled data) pooled.tx isLocal roll

/-! ## Runs -/

/-- An operation on the mempool. The maps may change their order at any time. -/
inductive MempoolOp where
  | addTransaction (tx : Transaction) (currentNonce : Nat) (roll : UInt8)
  | promoteQueued (address : Address) (nextExpectedNonce : Nat)
  | removeTransactions (hashes : List B256)
  | popTransactions (n : Nat)
  | enforceCapacity (maxSize : Nat)
  | updateBaseFee (newBaseFee : Nat) (accounts : Accounts)
  | revalidate (accounts : Accounts) (addresses : Option (List Address))
  | clear
  | importPooled (storage : ReadStorage) (pooled : TxPooledEnvelope) (data : Bytes)
      (isLocal : Bool) (roll : UInt8)
  | submit (storage : ReadStorage) (tx : Transaction) (isLocal : Bool) (roll : UInt8)

/-- The mempool after an operation. -/
def Mempool.apply (pool : Mempool) : MempoolOp → Mempool
  | .addTransaction tx currentNonce roll => (pool.addTransaction tx currentNonce roll).1
  | .promoteQueued address nonce => pool.promoteQueued address nonce
  | .removeTransactions hashes => pool.removeTransactions hashes
  | .popTransactions n => (pool.popTransactions n).1
  | .enforceCapacity maxSize => (pool.enforceCapacity maxSize).1
  | .updateBaseFee newBaseFee accounts => (pool.updateBaseFee newBaseFee accounts).1
  | .revalidate accounts addresses => (pool.revalidate accounts addresses).1
  | .clear => pool.clear
  | .importPooled storage pooled data isLocal roll =>
      (importPooledTransactionWithSource storage pool pooled data isLocal roll).1
  | .submit storage tx isLocal roll =>
      (submitTransactionWithSource storage pool tx isLocal roll).1

/-- Another order of iteration. -/
def Mempool.Rehashed (pool pool' : Mempool) : Prop :=
  ∃ pending queued, pool.pendingTransactions.Rehashed pending ∧
    pool.queuedTransactions.Rehashed queued ∧
    pool' = { pool with pendingTransactions := pending, queuedTransactions := queued }

/-- Every pool that operations lead to, starting from an empty one. -/
inductive Mempool.Reachable : Mempool → Prop
  | new (baseFee : Nat) : Reachable (new baseFee)
  | apply {pool : Mempool} (op : MempoolOp) : Reachable pool → Reachable (pool.apply op)
  | rehash {pool pool' : Mempool} : pool.Rehashed pool' → Reachable pool → Reachable pool'

end WasixEth
