import WasixEth.Engine.Node
import WasixEth.Engine.ReorgHandler

/-! # Building payloads

A payload is first built empty and then at once rebuilt from the mempool. The
background task that keeps rebuilding it is a sequence of later calls of
`maybeRebuildPayload`.
-/

namespace WasixEth.Engine

open Storage

variable [BlockHashing] (node : Node) (outside : Outside)

/-- What the sender of a transaction pays per unit of gas above the base fee. -/
def priorityFeePerGas (baseFee : Nat) (tx : Transaction) : Nat :=
  let effective := match tx.kind with
    | .legacy gasPrice => gasPrice
    | .eip2930 gasPrice => gasPrice
    | .eip1559 maxFee maxPriority => baseFee + min maxPriority (maxFee - baseFee)
    | .eip4844 maxFee maxPriority _ _ => baseFee + min maxPriority (maxFee - baseFee)
    | .eip7702 maxFee maxPriority _ => baseFee + min maxPriority (maxFee - baseFee)
  effective - baseFee

/-- The tips of the transactions, from the gas each of them added. -/
def tips (baseFee : Nat) : Nat → List (Transaction × Receipt) → U256
  | _, [] => 0
  | previous, (tx, receipt) :: rest =>
      BitVec.ofNat 256 ((receipt.cumulativeGasUsed - previous) * priorityFeePerGas baseFee tx) +
        tips baseFee receipt.cumulativeGasUsed rest

def calculateBlockValue (block : Block) (receipts : List Receipt) : U256 :=
  tips (block.header.baseFeePerGas.getD 0) 0 (block.body.transactions.zip receipts)

def addPayload (faults : Faults) (engine : Engine) (id : PayloadId) (built : ExecutedBlock) :
    Except String Unit × Engine :=
  engine.write faults { engine with
    chain := engine.chain.addPayload id ⟨built.block, built.receipts, built.metas⟩ }

/-- The block to build on. Here an error of the first read is not passed over. -/
def parentBlock (faults : Faults) (engine : Engine) (hash : B256) : Option Block :=
  if (faults.part 0).now then none
  else (engine.chain.blockByHash Faults.none hash).or
    ((engine.chain.getPayloadByBlockHash (faults.part 1) hash).map (·.block))

/-- The attributes a payload was built from. -/
def attributesOf (block : Block) : PayloadAttributes where
  timestamp := block.header.timestamp
  prevRandao := block.header.mixHash
  suggestedFeeRecipient := block.header.beneficiary
  withdrawals := block.body.withdrawals
  parentBeaconBlockRoot := block.header.parentBeaconBlockRoot

/-- The rebuilt block replaces the payload if it is worth more, or as much
with no fewer transactions, or if the payload is empty. -/
def replaces (built : ExecutedBlock) (payload : Payload) : Bool :=
  let newValue := calculateBlockValue built.block built.receipts
  let oldValue := calculateBlockValue payload.block payload.receipts
  oldValue < newValue ||
    (newValue = oldValue &&
      payload.block.body.transactions.length ≤ built.block.body.transactions.length) ||
    payload.block.body.transactions.isEmpty

/-- The payload stays as it is when anything fails. -/
def maybeRebuildPayload (faults : Faults) (engine : Engine) (id : PayloadId) : Engine :=
  match (faults.part 0).read (engine.chain.getPayload id) with
  | none => engine
  | some payload =>
      match parentBlock (faults.part 1) engine payload.block.header.parentHash with
      | none => engine
      | some parent =>
          let transactions := outside.bestTransactions
          if transactions.map txHash = payload.block.body.transactions.map txHash then engine
          else if transactions = [] ∧ payload.block.body.transactions ≠ [] then engine
          else match node.execution.executeBlockForPayload engine.database transactions parent.header
              (attributesOf payload.block)
              (EthConsensus.calculateNextBaseFee parent.header) with
            | .error _ => engine
            | .ok built =>
                if replaces built payload &&
                    (built.block.body.transactions.flatMap (·.blobVersionedHashes)).all
                      outside.hasBlob then
                  (engine.addPayload (faults.part 2) id built).2
                else engine

def buildEmptyPayload (faults : Faults) (engine : Engine) (head : B256)
    (attributes : PayloadAttributes) (id : PayloadId) : Except String Unit × Engine :=
  match parentBlock (faults.part 0) engine head with
  | none => (.error s!"Head block not found for empty payload building: {head}", engine)
  | some parent =>
      match node.execution.executeBlockForPayload engine.database [] parent.header attributes
          (EthConsensus.calculateNextBaseFee parent.header) with
      | .error message => (.error message, engine)
      | .ok built => engine.addPayload (faults.part 1) id built

/-- A payload that is already there under the id is returned as it is. -/
def buildNewPayload (faults : Faults) (engine : Engine) (head : B256)
    (attributes : PayloadAttributes) : Option PayloadId × Engine :=
  let id := node.generatePayloadId head attributes
  if ((faults.part 0).read (engine.chain.getPayload id)).isSome then (some id, engine)
  else match parentBlock (faults.part 1) engine head with
    | none => (none, engine)
    | some parent =>
        if attributes.timestamp ≤ parent.header.timestamp then (none, engine)
        else match engine.buildEmptyPayload node (faults.part 2) head attributes id with
          | (.error _, engine) => (none, engine)
          | (.ok (), engine) => (some id, engine.maybeRebuildPayload node outside (faults.part 3) id)

end WasixEth.Engine
