import WasixEth.BlockCodec
import WasixEth.Engine.Forkchoice
import WasixEth.Engine.PayloadProcessor

/-! # Runs of the engine

Calls of `new_payload_internal` and `forkchoice_updated`, one after another,
from the database that genesis initialisation leaves.
-/

namespace WasixEth.Engine

open Storage

variable [BlockHashing]

/-- The database and the memory after `init_genesis`, with the accounts of the
genesis block in `state`. The genesis block is also among the payloads. -/
def initGenesis (block : Block) (state : StateTables) : Engine :=
  let hash := block.hash
  let chain : ChainTables :=
    { headers := (∅ : Table B256 Header).insert hash block.header
      headerNumbers := (∅ : Table B256 Nat).insert hash block.header.number
      headerTd := (∅ : Table B256 U256).insert hash block.header.difficulty
      blockBodies := (∅ : Table B256 BlockBody).insert hash block.body
      canonicalHeads := (∅ : Table Nat B256).insert block.header.number hash
      payloads := [(0, ⟨block, [], []⟩)]
      forkchoice := ⟨some hash, none, none⟩
      transactions := ∅
      transactionLookup := ∅
      receipts := ∅
      headerLog := [block.header] }
  { chain, state, canonical := CanonicalState.new chain, blockTree := BlockTree.empty }

/-- One call with its arguments and what it finds outside the engine. -/
inductive Call where
  | newPayload (outside : Outside) (block : Block) (expectedBlockHash : B256)
      (expectedBlobVersionedHashes : Option (List B256)) (parentBeaconBlockRoot : Option B256)
  | forkchoiceUpdated (outside : Outside) (state : ForkchoiceState)
      (attributes : Option PayloadAttributes) (version : Nat)

variable [Proofs] (node : Node)

/-- The engine after a call. -/
def step (engine : Engine) : Call → Engine
  | .newPayload outside block expectedBlockHash expected beaconRoot =>
      (engine.newPayloadInternal node outside block expectedBlockHash expected beaconRoot).2
  | .forkchoiceUpdated outside state attributes version =>
      (engine.forkchoiceUpdated node outside Faults.none state attributes version).2

def run (engine : Engine) (calls : List Call) : Engine := calls.foldl (step node) engine

variable {node}

@[simp] theorem run_nil (engine : Engine) : run node engine [] = engine := rfl

@[simp] theorem run_cons (engine : Engine) (call : Call) (rest : List Call) :
    run node engine (call :: rest) = run node (step node engine call) rest := rfl

theorem run_append (engine : Engine) (calls rest : List Call) :
    run node engine (calls ++ rest) = run node (run node engine calls) rest :=
  List.foldl_append

/-! ## The small chain -/

section Sample

attribute [local instance] keccak keccakProofs idleEvm

def sampleNode : Node := ethNode ⟨sampleConfig, .inOrder⟩ fun _ _ => 1

def sampleOutside : Outside := ⟨100, [], fun _ => false⟩

/-- The engine after genesis, with no accounts. -/
def sampleEngine : Engine := initGenesis (emptyBlock genesisHeader) ⟨∅, ∅, ∅, ∅, ∅, ∅, ∅⟩

def importBlock (header : Header) : Call :=
  .newPayload sampleOutside (emptyBlock header) (hashSlow header) none none

def chooseHead (hash : B256) : Call :=
  .forkchoiceUpdated sampleOutside ⟨hash, B256.zero, B256.zero⟩ none 1

end Sample

end WasixEth.Engine
