import WasixEth.Engine.State
import WasixEth.Execution.Executed

/-! # What the engine is connected to

The engine knows the execution provider by its functions and the few facts
about them it relies on, which `EthExecutionProvider` has. The clock, the
mempool and the blobs are what a call finds outside the engine.
-/

namespace WasixEth

open Storage

/-- Execution works on a batch that is committed at the end or dropped, so a
failed one changes nothing. It never touches the number or the parent of a
block, and it fails when no batch can be begun. -/
structure ExecutionProvider [BlockHashing] where
  /-- `execute_block_with_state_root(block, true, state_root)`. -/
  executeBlockWithStateRoot : Faults → Database → Block → Option B256 →
    Except String ExecutedBlock × StateTables
  executeBlockForPayload : Database → List Transaction → Header → PayloadAttributes → Option Nat →
    Except String ExecutedBlock
  state_of_error : ∀ {faults database block root message state},
    executeBlockWithStateRoot faults database block root = (.error message, state) →
    state = database.state
  error_of_now : ∀ {faults database block root}, faults.now = true →
    ∃ message, (executeBlockWithStateRoot faults database block root).1 = .error message
  header_of_ok : ∀ {faults database block root executed state},
    executeBlockWithStateRoot faults database block root = (.ok executed, state) →
    executed.block.header.number = block.header.number ∧
      executed.block.header.parentHash = block.header.parentHash
  header_of_payload : ∀ {database transactions parent attributes baseFee executed},
    executeBlockForPayload database transactions parent attributes baseFee = .ok executed →
    executed.block.header.number = parent.number + 1 ∧
      executed.block.header.parentHash = hashSlow parent

/-- `execute_block_with_commit(block, true)`: the state root comes from the
parent. -/
def ExecutionProvider.executeBlockWithCommit [BlockHashing] (execution : ExecutionProvider)
    (faults : Faults) (database : Database) (block : Block) :
    Except String ExecutedBlock × StateTables :=
  execution.executeBlockWithStateRoot faults database block none

/-- The parts of a node that do not change. -/
structure Node [BlockHashing] where
  config : ChainConfig
  execution : ExecutionProvider
  generatePayloadId : B256 → PayloadAttributes → PayloadId

section Eth

variable [Keccak256] [BlockHashing] [Proofs] [Evm]

open EthExecutionProvider

/-- The execution provider of a node. -/
def EthExecutionProvider.executionProvider (provider : EthExecutionProvider) :
    ExecutionProvider where
  executeBlockWithStateRoot := provider.executeBlockWithStateRoot
  executeBlockForPayload := provider.executeBlockForPayload
  state_of_error := by
    intro faults database block root message state h
    unfold executeBlockWithStateRoot at h
    split at h
    · cases h
      rfl
    · dsimp only at h
      split at h
      · cases h
        rfl
      · split at h
        · cases h
          rfl
        · cases h
  error_of_now := by
    intro faults database block root h
    rw [executeBlockWithStateRoot, if_pos h]
    exact ⟨_, rfl⟩
  header_of_ok := by
    intro faults database block root executed state h
    unfold executeBlockWithStateRoot at h
    split at h
    · cases h
    · dsimp only at h
      split at h
      · cases h
      next hresult =>
        split at h
        · cases h
        · cases h
          obtain ⟨_, computed, _, _, hfinalized, _⟩ := exists_computed hresult
          exact header_of_finalizeBlockHeader hfinalized
  header_of_payload := by
    intro database transactions parent attributes baseFee executed h
    obtain ⟨_, computed, _, _, hfinalized, _⟩ := exists_computed h
    exact header_of_finalizeBlockHeader hfinalized

def ethNode (provider : EthExecutionProvider) (generatePayloadId : B256 → PayloadAttributes →
    PayloadId) : Node where
  config := provider.config
  execution := provider.executionProvider
  generatePayloadId

end Eth

/-- What one call finds outside the engine. -/
structure Outside where
  now : Nat
  bestTransactions : List Transaction
  hasBlob : B256 → Bool

end WasixEth
