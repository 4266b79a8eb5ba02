import WasixEth.Execution.Inclusions

/-! # What the receipts of a block say

A block comes with one receipt for each of its transactions. A receipt says how
the machine ended and how much gas the block had used by then. Two things go
wrong on the way: an end by self-destruction is recorded as a failure, and the
gas of a transaction that is dropped while its changes are written stays
counted.
-/

namespace WasixEth.EthExecutionProvider

open Storage Routine BatchWriter TransactionExecutor

/-! ## Blooms -/

section Blooms

variable [Keccak256]

end Blooms

section Receipts

variable [Keccak256] [Evm]

/-! ## What the machine answered -/

/-- What the machine answered, for a transaction that was given to it. -/
def answer (executor : TransactionExecutor) (tx : Transaction) (progress : Progress) :
    Option (Except ExitError TransactValue × OverlayedChangeSet) :=
  match Evm.recoverSigner tx with
  | .error _ => none
  | .ok sender =>
      match executor.handlePreExecution tx sender
          (executor.prepareBackend tx sender progress.batch) with
      | .error _ => none
      | .ok overlay => some (Evm.transact (executor.prepareTransactArgs tx sender) overlay)

variable {executor : TransactionExecutor}

variable {progress : Progress} {transactions : List Transaction} {executed : ExecutedBlock}

variable [Proofs]

end Receipts

section Sample

attribute [local instance] keccak keccakHashing keccakProofs

/-- A machine that ends every transaction in this way, after it has logged
something. -/
@[reducible] def endingEvm (exit : ExitSucceed) : Evm :=
  { fundlessEvm with
    transact := fun _ _ => (.ok ⟨.call exit [], 21000⟩,
      ⟨[⟨default, [], []⟩], [], [], [], [], [], [], []⟩) }

@[reducible] def stoppingEvm : Evm := endingEvm .stopped

@[reducible] def destroyingEvm : Evm := endingEvm .suicided

section Stopping

attribute [local instance] stoppingEvm

end Stopping

section Destroying

attribute [local instance] destroyingEvm

end Destroying

end Sample

end WasixEth.EthExecutionProvider
