import WasixEth.BlockCodec
import WasixEth.Execution.Included

/-! # Admissible transactions

What a transaction has to satisfy before it may be executed, and how much of
that is checked. The nonce is, and the fee cap of a dynamic fee transaction.
The fee of the other types, the gas that is left in the block and the funds of
the sender are not: what the machine refuses for lack of funds is included as
a failed transaction.
-/

namespace WasixEth.EthExecutionProvider

open Storage Routine BatchWriter TransactionExecutor

section States

variable [Keccak256] [Evm]

/-- Each transaction with the progress of the block before it. -/
def transactionStates (executor : TransactionExecutor) :
    Progress → List Transaction → List (Transaction × Progress)
  | _, [] => []
  | progress, tx :: rest =>
      (tx, progress) ::
        transactionStates executor (executor.executeTransaction tx progress).state rest

variable {executor : TransactionExecutor} {progress : Progress}

end States

section Admissible

variable [Keccak256] [Evm]

variable {executor : TransactionExecutor} {header : Header} {tx : Transaction}
  {progress : Progress} {sender : Address}

variable [Proofs]

end Admissible

section Sample

attribute [local instance] keccak keccakHashing keccakProofs

/-- A machine that finds nobody able to pay. -/
@[reducible] def fundlessEvm : Evm where
  transact _ _ := (.error (.exception .outOfFund), ⟨[], [], [], [], [], [], [], []⟩)
  effectiveGasPrice args _ := match args.gasPrice with
    | .legacy gasPrice => gasPrice
    | .feeMarket _ maximum => maximum
  coinbaseReward _ _ := 0
  fakeExponential factor _ _ := factor
  recoverSigner _ := .ok (Address.trailing 7)
  beaconRootsCode := []

attribute [local instance] fundlessEvm

/-- A transaction that offers one wei for each unit of gas. -/
def cheapTransaction : Transaction :=
  { (default : Transaction) with kind := .legacy 1, gasLimit := 21000, toAddress := some default }

end Sample

end WasixEth.EthExecutionProvider
