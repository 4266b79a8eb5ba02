import WasixEth.Engine.Calls
import WasixEth.Execution.Included

/-! # The blocks a node builds

A built block is checked by the same validators as any other. The builder
knows the fork of the block without the total difficulty, copies the gas limit
of the parent and never fills in the requests.
-/

namespace WasixEth

namespace EthExecutionProvider

open Storage Routine EthConsensus

/-! ## The header of a built block -/

section Header

variable [Proofs]

variable [Keccak256] [BlockHashing] [Evm] {provider : EthExecutionProvider} {database : Database}
  {transactions : List Transaction} {parent : Header} {attributes : PayloadAttributes}
  {baseFee : Option Nat} {executed : ExecutedBlock}

/-- The fork of the built block, as the builder sees it. -/
def builderFork (provider : EthExecutionProvider) (parent : Header)
    (attributes : PayloadAttributes) : Hardfork :=
  Hardfork.getActiveFork provider.config (parent.number + 1) attributes.timestamp

/-- The fork of the built block, as the validators see it. -/
def validatorFork (provider : EthExecutionProvider) (database : Database) (parent : Header)
    (attributes : PayloadAttributes) : Hardfork :=
  childFork provider.config database.chain.headerTd parent attributes.timestamp

omit [Proofs] [Keccak256] [Evm] in
theorem activeFork_payload (header : Header) (hnumber : header.number = parent.number + 1)
    (hparent : header.parentHash = hashSlow parent)
    (htime : header.timestamp = attributes.timestamp) :
    provider.activeFork database header = validatorFork provider database parent attributes := by
  unfold activeFork validatorFork childFork
  simp [hnumber, hparent, htime]

omit [Proofs] [Keccak256] [Evm] in
theorem le_validatorFork {fork : Hardfork} (hfork : .paris < fork) :
    fork ≤ validatorFork provider database parent attributes ↔
      fork ≤ builderFork provider parent attributes := by
  unfold validatorFork builderFork childFork
  exact Hardfork.le_withTotalDifficulty hfork

end Header

/-! ## What the validators make of it -/

section Checks

open Guards

theorem checkBlobGas_ok {provider : EthExecutionProvider} {fork : Hardfork} {header : Header}
    {transactions : List Transaction} :
    provider.checkBlobGas fork header transactions = .ok () ↔ (.cancun ≤ fork →
      blobGasUsed transactions ≤ blobMaximum provider.config fork ∧
        ∀ expected, header.blobGasUsed = some expected → expected = blobGasUsed transactions) := by
  simp only [checkBlobGas, when_ok, throw_bind, guard_ok, not_lt, blobMaximum]
  apply imp_congr_right
  intro _
  apply and_congr_right
  intro _
  cases header.blobGasUsed with
  | none => simp [pure_ok]
  | some expected =>
      simp only [guard_ok, pure_ok, ne_eq, not_not, and_true]
      simp

variable [BlockHashing] [Proofs] {provider : EthExecutionProvider} {database : Database}
  {transactions : List Transaction} {parent : Header} {attributes : PayloadAttributes}
  {baseFee : Option Nat} {included : Included} {gasUsed : Nat} {stateRoot : B256}

end Checks

/-! ## The node and its own blocks -/

section Own

variable [Keccak256] [BlockHashing] [Proofs] [Evm]

variable {provider : EthExecutionProvider} {database : Database}
  {transactions : List Transaction} {parent : Header} {attributes : PayloadAttributes}
  {baseFee : Option Nat}

end Own

section Sample

attribute [local instance] keccak keccakHashing keccakProofs idleEvm

/-- The chain of the samples, with every later fork active. -/
def pragueConfig : ChainConfig :=
  { sampleConfig with shanghaiTime := some 0, cancunTime := some 0, pragueTime := some 0 }

def pragueAttributes : PayloadAttributes :=
  ⟨12, B256.zero, Address.trailing 1, some [], some B256.zero⟩

end Sample

end EthExecutionProvider

end WasixEth
