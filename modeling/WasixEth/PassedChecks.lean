import WasixEth.Consensus
import WasixEth.Lib.Guards

/-! # What a passed check says

Each check of a header or of a body passes if and only if a condition on the
fields holds.
-/

namespace WasixEth

theorem Hardfork.not_le {a b : Hardfork} : ¬ a ≤ b ↔ b < a :=
  Nat.not_le

/-! ## The fork with and without total difficulty -/

/-- The total difficulty makes a difference only before the merge. -/
theorem Hardfork.withTotalDifficulty_cases (config : ChainConfig) (number timestamp : Nat)
    (td : Option U256) :
    getActiveForkWithTotalDifficulty config number timestamp td =
        getActiveFork config number timestamp ∨
      getActiveFork config number timestamp < .paris ∧
        getActiveForkWithTotalDifficulty config number timestamp td = .paris := by
  unfold getActiveFork getActiveForkWithTotalDifficulty
  dsimp only
  generalize lastActive number timestamp .frontier
    (config.forks.insertionSort ForkPoint.le) = active
  by_cases hparis : active < .paris
  · cases config.terminalTotalDifficulty with
    | none => exact .inl rfl
    | some ttd =>
        cases td with
        | none => exact .inl rfl
        | some td =>
            by_cases hreached : ttd ≤ td
            · simp [hparis, hreached]
            · simp [hparis, hreached]
  · simp [hparis]

/-- Forks after the merge are told by the clock alone. -/
theorem Hardfork.le_withTotalDifficulty {config : ChainConfig} {number timestamp : Nat}
    {td : Option U256} {fork : Hardfork} (hfork : .paris < fork) :
    fork ≤ getActiveForkWithTotalDifficulty config number timestamp td ↔
      fork ≤ getActiveFork config number timestamp := by
  rcases withTotalDifficulty_cases config number timestamp td with heq | ⟨hbefore, heq⟩
  · rw [heq]
  · rw [heq]
    constructor
    · intro hle
      exact absurd hfork (Nat.not_lt.mpr hle)
    · intro hle
      exact absurd (Nat.lt_of_lt_of_le hfork hle) (Nat.not_lt.mpr (Nat.le_of_lt hbefore))

/-! ## The checks -/

namespace EthConsensus

open Guards

section Header

variable {header parent : Header} {parentFork currentFork : Hardfork} {now : Nat}

theorem validateBaseFee_ok :
    validateBaseFee header parent currentFork = .ok () ↔
      (Hardfork.london ≤ currentFork → ∃ actual, header.baseFeePerGas = some actual ∧
        ∀ expected, calculateNextBaseFee parent = some expected → actual = expected) := by
  simp only [validateBaseFee, when_ok]
  apply imp_congr_right
  intro _
  cases header.baseFeePerGas with
  | none => simp [throw_ok]
  | some actual =>
      cases calculateNextBaseFee parent with
      | none => simp [pure_ok]
      | some expected =>
          simp only [guard_ok, pure_ok, ne_eq, not_not, and_true]
          simp

theorem validateMerge_ok [Proofs] :
    validateMerge header currentFork = .ok () ↔
      (Hardfork.paris ≤ currentFork →
        header.difficulty = 0 ∧ header.nonce = 0 ∧ header.ommersHash = ommersHash []) := by
  simp only [validateMerge, throw_bind, guard_ok, when_ok, pure_ok, ne_eq, not_not, and_true]

theorem validatePresence_ok {name field : String} {active present : Bool} :
    validatePresence name field active present = .ok () ↔ present = active := by
  cases active <;> cases present <;>
    simp [validatePresence, throw_ok, pure_ok]

/-- The limits on blob gas of the current fork. -/
def blobTarget (config : ChainConfig) (fork : Hardfork) : Nat :=
  ((fork.blobParams config).map fun p => p.targetBlobCount * dataGasPerBlob).getD
    targetBlobGasPerBlock

def blobMaximum (config : ChainConfig) (fork : Hardfork) : Nat :=
  ((fork.blobParams config).map fun p => p.maxBlobCount * dataGasPerBlob).getD maxBlobGasPerBlock

/-- The excess blob gas a header must have after Cancun. -/
def expectedExcess (config : ChainConfig) (parent : Header)
    (parentFork currentFork : Hardfork) : Nat :=
  if parentFork.isCancunActive then
    calcExcessBlobGas parent.excessBlobGas parent.blobGasUsed (blobTarget config currentFork)
  else 0

theorem validateBlobGas_ok {config : ChainConfig} :
    validateBlobGas header parent parentFork currentFork config = .ok () ↔
      header.blobGasUsed.isSome = currentFork.isCancunActive ∧
      header.excessBlobGas.isSome = currentFork.isCancunActive ∧
      header.parentBeaconBlockRoot.isSome = currentFork.isCancunActive ∧
      (currentFork.isCancunActive →
        header.excessBlobGas.getD 0 = expectedExcess config parent parentFork currentFork ∧
        header.blobGasUsed.getD 0 ≤ blobMaximum config currentFork) := by
  simp only [validateBlobGas, bind_ok, when_ok, validatePresence_ok]
  cases hparent : parentFork.isCancunActive <;>
    simp only [expectedExcess, blobTarget, blobMaximum, hparent, throw_bind, guard_ok, pure_ok,
      ne_eq, not_not, not_lt, and_true, if_true, if_false, Bool.false_eq_true]

end Header

section Whole

variable [BlockHashing] [Proofs] {config : ChainConfig} {headerTd : Table B256 U256} {now : Nat}
  {header parent : Header}

/-- The fork of a child of a block, as the validators see it. -/
def childFork (config : ChainConfig) (headerTd : Table B256 U256) (parent : Header)
    (timestamp : Nat) : Hardfork :=
  Hardfork.getActiveForkWithTotalDifficulty config (parent.number + 1) timestamp
    (headerTd.get (hashSlow parent))

/-- The fork of a block, judged by the total difficulty up to it. -/
def ownFork (config : ChainConfig) (headerTd : Table B256 U256) (header : Header) : Hardfork :=
  Hardfork.getActiveForkWithTotalDifficulty config header.number header.timestamp
    (headerTd.get (hashSlow header))

theorem validateHeader_ok :
    validateHeader config headerTd now header parent = .ok () ↔
      header.number = parent.number + 1 ∧
      validateTimestamp header parent now = .ok () ∧
      validateGasLimit header parent (ownFork config headerTd parent)
        (childFork config headerTd parent header.timestamp) = .ok () ∧
      header.extraData.length ≤ 32 ∧
      validateBaseFee header parent (childFork config headerTd parent header.timestamp) = .ok () ∧
      validateMerge header (childFork config headerTd parent header.timestamp) = .ok () ∧
      header.withdrawalsRoot.isSome =
        decide (.shanghai ≤ childFork config headerTd parent header.timestamp) ∧
      validateBlobGas header parent (ownFork config headerTd parent)
        (childFork config headerTd parent header.timestamp) config = .ok () ∧
      header.requestsHash.isSome =
        decide (.prague ≤ childFork config headerTd parent header.timestamp) := by
  by_cases hnumber : header.number = parent.number + 1
  · simp only [validateHeader, childFork, ownFork, hnumber, throw_bind, guard_ok, bind_ok,
      validatePresence_ok, ne_eq, not_lt, not_true_eq_false, if_false, true_and]
    exact Iff.rfl
  · simp [validateHeader, hnumber, throw_ok, throw_bind]

omit [BlockHashing] in
theorem validateBody_ok {block : Block} :
    validateBody config headerTd block = .ok () ↔
      calculateTransactionRoot block.body.transactions = block.header.transactionsRoot ∧
      ommersHash block.body.ommers = block.header.ommersHash ∧
      block.body.withdrawals.map calculateWithdrawalsRoot = block.header.withdrawalsRoot ∧
      blobGasUsed block.body.transactions = block.header.blobGasUsed.getD 0 ∧
      (¬ .prague ≤ Hardfork.getActiveForkWithTotalDifficulty config block.header.number
          block.header.timestamp (headerTd.get block.header.parentHash) →
        ∀ tx ∈ block.body.transactions, tx.ty ≠ 4) := by
  have hwithdrawals : ∀ root : Option B256, ¬ root.isSome = true ↔ none = root := by
    intro root
    cases root <;> simp
  have hblobs : ∀ used : Nat, ¬ 0 < used ↔ used = 0 := by
    intro used
    omega
  have hprague : ∀ (active : Prop) [Decidable active] (transactions : List Transaction),
      ¬ (!decide active && transactions.any (·.ty = 4)) = true ↔
        (¬ active → ∀ tx ∈ transactions, tx.ty ≠ 4) := by
    intro active _ transactions
    simp
  simp only [validateBody, throw_bind, guard_ok, ne_eq, not_not]
  apply and_congr_right
  intro _
  apply and_congr_right
  intro _
  cases block.body.withdrawals <;> cases block.header.blobGasUsed <;>
    simp only [guard_ok, pure_ok, not_not, and_true, hwithdrawals, hblobs, hprague,
      Option.map_none, Option.map_some, Option.getD_none, Option.getD_some, ne_eq]

end Whole

end EthConsensus

end WasixEth
