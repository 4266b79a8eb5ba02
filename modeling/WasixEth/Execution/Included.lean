import WasixEth.Execution.Executed
import WasixEth.PassedChecks

/-! # The transactions of an executed block

What an executed block says about its transactions: each of them passed the
checks, and the gas of the block is what they used.
-/

namespace WasixEth.EthExecutionProvider

open Storage Routine BatchWriter

variable [Keccak256] [Evm] {provider : EthExecutionProvider}
  {executor : TransactionExecutor} {block : Block} {building : Bool} {progress : Progress}

omit [Keccak256] in
theorem executorFor_fork (provider : EthExecutionProvider) (database : Database) (header : Header)
    (stateRoot : Option B256) :
    (provider.executorFor database header stateRoot).fork =
      provider.activeFork database header := by
  unfold executorFor
  dsimp only

/-! ## Before the transactions -/

/-- What happens before the first transaction. -/
def openBlock (executor : TransactionExecutor) (header : Header) : ExecM Unit :=
  match header.parentBeaconBlockRoot with
  | some beaconRoot =>
      if .cancun ≤ executor.fork then
        onBatch (BlockProcessor.applyBeaconRoot beaconRoot header.timestamp executor.stateRoot)
      else pure ()
  | none => pure ()

/-- The transactions in turn, up to the last. -/
def runTransactions (executor : TransactionExecutor) (block : Block) (building : Bool) :
    ExecM Included := do
  openBlock executor block.header
  executeTransactions executor building ⟨[], [], []⟩ block.body.transactions

/-- What happens after the last transaction. -/
def closeBlock (provider : EthExecutionProvider) (executor : TransactionExecutor) (block : Block)
    (included : Included) : ExecM ComputedBlock := do
  liftCheck (provider.checkBlobGas executor.fork block.header included.transactions)
  onBatch (BlockProcessor.processWithdrawals executor.stateRoot
    (block.body.withdrawals.getD []))
  onBatch (BlockProcessor.applyBlockRewards executor.fork block.header.beneficiary
    block.body.ommers executor.stateRoot block.header.number)
  let root ← onBatch (calculateStateRoot (.spuriousDragon ≤ executor.fork) executor.stateRoot)
  let progress ← read
  return ⟨included.transactions, included.receipts, included.metas, progress.cumulativeGasUsed,
    root⟩

theorem computeBlock_eq (provider : EthExecutionProvider) (executor : TransactionExecutor)
    (block : Block) (building : Bool) :
    provider.computeBlock executor block building =
      openBlock executor block.header >>= fun _ =>
        executeTransactions executor building ⟨[], [], []⟩ block.body.transactions >>=
          fun included => closeBlock provider executor block included := by
  unfold computeBlock openBlock
  dsimp only
  cases block.header.parentBeaconBlockRoot with
  | none => rfl
  | some beaconRoot =>
      dsimp only
      split
      · rfl
      · rfl

omit [Evm] in
/-- The block ends with the gas its transactions used. -/
theorem of_closeBlock {included : Included} {computed : ComputedBlock}
    (h : (closeBlock provider executor block included progress).result = .ok computed) :
    provider.checkBlobGas executor.fork block.header included.transactions = .ok () ∧
      computed.transactions = included.transactions ∧ computed.receipts = included.receipts ∧
      computed.metas = included.metas ∧
      computed.cumulativeGasUsed = progress.cumulativeGasUsed := by
  unfold closeBlock at h
  obtain ⟨_, hblobs, h, -⟩ := exists_of_bind_ok h
  obtain ⟨_, -, h, -⟩ := exists_of_bind_ok h
  obtain ⟨_, -, h, -⟩ := exists_of_bind_ok h
  obtain ⟨root, -, h, -⟩ := exists_of_bind_ok h
  obtain ⟨last, hlast, h, -⟩ := exists_of_bind_ok h
  cases hlast
  cases h
  exact ⟨hblobs, rfl, rfl, rfl, rfl⟩

theorem of_computeBlock {computed : ComputedBlock}
    (h : (provider.computeBlock executor block building progress).result = .ok computed) :
    ∃ included, (runTransactions executor block building progress).result = .ok included ∧
      provider.checkBlobGas executor.fork block.header included.transactions = .ok () ∧
      computed.transactions = included.transactions ∧ computed.receipts = included.receipts ∧
      computed.metas = included.metas ∧
      computed.cumulativeGasUsed =
        (runTransactions executor block building progress).state.cumulativeGasUsed := by
  rw [computeBlock_eq] at h
  obtain ⟨_, hopen, h, -⟩ := exists_of_bind_ok h
  obtain ⟨included, hincluded, h, -⟩ := exists_of_bind_ok h
  obtain ⟨hresult, hstate⟩ := bind_of_ok hopen fun _ =>
    executeTransactions executor building ⟨[], [], []⟩ block.body.transactions
  refine ⟨included, hresult.trans hincluded, ?_⟩
  unfold runTransactions
  rw [hstate]
  exact of_closeBlock h

/-! ## The loop -/

omit [Evm] in
/-- Looking an account up writes nothing. -/
theorem reads_account (address : Address) (stateRoot : Option B256) :
    Reads (account address stateRoot) := by
  unfold account
  refine reads_bind (fun _ => rfl) ?_
  intro batch
  split
  · exact fun _ => rfl
  · split
    · exact fun _ => rfl
    · split
      · exact fun _ => rfl
      · refine reads_bind (fun _ => rfl) ?_
        intro key
        refine reads_bind (fun _ => rfl) ?_
        rintro ⟨found, _⟩
        cases found with
        | none => exact fun _ => rfl
        | some bytes =>
            refine reads_bind ?_ (fun _ _ => rfl)
            intro batch
            cases TrieAccount.decode bytes <;> rfl

omit [Evm] in
theorem of_validateTransactionWithState {tx : Transaction} {sender : Address}
    (h : (onBatch (executor.validateTransactionWithState tx sender) progress).result = .ok ()) :
    ∃ found, (account sender executor.stateRoot progress.batch).result = .ok found ∧
      executor.validateTransaction tx sender (found.getD .blank) = .ok () ∧
      (onBatch (executor.validateTransactionWithState tx sender) progress).state = progress := by
  unfold onBatch TransactionExecutor.validateTransactionWithState at h ⊢
  dsimp only at h ⊢
  obtain ⟨found, hfound, hvalid, hstate⟩ := exists_of_bind_ok h
  refine ⟨found, hfound, ?_⟩
  rw [hstate, reads_account]
  cases hcheck : executor.validateTransaction tx sender (found.getD .blank) with
  | error message =>
      rw [hcheck] at hvalid
      cases hvalid
  | ok _ => exact ⟨rfl, rfl⟩

/-- What is recorded of a transaction the machine has run. -/
def recordOf (executor : TransactionExecutor) (tx : Transaction) (value : TransactValue)
    (failed : Bool) (changes : OverlayedChangeSet) (cumulativeGasUsed : Nat) (root : B256) :
    TransactionExecutionResult :=
  let success := TransactionExecutor.succeeded value failed
  let logs := if success then changes.logs else []
  { gasUsed := value.usedGas
    receipt := {
      txType := tx.ty
      status := if .byzantium ≤ executor.fork then .eip658 success else .postState root
      cumulativeGasUsed
      logs
      logsBloom := logsBloom logs }
    receiptMeta := ⟨TransactionExecutor.contractAddress value success⟩ }

/-- A transaction that executes passed the checks against its sender's
account, and the machine ran on the state as it was. -/
theorem exists_recordOf_executeTransaction {tx : Transaction} {result : TransactionExecutionResult}
    (h : (executor.executeTransaction tx progress).result = .ok result) :
    ∃ sender found value failed changes root, Evm.recoverSigner tx = .ok sender ∧
      (account sender executor.stateRoot progress.batch).result = .ok found ∧
      executor.validateTransaction tx sender (found.getD .blank) = .ok () ∧
      executor.runMachine tx sender progress.batch = .ok (value, failed, changes) ∧
      result = recordOf executor tx value failed changes
        (progress.cumulativeGasUsed + value.usedGas) root ∧
      (executor.executeTransaction tx progress).state.cumulativeGasUsed =
        progress.cumulativeGasUsed + value.usedGas := by
  unfold TransactionExecutor.executeTransaction at h ⊢
  cases hsigner : Evm.recoverSigner tx with
  | error message =>
      rw [hsigner] at h
      obtain ⟨_, hfail, -, -⟩ := exists_of_bind_ok h
      cases hfail
  | ok sender =>
      rw [hsigner] at h
      dsimp only at h ⊢
      obtain ⟨_, hpure, h, hstate⟩ := exists_of_bind_ok h
      cases hpure
      have hsame : ((pure sender : ExecM Address) progress).state = progress := rfl
      rw [hstate, hsame]
      rw [hsame] at h
      obtain ⟨_, hvalid, h, hstate⟩ := exists_of_bind_ok h
      rw [hstate]
      obtain ⟨found, hfound, hvalid, hread⟩ := of_validateTransactionWithState hvalid
      rw [hread] at h ⊢
      obtain ⟨current, hcurrent, h, hstate⟩ := exists_of_bind_ok h
      cases hcurrent
      rw [hstate]
      cases hmachine : executor.runMachine tx sender progress.batch with
      | error message =>
          rw [hmachine] at h
          cases h
      | ok ran =>
          obtain ⟨value, failed, changes⟩ := ran
          rw [hmachine] at h
          dsimp only at h ⊢
          obtain ⟨_, -, h, hstate⟩ := exists_of_bind_ok h
          rw [hstate]
          obtain ⟨_, -, h, hstate⟩ := exists_of_bind_ok h
          rw [hstate]
          obtain ⟨_, -, h, hstate⟩ := exists_of_bind_ok h
          rw [hstate]
          obtain ⟨root, -, h, hstate⟩ := exists_of_bind_ok h
          rw [hstate]
          cases h
          exact ⟨sender, found, value, failed, changes, root, rfl, hfound, hvalid, hmachine, rfl,
            rfl⟩

theorem of_executeTransaction {tx : Transaction} {result : TransactionExecutionResult}
    (h : (executor.executeTransaction tx progress).result = .ok result) :
    ∃ sender found value failed changes, Evm.recoverSigner tx = .ok sender ∧
      (account sender executor.stateRoot progress.batch).result = .ok found ∧
      executor.validateTransaction tx sender (found.getD .blank) = .ok () ∧
      executor.runMachine tx sender progress.batch = .ok (value, failed, changes) ∧
      result.receipt.cumulativeGasUsed = progress.cumulativeGasUsed + value.usedGas ∧
      (executor.executeTransaction tx progress).state.cumulativeGasUsed =
        progress.cumulativeGasUsed + value.usedGas := by
  obtain ⟨sender, found, value, failed, changes, root, hsigner, hfound, hvalid, hmachine, hresult,
    hgas⟩ := exists_recordOf_executeTransaction h
  refine ⟨sender, found, value, failed, changes, hsigner, hfound, hvalid, hmachine, ?_, hgas⟩
  rw [hresult]
  rfl

/-- The gas used up to the last receipt. -/
def lastGas (receipts : List Receipt) : Nat :=
  (receipts.getLast?.map (·.cumulativeGasUsed)).getD 0

/-- In validation mode every transaction is included, so the last receipt has
the gas of the block. -/
theorem lastGas_executeTransactions {transactions : List Transaction}
    {included final : Included}
    (hstart : lastGas included.receipts = progress.cumulativeGasUsed)
    (h : (executeTransactions executor false included transactions progress).result =
      .ok final) :
    lastGas final.receipts =
      (executeTransactions executor false included transactions
        progress).state.cumulativeGasUsed := by
  induction transactions generalizing included progress with
  | nil =>
      cases h
      exact hstart
  | cons tx rest ih =>
      unfold executeTransactions at h ⊢
      obtain ⟨result, hresult, h, hstate⟩ := exists_of_bind_ok h
      have hattempt := Except.ok.inj hresult
      rw [hstate]
      cases result with
      | error message => cases h
      | ok result =>
          obtain ⟨_, _, value, _, _, -, -, -, -, hreceipt, hgas⟩ := of_executeTransaction hattempt
          refine ih ?_ h
          simp only [Included.add, lastGas, List.getLast?_concat, Option.map_some,
            Option.getD_some]
          exact hreceipt.trans hgas.symm

theorem gas_openBlock (header : Header) :
    (openBlock executor header progress).state.cumulativeGasUsed = progress.cumulativeGasUsed := by
  unfold openBlock
  cases header.parentBeaconBlockRoot with
  | none => rfl
  | some beaconRoot =>
      dsimp only
      split <;> rfl

theorem lastGas_compute {database : Database} {root : Option B256} {computed : ComputedBlock}
    (hstart : progress.cumulativeGasUsed = 0)
    (h : (provider.compute database block root false progress).result = .ok computed) :
    lastGas computed.receipts = computed.cumulativeGasUsed := by
  unfold compute at h
  obtain ⟨_, -, h, -⟩ := exists_of_bind_ok h
  obtain ⟨included, hrun, -, -, hreceipts, -, hgas⟩ := of_computeBlock h
  rw [hreceipts, hgas]
  unfold runTransactions at hrun ⊢
  obtain ⟨_, -, hrun, hstate⟩ := exists_of_bind_ok hrun
  rw [hstate]
  refine lastGas_executeTransactions ?_ hrun
  rw [gas_openBlock]
  exact hstart.symm

theorem transactions_executeTransactions {transactions : List Transaction}
    {included final : Included}
    (h : (executeTransactions executor false included transactions progress).result =
      .ok final) : final.transactions = included.transactions ++ transactions := by
  induction transactions generalizing included progress with
  | nil =>
      cases h
      exact (List.append_nil _).symm
  | cons tx rest ih =>
      unfold executeTransactions at h
      obtain ⟨result, -, h, -⟩ := exists_of_bind_ok h
      cases result with
      | error message => cases h
      | ok result =>
          rw [ih h]
          simp [Included.add]

/-- A validated block has all of its transactions. -/
theorem transactions_compute {database : Database} {root : Option B256} {computed : ComputedBlock}
    (h : (provider.compute database block root false progress).result = .ok computed) :
    computed.transactions = block.body.transactions := by
  unfold compute at h
  obtain ⟨_, -, h, -⟩ := exists_of_bind_ok h
  obtain ⟨included, hrun, -, htransactions, -⟩ := of_computeBlock h
  unfold runTransactions at hrun
  obtain ⟨_, -, hrun, -⟩ := exists_of_bind_ok hrun
  rw [htransactions, transactions_executeTransactions hrun]
  rfl

/-- A machine that charges for every transaction it runs. -/
def ChargesGas : Prop :=
  ∀ args overlay value, (Evm.transact args overlay).1 = .ok value → 0 < value.usedGas

/-- What the machine gives up on is charged the intrinsic gas at least. -/
theorem usedGas_pos (hcharges : ChargesGas) {tx : Transaction} {sender : Address}
    {batch : BatchWriter} {value : TransactValue} {failed : Bool} {changes : OverlayedChangeSet}
    (h : executor.runMachine tx sender batch = .ok (value, failed, changes)) :
    0 < value.usedGas := by
  unfold TransactionExecutor.runMachine at h
  simp only [bind, Except.bind] at h
  split at h
  · cases h
  next overlay _ =>
    split at h
    next value' hran =>
      cases h
      exact hcharges _ _ _ hran
    next error hran =>
      unfold TransactionExecutor.handleTransactError at h
      have hfailed : ∀ before after : U256, 0 < executor.failedGas tx
          (executor.prepareTransactArgs tx sender) sender before after := by
        intro before after
        unfold TransactionExecutor.failedGas
        dsimp only
        exact Nat.lt_of_lt_of_le (intrinsicGas_pos tx executor.fork) (Nat.le_max_right _ _)
      cases error with
      | exception e =>
          cases h
          exact hfailed _ _
      | reverted =>
          cases h
          exact hfailed _ _
      | fatal message => cases h

/-- Every transaction of a validated block adds to its gas. -/
theorem le_gas_executeTransactions (hcharges : ChargesGas) {transactions : List Transaction}
    {included final : Included}
    (h : (executeTransactions executor false included transactions progress).result =
      .ok final) :
    progress.cumulativeGasUsed + transactions.length ≤ (executeTransactions executor false included
      transactions progress).state.cumulativeGasUsed := by
  induction transactions generalizing included progress with
  | nil => exact Nat.le_refl _
  | cons tx rest ih =>
      unfold executeTransactions at h ⊢
      obtain ⟨result, hresult, h, hstate⟩ := exists_of_bind_ok h
      have hattempt := Except.ok.inj hresult
      rw [hstate]
      cases result with
      | error message => cases h
      | ok result =>
          obtain ⟨_, _, value, _, _, -, -, -, hmachine, -, hgas⟩ := of_executeTransaction hattempt
          have hpos := usedGas_pos hcharges hmachine
          have hrest := ih h
          have hattempted : (attempt (executor.executeTransaction tx)
              progress).state.cumulativeGasUsed = progress.cumulativeGasUsed + value.usedGas := hgas
          dsimp only
          rw [List.length_cons]
          omega

/-- A validated block uses gas if and only if it has transactions. -/
theorem gas_compute {database : Database} {root : Option B256} {computed : ComputedBlock}
    (hstart : progress.cumulativeGasUsed = 0)
    (h : (provider.compute database block root false progress).result = .ok computed) :
    (block.body.transactions = [] → computed.cumulativeGasUsed = 0) ∧
      (ChargesGas → block.body.transactions ≠ [] → 0 < computed.cumulativeGasUsed) := by
  unfold compute at h
  obtain ⟨_, -, h, -⟩ := exists_of_bind_ok h
  obtain ⟨included, hrun, -, -, -, -, hgas⟩ := of_computeBlock h
  rw [hgas]
  unfold runTransactions at hrun ⊢
  obtain ⟨_, -, hrun, hstate⟩ := exists_of_bind_ok hrun
  rw [hstate]
  constructor
  · intro hnone
    rw [hnone]
    exact (gas_openBlock block.header).trans hstart
  · intro hcharges hsome
    have hle := le_gas_executeTransactions hcharges hrun
    have hlength := List.length_pos_iff.mpr hsome
    omega

end WasixEth.EthExecutionProvider
