import WasixEth.Engine.Node
import WasixEth.Execution.Inclusions
import WasixEth.Lib.Rows

/-! # Receipts and their metadata

An executed block comes with one receipt and one row of metadata for each of
its transactions. The rows are stored when its batch is committed; no operation
of a batch writes any.
-/

namespace WasixEth

open Storage Routine BatchWriter

/-- The rows of metadata are those that were there. -/
def SameMetas (before after : BatchWriter) : Prop :=
  after.tables.receiptsMeta = before.tables.receiptsMeta

/-- An operation of a batch that writes no metadata. -/
def KeepsMetas {α : Type} (operation : BatchM α) : Prop := Moves SameMetas operation

namespace KeepsMetas

variable {α β : Type}

theorem bind {m : BatchM α} {f : α → BatchM β} (hm : KeepsMetas m) (hf : ∀ a, KeepsMetas (f a)) :
    KeepsMetas (m >>= f) :=
  moves_bind (fun _ _ _ h h' => h'.trans h) hm hf

theorem pure (a : α) : KeepsMetas (pure a) := fun _ => rfl

theorem fail (message : String) : KeepsMetas (Routine.fail message : BatchM α) := fun _ => rfl

theorem read : KeepsMetas Routine.read := fun _ => rfl

theorem modify {f : BatchWriter → BatchWriter} (h : ∀ batch, SameMetas batch (f batch)) :
    KeepsMetas (Routine.modify f) := h

theorem withTrie (trie : EthTrie) (operation : TrieM α) :
    KeepsMetas (BatchWriter.withTrie trie operation) := fun _ => rfl

theorem liftRlp (result : Except Rlp.Error α) : KeepsMetas (BatchWriter.liftRlp result) := by
  cases result with
  | ok a => exact pure a
  | error e => exact fail _

theorem commitTrie [Keccak256] (trie : EthTrie) : KeepsMetas (BatchWriter.commitTrie trie) :=
  modify fun _ => rfl

end KeepsMetas

section Batch

variable [Keccak256]

open KeepsMetas

theorem keepsMetas_hashed (data : Bytes) : KeepsMetas (hashed data) := fun _ => rfl

theorem keepsMetas_account (address : Address) (stateRoot : Option B256) :
    KeepsMetas (account address stateRoot) := by
  unfold account
  refine bind read fun batch => ?_
  split
  · exact pure _
  · split
    · exact pure _
    · split
      · exact pure _
      · refine bind (keepsMetas_hashed _) fun key => bind (withTrie _ _) fun found => ?_
        dsimp only
        split
        · exact pure _
        · exact bind (liftRlp _) fun _ => pure _

theorem keepsMetas_storage (address : Address) (slot : B256) (stateRoot : Option B256) :
    KeepsMetas (storage address slot stateRoot) := by
  unfold storage
  refine bind read fun batch => ?_
  split
  · exact pure _
  · split
    · exact pure _
    · split
      · exact pure _
      · split
        · exact pure _
        · refine bind (keepsMetas_account _ _) fun found => ?_
          split
          · exact pure _
          · split
            · exact pure _
            · refine bind (keepsMetas_hashed _) fun key => bind (withTrie _ _) fun value => ?_
              dsimp only
              split
              · exact pure _
              · exact liftRlp _

theorem keepsMetas_updateAccount (address : Address) (account : TrieAccount) :
    KeepsMetas (updateAccount address account) := by
  unfold updateAccount recordAccount
  refine bind (bind read fun batch => ?_) fun _ => modify fun _ => rfl
  split
  · exact pure _
  · exact bind (keepsMetas_account _ _) fun _ => modify fun _ => rfl

theorem keepsMetas_removeAccount (address : Address) : KeepsMetas (removeAccount address) := by
  unfold removeAccount recordAccount
  refine bind (bind read fun batch => ?_) fun _ => modify fun _ => rfl
  split
  · exact pure _
  · exact bind (keepsMetas_account _ _) fun _ => modify fun _ => rfl

theorem keepsMetas_updateStorage (address : Address) (slot : B256) (value : U256) :
    KeepsMetas (updateStorage address slot value) := by
  unfold updateStorage recordStorage
  refine bind (bind read fun batch => ?_) fun _ => ?_
  · split
    · exact pure _
    · exact bind (keepsMetas_storage _ _ _) fun _ => modify fun _ => rfl
  · refine bind (modify fun _ => rfl) fun _ => bind read fun batch => ?_
    split
    · exact pure _
    · exact bind (keepsMetas_account _ _) fun _ => keepsMetas_updateAccount _ _

theorem keepsMetas_writeSlots (address : Address) (stateRoot : Option B256) (trie : EthTrie)
    (slots : List B256) : KeepsMetas (writeSlots address stateRoot trie slots) := by
  induction slots generalizing trie with
  | nil => exact pure _
  | cons slot rest ih =>
      unfold writeSlots
      refine bind (keepsMetas_hashed _) fun key => bind (keepsMetas_storage _ _ _) fun value => ?_
      exact bind (withTrie _ _) fun written => ih written.2

theorem keepsMetas_calculateStorageRoot (address : Address) (stateRoot : Option B256) :
    KeepsMetas (calculateStorageRoot address stateRoot) := by
  unfold calculateStorageRoot
  refine bind read fun batch => ?_
  dsimp only
  have hwrite (initial : B256) (slots : List B256) : KeepsMetas (do
      let trie ← writeSlots address (stateRoot.or batch.baseStateRoot) (EthTrie.new ∅ initial) slots
      BatchWriter.commitTrie trie
      return trie.rootHash) :=
    bind (keepsMetas_writeSlots _ _ _ _) fun trie => bind (commitTrie trie) fun _ => pure _
  split
  · exact bind (pure _) fun initial => hwrite initial _
  · exact bind (keepsMetas_account _ _) fun _ => bind (pure _) fun initial => hwrite initial _

theorem keepsMetas_writeAccounts (eip161 : Bool) (stateRoot : Option B256) (trie : EthTrie)
    (addresses : List Address) : KeepsMetas (writeAccounts eip161 stateRoot trie addresses) := by
  induction addresses generalizing trie with
  | nil => exact pure _
  | cons address rest ih =>
      unfold writeAccounts
      refine bind (keepsMetas_hashed _) fun key => bind (keepsMetas_account _ _) fun found => ?_
      split
      · exact bind (withTrie _ _) fun written => ih written.2
      · refine bind (keepsMetas_calculateStorageRoot _ _) fun storageRoot => ?_
        split
        · exact bind (withTrie _ _) fun written => bind (modify fun _ => rfl) fun _ => ih written.2
        · exact bind (modify fun _ => rfl) fun _ => bind (withTrie _ _) fun written => ih written.2

theorem keepsMetas_calculateStateRoot (eip161 : Bool) (stateRoot : Option B256) :
    KeepsMetas (calculateStateRoot eip161 stateRoot) := by
  unfold calculateStateRoot
  refine bind read fun batch => bind (keepsMetas_writeAccounts _ _ _ _) fun trie => ?_
  exact bind (commitTrie trie) fun _ => pure _

/-! ## The changes of a transaction -/

section Applier

open StateApplier

theorem keepsMetas_setField (stateRoot : Option B256) (address : Address)
    (change : TrieAccount → TrieAccount) : KeepsMetas (setField stateRoot address change) := by
  unfold setField getOrMaterializeAccount
  exact bind (bind (keepsMetas_account _ _) fun _ => pure _) fun _ => keepsMetas_updateAccount _ _

theorem keepsMetas_applyBalances (stateRoot : Option B256) (balances : List (Address × U256)) :
    KeepsMetas (applyBalances stateRoot balances) := by
  induction balances with
  | nil => exact pure _
  | cons entry rest ih => exact bind (keepsMetas_setField _ _ _) fun _ => ih

theorem keepsMetas_applyNonces (stateRoot : Option B256) (nonces : List (Address × UInt64)) :
    KeepsMetas (applyNonces stateRoot nonces) := by
  induction nonces with
  | nil => exact pure _
  | cons entry rest ih => exact bind (keepsMetas_setField _ _ _) fun _ => ih

theorem keepsMetas_applyCodes (stateRoot : Option B256) (codes : List (Address × Bytes)) :
    KeepsMetas (applyCodes stateRoot codes) := by
  induction codes with
  | nil => exact pure _
  | cons entry rest ih =>
      unfold applyCodes getOrMaterializeAccount
      refine bind (bind (keepsMetas_account _ _) fun _ => pure _) fun found => ?_
      refine bind (keepsMetas_hashed _) fun codeHash => bind (modify fun _ => rfl) fun _ => ?_
      exact bind (keepsMetas_updateAccount _ _) fun _ => ih

omit [Keccak256] in
theorem keepsMetas_applyResets (addresses : List Address) :
    KeepsMetas (applyResets addresses) := by
  induction addresses with
  | nil => exact pure _
  | cons address rest ih => exact bind (modify fun _ => rfl) fun _ => ih

theorem keepsMetas_applyStorages (writes : List ((Address × B256) × U256)) :
    KeepsMetas (applyStorages writes) := by
  induction writes with
  | nil => exact pure _
  | cons entry rest ih => exact bind (keepsMetas_updateStorage _ _ _) fun _ => ih

theorem keepsMetas_settleAccount (changes : OverlayedChangeSet) (eip161 : Bool)
    (stateRoot : Option B256) (address : Address) :
    KeepsMetas (settleAccount changes eip161 stateRoot address) := by
  unfold settleAccount
  split
  · exact bind (keepsMetas_account _ _) fun _ => keepsMetas_removeAccount _
  · refine bind (keepsMetas_account _ _) fun found => ?_
    split
    · split
      · exact pure _
      · exact keepsMetas_updateAccount _ _
    · have hsettle (removes : Bool) (settled : TrieAccount) :
          KeepsMetas
            (if removes then removeAccount address else updateAccount address settled) := by
        split
        · exact keepsMetas_removeAccount _
        · exact keepsMetas_updateAccount _ _
      exact bind (keepsMetas_calculateStorageRoot _ _) fun storageRoot => hsettle _ _

theorem keepsMetas_settleAccounts (changes : OverlayedChangeSet) (eip161 : Bool)
    (stateRoot : Option B256) (addresses : List Address) :
    KeepsMetas (settleAccounts changes eip161 stateRoot addresses) := by
  induction addresses with
  | nil => exact pure _
  | cons address rest ih => exact bind (keepsMetas_settleAccount _ _ _ _) fun _ => ih

theorem keepsMetas_applyChangeset (changes : OverlayedChangeSet) (eip161 : Bool)
    (stateRoot : Option B256) : KeepsMetas (applyChangeset changes eip161 stateRoot) := by
  unfold applyChangeset
  refine bind (keepsMetas_applyBalances _ _) fun _ => bind (keepsMetas_applyNonces _ _) fun _ => ?_
  refine bind (keepsMetas_applyCodes _ _) fun _ => bind (keepsMetas_applyResets _) fun _ => ?_
  exact bind (keepsMetas_applyStorages _) fun _ => keepsMetas_settleAccounts _ _ _ _

end Applier

/-! ## The changes of the block -/

section Processor

open BlockProcessor

theorem keepsMetas_applyBeaconRoot [Evm] (beaconRoot : B256) (timestamp : Nat)
    (stateRoot : Option B256) : KeepsMetas (applyBeaconRoot beaconRoot timestamp stateRoot) := by
  unfold applyBeaconRoot ensureSystemContractCode
  refine bind (bind (keepsMetas_account _ _) fun found => ?_) fun _ => ?_
  · refine bind (keepsMetas_hashed _) fun codeHash => ?_
    split
    · exact bind (modify fun _ => rfl) fun _ => keepsMetas_updateAccount _ _
    · split
      · exact bind (modify fun _ => rfl) fun _ => keepsMetas_updateAccount _ _
      · exact pure _
  · refine bind (keepsMetas_updateStorage _ _ _) fun _ => ?_
    exact bind (keepsMetas_updateStorage _ _ _) fun _ => modify fun _ => rfl

theorem keepsMetas_processWithdrawals (stateRoot : Option B256) (withdrawals : List Withdrawal) :
    KeepsMetas (processWithdrawals stateRoot withdrawals) := by
  induction withdrawals with
  | nil => exact pure _
  | cons withdrawal rest ih =>
      unfold processWithdrawals
      refine bind (keepsMetas_account _ _) fun found => ?_
      refine bind (keepsMetas_calculateStorageRoot _ _) fun storageRoot => ?_
      exact bind (keepsMetas_updateAccount _ _) fun _ => ih

theorem keepsMetas_reward (stateRoot : Option B256) (address : Address) (amount : Nat) :
    KeepsMetas (reward stateRoot address amount) := by
  unfold reward
  exact bind (keepsMetas_account _ _) fun found => keepsMetas_updateAccount _ _

omit [Keccak256] in
theorem keepsMetas_liftFault {α : Type} (result : Except Machine.Fault α) :
    KeepsMetas (liftFault result) := by
  cases result with
  | ok a => exact pure a
  | error fault => exact fail _

theorem keepsMetas_rewardOmmers (mode : Machine.Mode) (stateRoot : Option B256)
    (blockNumber blockReward : Nat) (ommers : List Header) :
    KeepsMetas (rewardOmmers mode stateRoot blockNumber blockReward ommers) := by
  induction ommers with
  | nil => exact pure _
  | cons ommer rest ih =>
      exact bind (keepsMetas_liftFault _) fun _ => bind (keepsMetas_reward _ _ _) fun _ => ih

theorem keepsMetas_applyBlockRewards (fork : Hardfork) (beneficiary : Address)
    (ommers : List Header) (stateRoot : Option B256) (blockNumber : Nat) :
    KeepsMetas (applyBlockRewards fork beneficiary ommers stateRoot blockNumber) := by
  unfold applyBlockRewards applyBlockRewardsIn
  split
  · exact pure _
  · exact bind (keepsMetas_reward _ _ _) fun _ => keepsMetas_rewardOmmers _ _ _ _ _

end Processor

end Batch

/-! ## The execution of a block -/

/-- A step of the execution of a block that writes no metadata. -/
def KeepsRows {α : Type} (operation : ExecM α) : Prop :=
  Moves (fun before after => SameMetas before.batch after.batch) operation

namespace KeepsRows

variable {α β : Type}

theorem bind {m : ExecM α} {f : α → ExecM β} (hm : KeepsRows m) (hf : ∀ a, KeepsRows (f a)) :
    KeepsRows (m >>= f) :=
  moves_bind (fun _ _ _ h h' => h'.trans h) hm hf

theorem pure (a : α) : KeepsRows (pure a) := fun _ => rfl

theorem fail (message : String) : KeepsRows (Routine.fail message : ExecM α) := fun _ => rfl

theorem read : KeepsRows Routine.read := fun _ => rfl

theorem liftExcept (result : Except String α) : KeepsRows (Routine.liftExcept result) :=
  fun _ => rfl

theorem attempt {operation : ExecM α} (h : KeepsRows operation) :
    KeepsRows (EthExecutionProvider.attempt operation) := h

end KeepsRows

theorem KeepsMetas.onBatch {α : Type} {operation : BatchM α} (h : KeepsMetas operation) :
    KeepsRows (WasixEth.onBatch operation) := fun progress => h progress.batch

theorem receiptsMeta_insertReceiptMetas (tables : StateTables) (hash : B256)
    (metas : List ReceiptMeta) :
    (tables.insertReceiptMetas hash metas).receiptsMeta =
      tables.receiptsMeta.insertAll (Table.numbered hash metas) := by
  unfold StateTables.insertReceiptMetas Table.insertAll Table.numbered
  rw [List.foldl_map]
  induction metas.zipIdx generalizing tables with
  | nil => rfl
  | cons entry rest ih => exact ih _

namespace EthExecutionProvider

section Rows

variable [Keccak256] [Evm]

open KeepsRows

omit [Evm] in
theorem keepsMetas_validateTransaction (executor : TransactionExecutor) (tx : Transaction)
    (sender : Address) : KeepsMetas (executor.validateTransactionWithState tx sender) := by
  unfold TransactionExecutor.validateTransactionWithState
  refine KeepsMetas.bind (keepsMetas_account _ _) fun found => ?_
  split
  · exact KeepsMetas.pure _
  · exact KeepsMetas.fail _

theorem keepsRows_executeTransaction (executor : TransactionExecutor) (tx : Transaction) :
    KeepsRows (executor.executeTransaction tx) := by
  unfold TransactionExecutor.executeTransaction
  dsimp only
  split
  · refine bind (pure _) fun sender => ?_
    refine bind (keepsMetas_validateTransaction _ _ _).onBatch fun _ => ?_
    refine bind read fun progress => ?_
    split
    · exact fail _
    · refine bind (fun _ => rfl) fun _ => bind (keepsMetas_applyChangeset _ _ _).onBatch fun _ => ?_
      refine bind (keepsMetas_account _ _).onBatch fun _ => ?_
      exact bind (keepsMetas_calculateStateRoot _ _).onBatch fun _ => bind read fun _ => pure _
  · exact fun _ => rfl

theorem keepsRows_executeTransactions (executor : TransactionExecutor) (building : Bool)
    (included : Included) (transactions : List Transaction) :
    KeepsRows (executeTransactions executor building included transactions) := by
  induction transactions generalizing included with
  | nil => exact pure _
  | cons tx rest ih =>
      unfold executeTransactions
      refine bind (keepsRows_executeTransaction executor tx).attempt fun result => ?_
      split
      · exact ih _
      · split
        · exact ih _
        · exact fail _

variable (provider : EthExecutionProvider)

theorem keepsRows_computeBlock (executor : TransactionExecutor) (block : Block)
    (building : Bool) : KeepsRows (provider.computeBlock executor block building) := by
  unfold computeBlock
  have hrest : KeepsRows (do
      let included ← executeTransactions executor building ⟨[], [], []⟩ block.body.transactions
      liftCheck (provider.checkBlobGas executor.fork block.header included.transactions)
      WasixEth.onBatch (BlockProcessor.processWithdrawals executor.stateRoot
        (block.body.withdrawals.getD []))
      WasixEth.onBatch (BlockProcessor.applyBlockRewards executor.fork block.header.beneficiary
        block.body.ommers executor.stateRoot block.header.number)
      let root ← WasixEth.onBatch (calculateStateRoot (.spuriousDragon ≤ executor.fork)
        executor.stateRoot)
      let progress ← Routine.read
      return (⟨included.transactions, included.receipts, included.metas,
        progress.cumulativeGasUsed, root⟩ : ComputedBlock)) := by
    refine bind (keepsRows_executeTransactions _ _ _ _) fun included => ?_
    refine bind (liftExcept _) fun _ => ?_
    refine bind (keepsMetas_processWithdrawals _ _).onBatch fun _ => ?_
    refine bind (keepsMetas_applyBlockRewards _ _ _ _ _).onBatch fun _ => ?_
    exact bind (keepsMetas_calculateStateRoot _ _).onBatch fun _ => bind read fun _ => pure _
  dsimp only
  split
  · split
    · exact bind (keepsMetas_applyBeaconRoot _ _ _).onBatch fun _ => hrest
    · exact hrest
  · exact hrest

theorem keepsRows_compute (database : Database) (block : Block) (root : Option B256)
    (building : Bool) : KeepsRows (provider.compute database block root building) := by
  unfold compute
  refine bind (KeepsMetas.onBatch ?_) fun _ => keepsRows_computeBlock _ _ _ _
  cases root with
  | none => exact KeepsMetas.pure _
  | some root => exact KeepsMetas.modify fun _ => rfl

end Rows

/-! ## What execution returns -/

section Returned

variable [Keccak256] [BlockHashing] [Proofs] [Evm] {provider : EthExecutionProvider}

/-- One receipt and one row of metadata for each transaction. -/
structure Accounted (executed : ExecutedBlock) : Prop where
  receipts : executed.receipts.length = executed.block.body.transactions.length
  metas : executed.metas.length = executed.block.body.transactions.length

omit [BlockHashing] in
theorem accounted_of_executeBlock {batch : BatchWriter} {block : Block} {stateRoot : Option B256}
    {building : Bool} {executed : ExecutedBlock}
    (h : (provider.executeBlockWithBatch block stateRoot building ⟨batch, 0⟩).result =
      .ok executed) : Accounted executed := by
  obtain ⟨root, computed, -, hcomputed, hfinal, hreceipts, hmetas, -⟩ := exists_computed h
  obtain ⟨htransactions, hcomputedReceipts, hcomputedMetas, -⟩ := of_compute hcomputed
  obtain ⟨-, hbody, -⟩ := of_finalizeBlockHeader hfinal
  have hlength : executed.block.body.transactions.length =
      (blockInclusions provider batch block root).length := by
    rw [hbody, htransactions, List.length_map]
  constructor
  · rw [hreceipts, hcomputedReceipts, List.length_map, hlength]
  · rw [hmetas, hcomputedMetas, List.length_map, hlength]

theorem accounted_of_payload {database : Database} {transactions : List Transaction}
    {parent : Header} {attributes : PayloadAttributes} {baseFee : Option Nat}
    {executed : ExecutedBlock}
    (h : provider.executeBlockForPayload database transactions parent attributes baseFee =
      .ok executed) : Accounted executed :=
  accounted_of_executeBlock h

/-- A committed block leaves its rows, and the others as they were. -/
theorem committed_of_execute {faults : Faults} {database : Database} {block : Block}
    {stateRoot : Option B256} {executed : ExecutedBlock} {state : StateTables}
    (h : provider.executeBlockWithStateRoot faults database block stateRoot =
      (.ok executed, state)) :
    Accounted executed ∧ executed.block.body.transactions = block.body.transactions ∧
      state.receiptsMeta = database.state.receiptsMeta.insertAll
        (Table.numbered executed.block.hash executed.metas) := by
  unfold executeBlockWithStateRoot at h
  split at h
  · cases h
  · dsimp only at h
    split at h
    · cases h
    next hresult =>
      split at h
      · cases h
      · cases h
        obtain ⟨root, computed, -, hcomputed, hfinal, -, -, hstate⟩ := exists_computed hresult
        obtain ⟨-, hbody, -⟩ := of_finalizeBlockHeader hfinal
        refine ⟨accounted_of_executeBlock hresult, ?_, ?_⟩
        · rw [hbody]
          exact transactions_compute hcomputed
        · have hkept : SameMetas (provider.start database).batch _ :=
            keepsRows_compute provider database block root false (provider.start database)
          unfold committed
          rw [receiptsMeta_insertReceiptMetas, hstate]
          exact congrArg (Table.insertAll · _) hkept

end Returned

end EthExecutionProvider

end WasixEth
