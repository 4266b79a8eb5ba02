import WasixEth.Execution.Provider

/-! # Executed blocks

An executed block is what its transactions computed, with a header that was
either checked against it or filled in from it.
-/

namespace WasixEth.EthExecutionProvider

open Storage Routine BatchWriter

section Header

variable [Proofs] {block finalized : Block} {computed : ComputedBlock} {fork : Hardfork}
  {building : Bool}

/-- The fields of a header that say what execution computed. -/
structure Matches (header : Header) (computed : ComputedBlock) : Prop where
  gasUsed : header.gasUsed = computed.cumulativeGasUsed
  transactionsRoot : header.transactionsRoot = calculateTransactionRoot computed.transactions
  receiptsRoot : header.receiptsRoot = calculateReceiptRoot computed.receipts
  logsBloom : header.logsBloom = logsBloomOf computed.receipts
  stateRoot : header.stateRoot = computed.stateRoot

theorem matches_of_checkHeader (h : checkHeader block computed fork = .ok ()) :
    Matches block.header computed := by
  simp only [checkHeader, throw, throwThe, MonadExceptOf.throw, bind, Except.bind, ne_eq,
    ite_not] at h
  split_ifs at h with hgas htransactions hreceipts hbloom hroot
  all_goals exact ⟨hgas, htransactions, hreceipts, hbloom, hroot⟩

theorem matches_buildHeader (block : Block) (computed : ComputedBlock) (fork : Hardfork) :
    Matches (buildHeader block computed fork) computed := by
  unfold buildHeader
  dsimp only
  split_ifs <;> exact ⟨rfl, rfl, rfl, rfl, rfl⟩

/-- The parts of the header that execution never touches. -/
theorem buildHeader_number (block : Block) (computed : ComputedBlock) (fork : Hardfork) :
    (buildHeader block computed fork).number = block.header.number ∧
      (buildHeader block computed fork).parentHash = block.header.parentHash := by
  unfold buildHeader
  dsimp only
  split_ifs <;> exact ⟨rfl, rfl⟩

/-- Either way the header ends up saying what was computed. -/
theorem of_finalizeBlockHeader
    (h : finalizeBlockHeader block computed fork building = .ok finalized) :
    Matches finalized.header computed ∧
      finalized.body = { block.body with transactions := computed.transactions } ∧
      finalized.header = if isBuilding building block.header computed.cumulativeGasUsed then
        buildHeader { block with body := { block.body with
          transactions := computed.transactions } } computed fork else block.header := by
  simp only [finalizeBlockHeader, bind, Except.bind, pure, Except.pure] at h
  split at h
  next hbuilding =>
    cases h
    exact ⟨matches_buildHeader _ _ _, rfl, (if_pos hbuilding).symm⟩
  next hbuilding =>
    split at h
    · cases h
    next hcheck =>
      cases h
      exact ⟨matches_of_checkHeader hcheck, rfl, (if_neg hbuilding).symm⟩

theorem header_of_finalizeBlockHeader
    (h : finalizeBlockHeader block computed fork building = .ok finalized) :
    finalized.header.number = block.header.number ∧
      finalized.header.parentHash = block.header.parentHash := by
  rw [(of_finalizeBlockHeader h).2.2]
  split
  · exact buildHeader_number _ _ _
  · exact ⟨rfl, rfl⟩

end Header

section Body

variable [Keccak256] [BlockHashing] [Proofs] [Evm] {provider : EthExecutionProvider}

omit [BlockHashing] in
theorem exists_computed {block : Block} {stateRoot : Option B256} {building : Bool}
    {progress : Progress} {executed : ExecutedBlock}
    (h : (provider.executeBlockWithBatch block stateRoot building progress).result =
      .ok executed) :
    ∃ root computed, baseRoot progress.batch.database block stateRoot = .ok root ∧
      (provider.compute progress.batch.database block root building progress).result =
        .ok computed ∧
      finalizeBlockHeader block computed
        (provider.activeFork progress.batch.database block.header) building =
          .ok executed.block ∧
      executed.receipts = computed.receipts ∧ executed.metas = computed.metas ∧
      (provider.executeBlockWithBatch block stateRoot building progress).state =
        (provider.compute progress.batch.database block root building progress).state := by
  unfold executeBlockWithBatch at h ⊢
  obtain ⟨started, hstarted, h, hstate⟩ := exists_of_bind_ok h
  cases hstarted
  rw [hstate]
  obtain ⟨root, hroot, h, hstate⟩ := exists_of_bind_ok h
  rw [hstate]
  obtain ⟨computed, hcomputed, h, hstate⟩ := exists_of_bind_ok h
  rw [hstate]
  obtain ⟨finalized, hfinalized, h, hstate⟩ := exists_of_bind_ok h
  rw [hstate]
  cases h
  exact ⟨root, computed, hroot, hcomputed, hfinalized, rfl, rfl, rfl⟩

end Body

end WasixEth.EthExecutionProvider
