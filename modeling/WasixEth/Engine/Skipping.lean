import WasixEth.Engine.Building
import WasixEth.Execution.Inclusions

/-! # Payloads with failing transactions

The builder leaves out what fails. As long as storage does not, a transaction
that fails has written nothing, so the block is the one that is built from the
transactions that succeed. The header is different: its blob gas is that of
the whole list.
-/

namespace WasixEth.EthExecutionProvider

open Storage Routine BatchWriter TransactionExecutor EthConsensus

section Survivors

variable [Keccak256] [Evm] {executor : TransactionExecutor} {progress : Progress}
  {transactions : List Transaction}

/-! ## The transactions that succeed -/

/-- Storage takes the writes of every attempt that comes to them. -/
def TakesWrites (executor : TransactionExecutor) (progress : Progress)
    (transactions : List Transaction) : Prop :=
  ∀ entry ∈ transactionStates executor progress transactions, ∀ ran,
    examine executor entry.1 entry.2 = .ok ran →
      ∃ result, (settle executor entry.1 ran entry.2).result = .ok result

/-- Where the block stands after all attempts. -/
def lastProgress (executor : TransactionExecutor) (progress : Progress)
    (transactions : List Transaction) : Progress :=
  transactions.foldl (fun progress tx => (executor.executeTransaction tx progress).state) progress

theorem state_executeTransactions (included : Included) :
    (executeTransactions executor true included transactions progress).state =
      lastProgress executor progress transactions := by
  induction transactions generalizing included progress with
  | nil => rfl
  | cons tx rest ih =>
      unfold executeTransactions
      rw [(bind_of_ok (m := attempt (executor.executeTransaction tx)) rfl _).2]
      cases (executor.executeTransaction tx progress).result with
      | ok result => exact ih _
      | error message => exact ih _

/-- An attempt that fails, though storage does not, leaves nothing behind. -/
theorem state_of_error {tx : Transaction} {message : String}
    (htakes : ∀ ran, examine executor tx progress = .ok ran →
      ∃ result, (settle executor tx ran progress).result = .ok result)
    (h : (executor.executeTransaction tx progress).result = .error message) :
    (executor.executeTransaction tx progress).state = progress := by
  have hends := executeTransaction_ends executor tx progress
  cases hexamine : examine executor tx progress with
  | error _ =>
      rw [hexamine] at hends
      exact congrArg Prod.snd hends
  | ok ran =>
      rw [hexamine] at hends
      obtain ⟨result, hresult⟩ := htakes ran hexamine
      have hok : (executor.executeTransaction tx progress).result = .ok result :=
        (congrArg Prod.fst hends).trans hresult
      rw [hok] at h
      cases h

/-- Attempting only what succeeds comes to the same. -/
theorem survivors_eq (htakes : TakesWrites executor progress transactions) :
    inclusions executor progress ((inclusions executor progress transactions).map (·.tx)) =
        inclusions executor progress transactions ∧
      lastProgress executor progress ((inclusions executor progress transactions).map (·.tx)) =
        lastProgress executor progress transactions ∧
      TakesWrites executor progress ((inclusions executor progress transactions).map (·.tx)) := by
  induction transactions generalizing progress with
  | nil => exact ⟨rfl, rfl, htakes⟩
  | cons tx rest ih =>
      unfold TakesWrites transactionStates at htakes
      obtain ⟨hfirst, hrest⟩ := List.forall_mem_cons.mp htakes
      obtain ⟨hsame, hlast, hwrites⟩ := ih hrest
      cases hresult : (executor.executeTransaction tx progress).result with
      | ok result =>
          rw [inclusions_cons_ok rest hresult, List.map_cons, inclusions_cons_ok _ hresult, hsame]
          exact ⟨rfl, hlast, List.forall_mem_cons.mpr ⟨hfirst, hwrites⟩⟩
      | error message =>
          have hstate := state_of_error hfirst hresult
          have hstep : lastProgress executor progress (tx :: rest) =
            lastProgress executor (executor.executeTransaction tx progress).state rest := rfl
          rw [inclusions_cons_error rest hresult, hstep]
          rw [hstate] at hsame hlast hwrites ⊢
          exact ⟨hsame, hlast, hwrites⟩

/-- The blob gas of the transactions that succeed is no more than that of all
of them, and as much only if the others carry no blobs. -/
theorem blobGasUsed_inclusions (executor : TransactionExecutor) (progress : Progress)
    (transactions : List Transaction) :
    blobGasUsed ((inclusions executor progress transactions).map (·.tx)) ≤
        blobGasUsed transactions ∧
      (blobGasUsed transactions =
          blobGasUsed ((inclusions executor progress transactions).map (·.tx)) ↔
        ∀ entry ∈ transactionStates executor progress transactions, ∀ message,
          (executor.executeTransaction entry.1 entry.2).result = .error message →
            entry.1.blobVersionedHashes = []) := by
  induction transactions generalizing progress with
  | nil => simp [inclusions, transactionStates]
  | cons tx rest ih =>
      obtain ⟨hle, hiff⟩ := ih (executor.executeTransaction tx progress).state
      have hcons : ∀ txs, blobGasUsed (tx :: txs) =
        tx.blobVersionedHashes.length * dataGasPerBlob + blobGasUsed txs := fun _ => rfl
      unfold transactionStates
      rw [List.forall_mem_cons, ← hiff]
      cases hresult : (executor.executeTransaction tx progress).result with
      | ok result =>
          rw [inclusions_cons_ok rest hresult, List.map_cons, hcons, hcons]
          refine ⟨by omega, ?_⟩
          simp
      | error message =>
          rw [inclusions_cons_error rest hresult, hcons]
          refine ⟨by omega, ?_⟩
          have hnone : tx.blobVersionedHashes = [] ↔
              tx.blobVersionedHashes.length * dataGasPerBlob = 0 := by
            simp [dataGasPerBlob]
          simp only [Except.error.injEq, forall_eq', hnone]
          omega

end Survivors

section Payload

variable [Keccak256] [Evm] {provider : EthExecutionProvider} {batch : BatchWriter} {block : Block}
  {root : Option B256}

/-! ## The block -/

/-- The writes after the last transaction. -/
def closing (executor : TransactionExecutor) (block : Block) : ExecM B256 := do
  onBatch (BlockProcessor.processWithdrawals executor.stateRoot
    (block.body.withdrawals.getD []))
  onBatch (BlockProcessor.applyBlockRewards executor.fork block.header.beneficiary
    block.body.ommers executor.stateRoot block.header.number)
  onBatch (calculateStateRoot (.spuriousDragon ≤ executor.fork) executor.stateRoot)

omit [Evm] in
/-- The block is what its transactions left, if its blob gas is right. -/
theorem closeBlock_result {executor : TransactionExecutor} {included : Included}
    {progress : Progress} {stateRoot : B256}
    (h : (closing executor block progress).result = .ok stateRoot) :
    (closeBlock provider executor block included progress).result =
      (provider.checkBlobGas executor.fork block.header included.transactions).map fun _ =>
        ⟨included.transactions, included.receipts, included.metas, progress.cumulativeGasUsed,
          stateRoot⟩ := by
  unfold closing at h
  unfold closeBlock
  cases hcheck : provider.checkBlobGas executor.fork block.header included.transactions with
  | error message => rfl
  | ok _ =>
      obtain ⟨_, hwithdrawals, h, -⟩ := exists_of_bind_ok h
      obtain ⟨_, hrewards, h, -⟩ := exists_of_bind_ok h
      refine (bind_of_ok (m := liftCheck _) (s := progress) rfl _).1.trans ?_
      refine (bind_of_ok (s := progress) hwithdrawals _).1.trans ?_
      refine (bind_of_ok hrewards _).1.trans ?_
      exact (bind_of_ok h _).1

/-- What a block with these transactions computes. -/
def survivingBlock (executor : TransactionExecutor) (progress : Progress)
    (transactions : List Transaction) (stateRoot : B256) : ComputedBlock :=
  let included := inclusions executor progress transactions
  ⟨included.map (·.tx), included.map (·.result.receipt), included.map (·.result.receiptMeta),
    (lastProgress executor progress transactions).cumulativeGasUsed, stateRoot⟩

theorem compute_result (provider : EthExecutionProvider) (batch : BatchWriter) (block : Block)
    (root : Option B256) {stateRoot : B256}
    (hopens : (openBlock (provider.executorFor batch.database block.header root) block.header
      (onBatch (root.elim (pure ()) setBaseStateRoot) ⟨batch, 0⟩).state).result = .ok ())
    (hcloses : (closing (provider.executorFor batch.database block.header root) block
      (lastProgress (provider.executorFor batch.database block.header root)
        (firstProgress provider batch block root) block.body.transactions)).result =
          .ok stateRoot) :
    (provider.compute batch.database block root true ⟨batch, 0⟩).result =
      (provider.checkBlobGas (provider.activeFork batch.database block.header) block.header
        ((blockInclusions provider batch block root).map (·.tx))).map fun _ =>
          survivingBlock (provider.executorFor batch.database block.header root)
            (firstProgress provider batch block root) block.body.transactions stateRoot := by
  have hset : (onBatch (root.elim (pure ()) setBaseStateRoot) ⟨batch, 0⟩).result = .ok () := by
    cases root <;> rfl
  unfold compute
  rw [(bind_of_ok hset _).1, computeBlock_eq, (bind_of_ok hopens _).1,
    (bind_of_ok executeTransactions_building _).1, state_executeTransactions]
  refine (closeBlock_result hcloses).trans ?_
  rw [executorFor_fork]
  rfl

variable [Proofs]

/-- In building mode the header is filled in. -/
theorem executeBlockWithBatch_building {stateRoot : Option B256}
    (hroot : baseRoot batch.database block stateRoot = .ok root) :
    (provider.executeBlockWithBatch block stateRoot true ⟨batch, 0⟩).result =
      (provider.compute batch.database block root true ⟨batch, 0⟩).result.map fun computed =>
        ⟨⟨buildHeader { block with body := { block.body with
            transactions := computed.transactions } } computed
            (provider.activeFork batch.database block.header),
          { block.body with transactions := computed.transactions }⟩,
          computed.receipts, computed.metas⟩ := by
  unfold executeBlockWithBatch
  refine (bind_of_ok (m := Routine.read) (s := Progress.mk batch 0) rfl _).1.trans ?_
  refine (bind_of_ok (m := liftExcept (baseRoot batch.database block stateRoot))
    (s := Progress.mk batch 0) hroot _).1.trans ?_
  cases hcomputed : (provider.compute batch.database block root true ⟨batch, 0⟩).result with
  | error message => exact congrArg Prod.fst (ends_bind_error hcomputed _)
  | ok computed =>
      have hbuilding : isBuilding true block.header computed.cumulativeGasUsed = true := by
        simp [isBuilding]
      have hfinal : finalizeBlockHeader block computed
          (provider.activeFork batch.database block.header) true =
          .ok ⟨buildHeader { block with body := { block.body with
            transactions := computed.transactions } } computed
              (provider.activeFork batch.database block.header),
            { block.body with transactions := computed.transactions }⟩ := by
        unfold finalizeBlockHeader
        dsimp only
        rw [if_pos hbuilding]
        rfl
      refine (bind_of_ok hcomputed _).1.trans ?_
      exact (bind_of_ok (m := liftExcept (finalizeBlockHeader block computed
        (provider.activeFork batch.database block.header) true)) hfinal _).1

variable [BlockHashing] {database : Database} {transactions others : List Transaction}
  {parent : Header} {attributes : PayloadAttributes} {baseFee : Option Nat}

/-! ## The payload -/

omit [Keccak256] in
/-- The transactions of a payload do not show in what they are executed on. -/
theorem executorFor_payload (transactions others : List Transaction) (root : Option B256) :
    provider.executorFor database
        (provider.payloadBlock transactions parent attributes baseFee).header root =
      provider.executorFor database
        (provider.payloadBlock others parent attributes baseFee).header root := by
  have hfork : ∀ txs, provider.activeFork database
      (provider.payloadBlock txs parent attributes baseFee).header =
        validatorFork provider database parent attributes :=
    fun _ => activeFork_payload _ rfl rfl rfl
  unfold executorFor
  dsimp only
  rw [hfork, hfork]
  unfold prepareEnvironment payloadBlock payloadHeader
  dsimp only

theorem openBlock_payload (transactions others : List Transaction)
    (executor : TransactionExecutor) :
    openBlock executor (provider.payloadBlock transactions parent attributes baseFee).header =
      openBlock executor (provider.payloadBlock others parent attributes baseFee).header := by
  unfold openBlock payloadBlock payloadHeader
  dsimp only

omit [Evm] in
theorem closing_payload (transactions others : List Transaction)
    (executor : TransactionExecutor) :
    closing executor (provider.payloadBlock transactions parent attributes baseFee) =
      closing executor (provider.payloadBlock others parent attributes baseFee) := by
  unfold closing payloadBlock payloadHeader
  dsimp only

theorem firstProgress_payload (transactions others : List Transaction) (root : Option B256) :
    firstProgress provider batch
        (provider.payloadBlock transactions parent attributes baseFee) root =
      firstProgress provider batch
        (provider.payloadBlock others parent attributes baseFee) root := by
  unfold firstProgress
  rw [executorFor_payload transactions others, openBlock_payload transactions others]

/-- The executor of a payload. -/
def payloadExecutor (provider : EthExecutionProvider) (database : Database) (parent : Header)
    (attributes : PayloadAttributes) (baseFee : Option Nat) : TransactionExecutor :=
  provider.executorFor database (provider.payloadBlock [] parent attributes baseFee).header
    (some parent.stateRoot)

/-- Where a payload stands before its first transaction. -/
def payloadStart (provider : EthExecutionProvider) (database : Database) (parent : Header)
    (attributes : PayloadAttributes) (baseFee : Option Nat) : Progress :=
  firstProgress provider (provider.start database).batch
    (provider.payloadBlock [] parent attributes baseFee) (some parent.stateRoot)

/-- The transactions of a payload that succeed when they are executed in turn,
without those that fail. -/
def survivors (provider : EthExecutionProvider) (database : Database)
    (transactions : List Transaction) (parent : Header) (attributes : PayloadAttributes)
    (baseFee : Option Nat) : List Transaction :=
  (inclusions (payloadExecutor provider database parent attributes baseFee)
    (payloadStart provider database parent attributes baseFee) transactions).map (·.tx)

/-- Storage takes all writes of a payload. -/
structure PayloadHolds (provider : EthExecutionProvider) (database : Database)
    (transactions : List Transaction) (parent : Header) (attributes : PayloadAttributes)
    (baseFee : Option Nat) : Prop where
  opens : (openBlock (payloadExecutor provider database parent attributes baseFee)
    (provider.payloadBlock [] parent attributes baseFee).header
    (onBatch (setBaseStateRoot parent.stateRoot) (provider.start database)).state).result = .ok ()
  writes : TakesWrites (payloadExecutor provider database parent attributes baseFee)
    (payloadStart provider database parent attributes baseFee) transactions
  closes : ∃ stateRoot,
    (closing (payloadExecutor provider database parent attributes baseFee)
      (provider.payloadBlock [] parent attributes baseFee)
      (lastProgress (payloadExecutor provider database parent attributes baseFee)
        (payloadStart provider database parent attributes baseFee) transactions)).result =
          .ok stateRoot

/-- The block that is made of what a payload computed. -/
def assemble (provider : EthExecutionProvider) (database : Database)
    (transactions : List Transaction) (parent : Header) (attributes : PayloadAttributes)
    (baseFee : Option Nat) (computed : ComputedBlock) : ExecutedBlock :=
  let block := provider.payloadBlock transactions parent attributes baseFee
  let body := { block.body with transactions := computed.transactions }
  ⟨⟨buildHeader { block with body } computed (validatorFork provider database parent attributes),
    body⟩, computed.receipts, computed.metas⟩

theorem executeBlockForPayload_eq {stateRoot : B256}
    (h : PayloadHolds provider database transactions parent attributes baseFee)
    (hcloses : (closing (payloadExecutor provider database parent attributes baseFee)
      (provider.payloadBlock [] parent attributes baseFee)
      (lastProgress (payloadExecutor provider database parent attributes baseFee)
        (payloadStart provider database parent attributes baseFee) transactions)).result =
          .ok stateRoot) :
    provider.executeBlockForPayload database transactions parent attributes baseFee =
      (provider.checkBlobGas (validatorFork provider database parent attributes)
        (provider.payloadBlock transactions parent attributes baseFee).header
        (survivors provider database transactions parent attributes baseFee)).map fun _ =>
          assemble provider database transactions parent attributes baseFee
            (survivingBlock (payloadExecutor provider database parent attributes baseFee)
              (payloadStart provider database parent attributes baseFee) transactions
              stateRoot) := by
  have hopens := h.opens
  unfold payloadExecutor at hopens hcloses
  unfold payloadStart at hcloses
  rw [executorFor_payload [] transactions, openBlock_payload [] transactions] at hopens
  rw [executorFor_payload [] transactions, closing_payload [] transactions,
    firstProgress_payload [] transactions] at hcloses
  have hfork : provider.activeFork database
      (provider.payloadBlock transactions parent attributes baseFee).header =
        validatorFork provider database parent attributes := activeFork_payload _ rfl rfl rfl
  have hroot : baseRoot (provider.start database).batch.database
      (provider.payloadBlock transactions parent attributes baseFee) (some parent.stateRoot) =
        .ok (some parent.stateRoot) := rfl
  have hcompute := compute_result provider (provider.start database).batch
    (provider.payloadBlock transactions parent attributes baseFee) (some parent.stateRoot)
    hopens hcloses
  refine (executeBlockWithBatch_building hroot).trans ?_
  rw [hcompute]
  unfold survivors payloadExecutor payloadStart
  rw [executorFor_payload [] transactions, firstProgress_payload [] transactions]
  have hdatabase : (provider.start database).batch.database = database := rfl
  rw [hdatabase, hfork]
  unfold blockInclusions assemble
  rw [hdatabase]
  have hbody : (provider.payloadBlock transactions parent attributes baseFee).body.transactions =
    transactions := rfl
  rw [hbody]
  generalize provider.checkBlobGas _ _ _ = check
  cases check <;> rfl

/-- What the transactions that succeed leave is what all of them leave. -/
theorem survivors_survivors
    (h : PayloadHolds provider database transactions parent attributes baseFee) :
    survivors provider database (survivors provider database transactions parent attributes
          baseFee) parent attributes baseFee =
        survivors provider database transactions parent attributes baseFee ∧
      PayloadHolds provider database (survivors provider database transactions parent attributes
        baseFee) parent attributes baseFee ∧
      lastProgress (payloadExecutor provider database parent attributes baseFee)
          (payloadStart provider database parent attributes baseFee)
          (survivors provider database transactions parent attributes baseFee) =
        lastProgress (payloadExecutor provider database parent attributes baseFee)
          (payloadStart provider database parent attributes baseFee) transactions ∧
      ∀ stateRoot, survivingBlock (payloadExecutor provider database parent attributes baseFee)
          (payloadStart provider database parent attributes baseFee)
          (survivors provider database transactions parent attributes baseFee) stateRoot =
        survivingBlock (payloadExecutor provider database parent attributes baseFee)
          (payloadStart provider database parent attributes baseFee) transactions stateRoot := by
  obtain ⟨hsame, hlast, hwrites⟩ := survivors_eq h.writes
  refine ⟨?_, ⟨h.opens, hwrites, ?_⟩, hlast, ?_⟩
  · unfold survivors
    rw [hsame]
  · unfold survivors
    rw [hlast]
    exact h.closes
  · intro stateRoot
    unfold survivingBlock survivors
    rw [hsame, hlast]

omit [Keccak256] [Evm] in
theorem blobGasUsed_payload (transactions : List Transaction) :
    (provider.payloadBlock transactions parent attributes baseFee).header.blobGasUsed =
      if .cancun ≤ builderFork provider parent attributes then some (blobGasUsed transactions)
      else none := by
  unfold payloadBlock payloadHeader builderFork
  dsimp only

omit [Keccak256] [Evm] in
/-- Only the blob gas of its header shows the transactions of a payload. -/
theorem assemble_eq (hblobs : .cancun ≤ builderFork provider parent attributes →
      blobGasUsed transactions = blobGasUsed others) (computed : ComputedBlock) :
    assemble provider database transactions parent attributes baseFee computed =
      assemble provider database others parent attributes baseFee computed := by
  have hheader : (provider.payloadBlock transactions parent attributes baseFee).header =
      (provider.payloadBlock others parent attributes baseFee).header := by
    unfold builderFork at hblobs
    unfold payloadBlock payloadHeader
    dsimp only
    by_cases hcancun : .cancun ≤
        Hardfork.getActiveFork provider.config (parent.number + 1) attributes.timestamp
    · rw [hblobs hcancun]
    · simp only [hcancun, if_false]
  have hbody : ∀ included,
      { (provider.payloadBlock transactions parent attributes baseFee).body with
        transactions := included } =
      { (provider.payloadBlock others parent attributes baseFee).body with
        transactions := included } := fun _ => rfl
  unfold assemble
  dsimp only
  rw [hheader, hbody]

/-- A payload with failing transactions is the one without them exactly if,
from Cancun on, those that fail carry no blobs. -/
theorem skips_cleanly_iff (provider : EthExecutionProvider) (database : Database)
    (transactions : List Transaction) (parent : Header) (attributes : PayloadAttributes)
    (baseFee : Option Nat)
    (hholds : PayloadHolds provider database transactions parent attributes baseFee)
    (hmaximum : .cancun ≤ validatorFork provider database parent attributes →
      blobGasUsed (survivors provider database transactions parent attributes baseFee) ≤
        blobMaximum provider.config (validatorFork provider database parent attributes)) :
    (∃ executed,
      provider.executeBlockForPayload database transactions parent attributes baseFee =
        .ok executed ∧
      executed.block.body.transactions =
        survivors provider database transactions parent attributes baseFee ∧
      provider.executeBlockForPayload database
        (survivors provider database transactions parent attributes baseFee) parent attributes
          baseFee = .ok executed) ↔
    (.cancun ≤ builderFork provider parent attributes →
      ∀ entry ∈ transactionStates (payloadExecutor provider database parent attributes baseFee)
          (payloadStart provider database parent attributes baseFee) transactions, ∀ message,
        ((payloadExecutor provider database parent attributes baseFee).executeTransaction entry.1
          entry.2).result = .error message → entry.1.blobVersionedHashes = []) := by
  have hcancun : Hardfork.cancun ≤ validatorFork provider database parent attributes ↔
      .cancun ≤ builderFork provider parent attributes := le_validatorFork (by decide)
  have hheader : ∀ txs, Hardfork.cancun ≤ builderFork provider parent attributes →
      (provider.payloadBlock txs parent attributes baseFee).header.blobGasUsed =
        some (blobGasUsed txs) := by
    intro txs h
    rw [blobGasUsed_payload, if_pos h]
  have hdropped : blobGasUsed transactions =
      blobGasUsed (survivors provider database transactions parent attributes baseFee) ↔ _ :=
    (blobGasUsed_inclusions (payloadExecutor provider database parent attributes baseFee)
      (payloadStart provider database parent attributes baseFee) transactions).2
  rw [← hdropped]
  obtain ⟨stateRoot, hcloses⟩ := hholds.closes
  obtain ⟨htwice, hholds', hlast, hcomputed⟩ := survivors_survivors hholds
  rw [executeBlockForPayload_eq hholds hcloses]
  constructor
  · rintro ⟨executed, hexecuted, -, -⟩ hfork
    cases hcheck : provider.checkBlobGas (validatorFork provider database parent attributes)
        (provider.payloadBlock transactions parent attributes baseFee).header
        (survivors provider database transactions parent attributes baseFee) with
    | error message =>
        rw [hcheck] at hexecuted
        cases hexecuted
    | ok _ =>
        obtain ⟨-, hexpected⟩ := checkBlobGas_ok.mp hcheck (hcancun.mpr hfork)
        exact hexpected _ (hheader transactions hfork)
  · intro hblobs
    have hcheck : ∀ txs, (Hardfork.cancun ≤ builderFork provider parent attributes →
        blobGasUsed txs = blobGasUsed (survivors provider database transactions parent attributes
          baseFee)) →
        provider.checkBlobGas (validatorFork provider database parent attributes)
          (provider.payloadBlock txs parent attributes baseFee).header
          (survivors provider database transactions parent attributes baseFee) = .ok () := by
      intro txs hsame
      apply checkBlobGas_ok.mpr
      intro hfork
      refine ⟨hmaximum hfork, ?_⟩
      intro expected hexpected
      rw [hheader txs (hcancun.mp hfork)] at hexpected
      rw [← Option.some.inj hexpected]
      exact hsame (hcancun.mp hfork)
    rw [hcheck transactions hblobs]
    refine ⟨_, rfl, rfl, ?_⟩
    rw [← hlast] at hcloses
    rw [executeBlockForPayload_eq hholds' hcloses, htwice, hcheck _ fun _ => rfl, hcomputed]
    exact congrArg Except.ok (assemble_eq hblobs _).symm

end Payload

section Sample

attribute [local instance] keccak keccakHashing keccakProofs idleEvm

def pragueProvider : EthExecutionProvider := ⟨pragueConfig, .inOrder⟩

/-- A transaction with a blob. -/
def blobTransaction : Transaction :=
  { (default : Transaction) with kind := .eip4844 0 0 0 [B256.zero] }

/-- A machine that recovers no signer executes nothing. -/
theorem inclusions_idle (executor : TransactionExecutor) (progress : Progress)
    (transactions : List Transaction) : inclusions executor progress transactions = [] := by
  induction transactions generalizing progress with
  | nil => rfl
  | cons tx rest ih =>
      have herror : (executor.executeTransaction tx progress).result =
        .error "Failed to recover signer: no signature" := rfl
      rw [inclusions_cons_error rest herror]
      exact ih _

theorem lastProgress_idle (executor : TransactionExecutor) (progress : Progress)
    (transactions : List Transaction) :
    lastProgress executor progress transactions = progress := by
  induction transactions generalizing progress with
  | nil => rfl
  | cons tx rest ih =>
      have hstate : (executor.executeTransaction tx progress).state = progress := rfl
      unfold lastProgress
      rw [List.foldl_cons, hstate]
      exact ih progress

/-- On the genesis block of the samples storage takes what there is to write. -/
theorem payloadHolds_idle (transactions : List Transaction) :
    PayloadHolds pragueProvider Engine.sampleEngine.database transactions genesisHeader
      pragueAttributes none where
  opens := by
    rw [← sampleHashing_eq]
    decide +kernel
  writes := by
    intro entry _ ran hran
    cases hran
  closes := by
    rw [lastProgress_idle]
    apply exists_ok_of_isOk
    rw [← sampleHashing_eq]
    decide +kernel

theorem skips_cleanly_idle :
    ∃ executed,
      pragueProvider.executeBlockForPayload Engine.sampleEngine.database [default] genesisHeader
        pragueAttributes none = .ok executed ∧
      executed.block.body.transactions = survivors pragueProvider Engine.sampleEngine.database
        [default] genesisHeader pragueAttributes none ∧
      pragueProvider.executeBlockForPayload Engine.sampleEngine.database
        (survivors pragueProvider Engine.sampleEngine.database [default] genesisHeader
          pragueAttributes none) genesisHeader pragueAttributes none = .ok executed := by
  refine (skips_cleanly_iff pragueProvider Engine.sampleEngine.database [default] genesisHeader
    pragueAttributes none (payloadHolds_idle _) ?_).mpr ?_
  · intro _
    unfold survivors
    rw [inclusions_idle]
    exact Nat.zero_le _
  · intro _ entry hmem _ _
    obtain rfl := List.mem_singleton.mp hmem
    rfl

/-- A transaction with a blob fails, and the payload with it. -/
theorem fails_blobTransaction :
    PayloadHolds pragueProvider Engine.sampleEngine.database [blobTransaction] genesisHeader
        pragueAttributes none ∧
      survivors pragueProvider Engine.sampleEngine.database [blobTransaction] genesisHeader
        pragueAttributes none = [] ∧
      pragueProvider.executeBlockForPayload Engine.sampleEngine.database [blobTransaction]
        genesisHeader pragueAttributes none =
          .error "Block blob gas used mismatch: header=131072, calculated=0" := by
  refine ⟨payloadHolds_idle _, ?_, ?_⟩
  · unfold survivors
    rw [inclusions_idle]
    rfl
  · rw [← sampleHashing_eq]
    decide +kernel

end Sample

end WasixEth.EthExecutionProvider
