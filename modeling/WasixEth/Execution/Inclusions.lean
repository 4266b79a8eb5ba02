import WasixEth.Execution.Admissible

/-! # The transactions that make it into a block

The transactions of a block are attempted in turn. An attempt first only looks
at the state, and only once the machine has answered does it write. So the
attempts that fail early leave nothing behind, and a block consists of those
that succeed.
-/

namespace WasixEth.EthExecutionProvider

open Storage Routine BatchWriter TransactionExecutor

/-- How a run ends, apart from its log. -/
def ends {σ ω ε α : Type} (outcome : Outcome σ ω ε α) : Except ε α × σ :=
  (outcome.result, outcome.state)

section Ends

variable {σ ω ε α β : Type} {m : Routine σ ω ε α} {s : σ}

theorem ends_bind_ok {a : α} (h : (m s).result = .ok a) (f : α → Routine σ ω ε β) :
    ends ((m >>= f) s) = ends (f a (m s).state) :=
  Prod.ext (bind_of_ok h f).1 (bind_of_ok h f).2

theorem ends_bind_error {e : ε} (h : (m s).result = .error e) (f : α → Routine σ ω ε β) :
    ends ((m >>= f) s) = (.error e, (m s).state) := by
  rw [bind_apply, Routine.bind]
  rcases hrun : m s with ⟨result, s', log⟩
  rw [hrun] at h
  cases h
  rfl

end Ends

theorem exists_ok_of_isOk {α : Type} {result : Except String α} (h : result.isOk = true) :
    ∃ value, result = .ok value := by
  cases result with
  | error message => cases h
  | ok value => exact ⟨value, rfl⟩

section Attempts

variable [Keccak256] [Evm] (executor : TransactionExecutor)

/-! ## One attempt -/

/-- The part of an attempt that writes nothing. -/
def examine (tx : Transaction) (progress : Progress) :
    Except String (TransactValue × Bool × OverlayedChangeSet) :=
  match Evm.recoverSigner tx with
  | .error message => .error s!"Failed to recover signer: {message}"
  | .ok sender => do
      (executor.validateTransactionWithState tx sender progress.batch).result
      executor.runMachine tx sender progress.batch

/-- The writes of an attempt. -/
def write (tx : Transaction) (ran : TransactValue × Bool × OverlayedChangeSet) :
    ExecM TransactionExecutionResult := do
  let eip161 : Bool := .spuriousDragon ≤ executor.fork
  onBatch (StateApplier.applyChangeset ran.2.2 eip161 executor.stateRoot)
  let _ ← onBatch (account executor.beneficiary executor.stateRoot)
  let root ← onBatch (calculateStateRoot eip161 executor.stateRoot)
  let progress ← read
  return recordOf executor tx ran.1 ran.2.1 ran.2.2 progress.cumulativeGasUsed root

/-- The gas is counted before anything is written. -/
def settle (tx : Transaction) (ran : TransactValue × Bool × OverlayedChangeSet) :
    ExecM TransactionExecutionResult := do
  modify fun progress =>
    { progress with cumulativeGasUsed := progress.cumulativeGasUsed + ran.1.usedGas }
  write executor tx ran

variable {executor} {tx : Transaction} {progress : Progress}

omit [Evm] in
theorem reads_validateTransactionWithState (tx : Transaction) (sender : Address) :
    Reads (executor.validateTransactionWithState tx sender) := by
  unfold validateTransactionWithState
  refine reads_bind (reads_account _ _) ?_
  intro found batch
  cases executor.validateTransaction tx sender (found.getD .blank) <;> rfl

/-- An attempt fails where it only looks, and then leaves nothing behind, or it
goes on to write. -/
theorem executeTransaction_ends (executor : TransactionExecutor) (tx : Transaction)
    (progress : Progress) :
    ends (executor.executeTransaction tx progress) =
      match examine executor tx progress with
      | .error message => (.error message, progress)
      | .ok ran => ends (settle executor tx ran progress) := by
  unfold executeTransaction examine
  cases hsigner : Evm.recoverSigner tx with
  | error message => rfl
  | ok sender =>
      dsimp only
      have hread : (onBatch (executor.validateTransactionWithState tx sender) progress).state =
          progress := by
        unfold onBatch
        dsimp only
        rw [reads_validateTransactionWithState]
      refine (ends_bind_ok rfl _).trans ?_
      cases hvalid : (executor.validateTransactionWithState tx sender progress.batch).result with
      | error message =>
          refine (ends_bind_error (m := onBatch _) hvalid _).trans ?_
          exact Prod.ext rfl hread
      | ok _ =>
          refine (ends_bind_ok (m := onBatch _) hvalid _).trans ?_
          rw [hread]
          refine (ends_bind_ok rfl _).trans ?_
          dsimp only [bind, Except.bind]
          cases executor.runMachine tx sender progress.batch with
          | error message => rfl
          | ok ran => rfl

/-- The gas an attempt adds to the block, whatever becomes of it. -/
def countedGas (executor : TransactionExecutor) (tx : Transaction) (progress : Progress) : Nat :=
  match examine executor tx progress with
  | .error _ => 0
  | .ok ran => ran.1.usedGas

omit [Evm] in
theorem gas_write (ran : TransactValue × Bool × OverlayedChangeSet) :
    Moves (fun p p' => p'.cumulativeGasUsed = p.cumulativeGasUsed) (write executor tx ran) := by
  have htrans : ∀ p p' p'' : Progress, p'.cumulativeGasUsed = p.cumulativeGasUsed →
      p''.cumulativeGasUsed = p'.cumulativeGasUsed → p''.cumulativeGasUsed = p.cumulativeGasUsed :=
    fun _ _ _ h h' => h'.trans h
  unfold write
  refine moves_bind htrans (fun _ => rfl) ?_
  intro _
  refine moves_bind htrans (fun _ => rfl) ?_
  intro _
  exact moves_bind htrans (fun _ => rfl) (fun _ _ => rfl)

omit [Evm] in
theorem gas_settle (ran : TransactValue × Bool × OverlayedChangeSet) :
    (settle executor tx ran progress).state.cumulativeGasUsed =
      progress.cumulativeGasUsed + ran.1.usedGas := by
  unfold settle
  refine (congrArg Progress.cumulativeGasUsed (bind_of_ok rfl _).2).trans ?_
  exact gas_write ran _

theorem gas_executeTransaction (executor : TransactionExecutor) (tx : Transaction)
    (progress : Progress) :
    (executor.executeTransaction tx progress).state.cumulativeGasUsed =
      progress.cumulativeGasUsed + countedGas executor tx progress := by
  have hends := congrArg Prod.snd (executeTransaction_ends executor tx progress)
  unfold countedGas
  cases hexamine : examine executor tx progress with
  | error message =>
      rw [hexamine] at hends
      exact congrArg Progress.cumulativeGasUsed hends
  | ok ran =>
      rw [hexamine] at hends
      exact (congrArg Progress.cumulativeGasUsed hends).trans (gas_settle ran)

/-- The gas an attempt that succeeds reports is what it adds to the block. -/
theorem gasUsed_executeTransaction {result : TransactionExecutionResult}
    (h : (executor.executeTransaction tx progress).result = .ok result) :
    result.gasUsed = countedGas executor tx progress ∧
      result.receipt.cumulativeGasUsed = progress.cumulativeGasUsed + result.gasUsed := by
  obtain ⟨_, _, _, _, _, _, -, -, -, -, hrecord, hgas⟩ := exists_recordOf_executeTransaction h
  have hcounted := gas_executeTransaction executor tx progress
  rw [hrecord]
  unfold recordOf
  dsimp only
  omega

/-! ## All attempts -/

/-- A transaction of a block, with the progress before it and what came of
it. -/
structure Inclusion where
  tx : Transaction
  progress : Progress
  result : TransactionExecutionResult

/-- The attempts that succeed, when the transactions are attempted in turn. -/
def inclusions (executor : TransactionExecutor) : Progress → List Transaction → List Inclusion
  | _, [] => []
  | progress, tx :: rest =>
      let outcome := executor.executeTransaction tx progress
      match outcome.result with
      | .ok result => ⟨tx, progress, result⟩ :: inclusions executor outcome.state rest
      | .error _ => inclusions executor outcome.state rest

theorem inclusions_cons_ok {result : TransactionExecutionResult} (rest : List Transaction)
    (h : (executor.executeTransaction tx progress).result = .ok result) :
    inclusions executor progress (tx :: rest) = ⟨tx, progress, result⟩ ::
      inclusions executor (executor.executeTransaction tx progress).state rest := by
  rw [inclusions, h]

theorem inclusions_cons_error {message : String} (rest : List Transaction)
    (h : (executor.executeTransaction tx progress).result = .error message) :
    inclusions executor progress (tx :: rest) =
      inclusions executor (executor.executeTransaction tx progress).state rest := by
  rw [inclusions, h]

/-- The gas of the attempts that fail after it was counted. -/
def lostGas (executor : TransactionExecutor) : Progress → List Transaction → Nat
  | _, [] => 0
  | progress, tx :: rest =>
      let outcome := executor.executeTransaction tx progress
      (match outcome.result with
        | .ok _ => 0
        | .error _ => countedGas executor tx progress) + lostGas executor outcome.state rest

def Included.addAll (included : Included) (added : List Inclusion) : Included :=
  ⟨included.transactions ++ added.map (·.tx), included.receipts ++ added.map (·.result.receipt),
    included.metas ++ added.map (·.result.receiptMeta)⟩

omit [Keccak256] [Evm] in
theorem addAll_nil (included : Included) : included.addAll [] = included := by
  simp [Included.addAll]

omit [Keccak256] [Evm] in
theorem add_addAll (included : Included) (inclusion : Inclusion) (added : List Inclusion) :
    (included.add inclusion.tx inclusion.result).addAll added =
      included.addAll (inclusion :: added) := by
  simp [Included.addAll, Included.add]

variable {building : Bool} {included final : Included} {transactions : List Transaction}

/-- A block consists of the attempts that succeed. -/
theorem included_of_executeTransactions
    (h : (executeTransactions executor building included transactions progress).result =
      .ok final) : final = included.addAll (inclusions executor progress transactions) := by
  induction transactions generalizing included progress with
  | nil =>
      cases h
      exact (addAll_nil _).symm
  | cons tx rest ih =>
      unfold executeTransactions at h
      obtain ⟨result, hresult, h, -⟩ := exists_of_bind_ok h
      have hattempt := Except.ok.inj hresult
      unfold inclusions
      dsimp only
      rw [hattempt]
      cases result with
      | ok result => exact (ih h).trans (add_addAll included ⟨tx, progress, result⟩ _)
      | error message =>
          dsimp only at h
          split at h
          · exact ih h
          · cases h

/-- In building mode a block is always found. -/
theorem executeTransactions_building :
    (executeTransactions executor true included transactions progress).result =
      .ok (included.addAll (inclusions executor progress transactions)) := by
  have hok : ∃ final, (executeTransactions executor true included transactions progress).result =
      .ok final := by
    induction transactions generalizing included progress with
    | nil => exact ⟨included, rfl⟩
    | cons tx rest ih =>
        unfold executeTransactions
        rw [(bind_of_ok (m := attempt (executor.executeTransaction tx)) rfl _).1]
        cases (executor.executeTransaction tx progress).result with
        | ok result => exact ih
        | error message => exact ih
  obtain ⟨final, hfinal⟩ := hok
  rw [hfinal, included_of_executeTransactions hfinal]

/-- The gas of the block is the gas of its transactions and of the attempts
that failed too late. -/
theorem gas_executeTransactions
    (h : (executeTransactions executor building included transactions progress).result =
      .ok final) :
    (executeTransactions executor building included transactions
        progress).state.cumulativeGasUsed =
      progress.cumulativeGasUsed +
        ((inclusions executor progress transactions).map (·.result.gasUsed)).sum +
        lostGas executor progress transactions := by
  induction transactions generalizing included progress with
  | nil => rfl
  | cons tx rest ih =>
      unfold executeTransactions at h ⊢
      obtain ⟨result, hresult, h, hstate⟩ := exists_of_bind_ok h
      have hattempt := Except.ok.inj hresult
      have hgas := gas_executeTransaction executor tx progress
      rw [hstate]
      unfold inclusions lostGas
      dsimp only
      rw [hattempt]
      cases result with
      | ok result =>
          refine (ih h).trans ?_
          have hcounted := (gasUsed_executeTransaction hattempt).1
          have hattempted : (attempt (executor.executeTransaction tx)
            progress).state = (executor.executeTransaction tx progress).state := rfl
          rw [hattempted, hgas, List.map_cons, List.sum_cons]
          dsimp only
          omega
      | error message =>
          dsimp only at h ⊢
          split at h
          next hbuilding =>
            rw [if_pos hbuilding]
            refine (ih h).trans ?_
            have hattempted : (attempt (executor.executeTransaction tx)
              progress).state = (executor.executeTransaction tx progress).state := rfl
            rw [hattempted, hgas]
            omega
          · cases h

/-! ## The block -/

variable {provider : EthExecutionProvider} {batch : BatchWriter} {block : Block}
  {root stateRoot : Option B256}

/-- Where a block stands when its first transaction is attempted. -/
def firstProgress (provider : EthExecutionProvider) (batch : BatchWriter) (block : Block)
    (root : Option B256) : Progress :=
  (openBlock (provider.executorFor batch.database block.header root) block.header
    (onBatch (root.elim (pure ()) setBaseStateRoot) ⟨batch, 0⟩).state).state

/-- The transactions of a block that make it. -/
def blockInclusions (provider : EthExecutionProvider) (batch : BatchWriter) (block : Block)
    (root : Option B256) : List Inclusion :=
  inclusions (provider.executorFor batch.database block.header root)
    (firstProgress provider batch block root) block.body.transactions

theorem gas_firstProgress (provider : EthExecutionProvider) (batch : BatchWriter) (block : Block)
    (root : Option B256) : (firstProgress provider batch block root).cumulativeGasUsed = 0 := by
  unfold firstProgress
  rw [gas_openBlock]
  rfl

/-- What a block computes is made of the attempts that succeed. -/
theorem of_compute {computed : ComputedBlock}
    (h : (provider.compute batch.database block root building ⟨batch, 0⟩).result = .ok computed) :
    computed.transactions = (blockInclusions provider batch block root).map (·.tx) ∧
      computed.receipts = (blockInclusions provider batch block root).map (·.result.receipt) ∧
      computed.metas = (blockInclusions provider batch block root).map (·.result.receiptMeta) ∧
      computed.cumulativeGasUsed =
        ((blockInclusions provider batch block root).map (·.result.gasUsed)).sum +
          lostGas (provider.executorFor batch.database block.header root)
            (firstProgress provider batch block root) block.body.transactions := by
  unfold compute at h
  obtain ⟨_, -, h, -⟩ := exists_of_bind_ok h
  obtain ⟨included, hrun, -, htransactions, hreceipts, hmetas, hgas⟩ := of_computeBlock h
  rw [htransactions, hreceipts, hmetas, hgas]
  unfold runTransactions at hrun ⊢
  obtain ⟨_, -, hrun, hstate⟩ := exists_of_bind_ok hrun
  have hcounted := gas_executeTransactions hrun
  rw [hstate, hcounted, included_of_executeTransactions hrun]
  have hzero := gas_firstProgress provider batch block root
  unfold firstProgress at hzero
  rw [hzero, Nat.zero_add]
  exact ⟨rfl, rfl, rfl, rfl⟩

end Attempts

end WasixEth.EthExecutionProvider
