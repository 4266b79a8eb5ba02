import WasixEth.Execution.Admissible

/-! # The bill of a failed transaction

The machine does not say how much gas a transaction used that it gave up on.
The gas is reconstructed from what the sender has lost: divided by the price,
and raised to the intrinsic gas. Here the gas that is reported is compared with
what the sender pays.
-/

namespace WasixEth.TransactionExecutor

open Storage Routine BatchWriter EthExecutionProvider

/-! ## Reconstructed gas -/

/-- The gas a loss amounts to at a rate is within a limit if the intrinsic gas
and the quotient are. -/
theorem max_quotient_le {loss rate intrinsic limit : Nat} :
    max (if 0 < rate then loss / rate else 0) intrinsic ≤ limit ↔
      intrinsic ≤ limit ∧ (rate = 0 ∨ loss / rate ≤ limit) := by
  rw [Nat.max_le]
  split
  next hrate =>
    have hne : rate ≠ 0 := by omega
    simp only [hne, false_or]
    exact and_comm
  next hrate =>
    have heq : rate = 0 := by omega
    simp [heq]

/-- At a positive price the reconstruction finds the gas if nothing is left of
the fee after the division, and the intrinsic gas is not more. -/
theorem max_quotient_eq {used price fee intrinsic : Nat} (hprice : 0 < price) :
    max ((used * price + fee) / price) intrinsic = used ↔ fee < price ∧ intrinsic ≤ used := by
  rw [Nat.add_comm, Nat.add_mul_div_right _ _ hprice, ← Nat.div_eq_zero_iff_lt hprice]
  generalize fee / price = rest
  omega

/-! ## The bill -/

section Bill

variable [Keccak256] [Evm] (executor : TransactionExecutor) (tx : Transaction) (sender : Address)

/-- The price of a unit of gas. -/
def price : Nat := Evm.effectiveGasPrice (executor.prepareTransactArgs tx sender) executor.env

def balanceBefore (batch : BatchWriter) : U256 :=
  (executor.prepareBackend tx sender batch).balance sender

/-- The sender's balance once the changes are applied. -/
def balanceAfter (batch : BatchWriter) (changes : OverlayedChangeSet) : U256 :=
  (changes.balances.lookup sender).getD (executor.balanceBefore tx sender batch)

/-- What the machine leaves of the sender's balance when it gives up: the
balance it was given less some gas at the price, and all of it if the sender
cannot pay for the gas limit up front. -/
structure GivesUp (batch : BatchWriter) (overlay : OverlayedBackend) (error : ExitError)
    (changes : OverlayedChangeSet) (used : Nat) : Prop where
  overlay_eq : executor.handlePreExecution tx sender (executor.prepareBackend tx sender batch) =
    .ok overlay
  transact_eq : Evm.transact (executor.prepareTransactArgs tx sender) overlay = (.error error, changes)
  not_fatal : ∀ message, error ≠ .fatal message
  balance_eq : (executor.balanceAfter tx sender batch changes).toNat +
    used * executor.price tx sender = (overlay.balance sender).toNat
  used_le : used ≤ tx.gasLimit
  unfunded : (overlay.balance sender).toNat < tx.gasLimit * executor.price tx sender → used = 0

/-- The gas is within the limit, and the sender pays for it and for its blobs.
The beneficiary's own balance also grows by the tip. -/
def Billed (batch : BatchWriter) (changes : OverlayedChangeSet) (gas : Nat) : Prop :=
  gas ≤ tx.gasLimit ∧ (sender ≠ executor.env.blockCoinbase →
    (executor.balanceBefore tx sender batch).toNat -
        (executor.balanceAfter tx sender batch changes).toNat =
      gas * executor.price tx sender + executor.blobFee tx)

/-- When the reconstruction finds the gas that was used: the limit covers the
intrinsic gas, and at a price the gas used does too, while the blob fee does
not amount to a unit of gas. -/
def Recovers (used : Nat) : Prop :=
  let intrinsic := calculateIntrinsicGas tx executor.fork
  let price := executor.price tx sender
  let rate := price - Evm.coinbaseReward (executor.prepareTransactArgs tx sender) executor.env
  intrinsic ≤ tx.gasLimit ∧
    (sender ≠ executor.env.blockCoinbase →
      price = 0 ∨ (executor.blobFee tx < price ∧ intrinsic ≤ used)) ∧
    (sender = executor.env.blockCoinbase →
      rate = 0 ∨ (used * price + executor.blobFee tx) / rate ≤ tx.gasLimit)

variable {executor tx sender} {batch : BatchWriter} {overlay : OverlayedBackend}
  {error : ExitError} {changes : OverlayedChangeSet} {used : Nat}

omit [Keccak256] [Evm] in
theorem blobFee_eq_zero (h : tx.ty ≠ 3 ∨ ¬ .cancun ≤ executor.fork) : executor.blobFee tx = 0 := by
  unfold blobFee
  split
  next hcancun =>
    have hty : tx.ty ≠ 3 := h.resolve_right (not_not_intro hcancun)
    unfold Transaction.ty at hty
    unfold Transaction.blobVersionedHashes
    cases hkind : tx.kind with
    | eip4844 _ _ _ _ =>
        rw [hkind] at hty
        exact absurd rfl hty
    | _ => simp
  · rfl

omit [Evm] in
/-- The blob fee is what the machine finds missing. -/
theorem overlay_balance
    (h : executor.handlePreExecution tx sender (executor.prepareBackend tx sender batch) =
      .ok overlay) :
    (overlay.balance sender).toNat + executor.blobFee tx =
      (executor.balanceBefore tx sender batch).toNat := by
  unfold handlePreExecution at h
  unfold balanceBefore
  generalize executor.prepareBackend tx sender batch = backend at h ⊢
  split at h
  next hkind =>
    split at h
    next hcancun =>
      split at h
      · cases h
      next hfunds =>
        cases h
        have hlt := (backend.balance sender).isLt
        simp only [OverlayedBackend.balance, List.lookup_cons_self, Option.getD_some,
          BitVec.toNat_ofNat]
        rw [Nat.mod_eq_of_lt (by omega)]
        omega
    next hcancun =>
      cases h
      rw [blobFee_eq_zero (.inr hcancun)]
      rfl
  next hkind =>
    cases h
    have hty : tx.ty ≠ 3 := by
      unfold Transaction.ty
      cases hk : tx.kind with
      | eip4844 _ _ _ _ => exact absurd hk (hkind _ _ _ _)
      | _ => simp
    rw [blobFee_eq_zero (.inl hty)]
    rfl

/-- What the sender has lost when the machine gives up. -/
theorem GivesUp.spent (h : GivesUp executor tx sender batch overlay error changes used) :
    (executor.balanceBefore tx sender batch).toNat -
      (executor.balanceAfter tx sender batch changes).toNat =
        used * executor.price tx sender + executor.blobFee tx := by
  have hbalance := h.balance_eq
  have hblobs := overlay_balance h.overlay_eq
  omega

/-- The value that is reported, whatever the error. -/
theorem GivesUp.runMachine_eq (h : GivesUp executor tx sender batch overlay error changes used) :
    executor.runMachine tx sender batch =
      .ok (⟨.call .stopped [], executor.failedGas tx (executor.prepareTransactArgs tx sender) sender
        (executor.balanceBefore tx sender batch)
        (executor.balanceAfter tx sender batch changes)⟩, true, changes) := by
  unfold runMachine
  simp only [h.overlay_eq, h.transact_eq, bind, Except.bind]
  unfold handleTransactError
  cases error with
  | exception e => rfl
  | reverted => rfl
  | fatal message => exact absurd rfl (h.not_fatal message)

/-- What is reported is what is paid exactly if the reconstruction finds the
gas that was used. -/
theorem billed_failedGas_iff (h : GivesUp executor tx sender batch overlay error changes used) :
    Billed executor tx sender batch changes
        (executor.failedGas tx (executor.prepareTransactArgs tx sender) sender
          (executor.balanceBefore tx sender batch)
          (executor.balanceAfter tx sender batch changes)) ↔
      Recovers executor tx sender used := by
  have hprice : Evm.effectiveGasPrice (executor.prepareTransactArgs tx sender) executor.env =
    executor.price tx sender := rfl
  unfold Billed Recovers failedGas
  dsimp only
  rw [h.spent, hprice]
  by_cases hcoinbase : sender = executor.env.blockCoinbase
  · simp only [hcoinbase, if_true, ne_eq, not_true_eq_false, false_implies, and_true, true_and,
      true_implies]
    exact max_quotient_le
  · simp only [hcoinbase, if_false, ne_eq, not_false_eq_true, true_implies, false_implies, and_true]
    have hused := h.used_le
    rcases Nat.eq_zero_or_pos (executor.price tx sender) with hzero | hpos
    · simp [hzero]
    · rw [if_pos hpos, Nat.add_right_cancel_iff, Nat.mul_left_inj hpos.ne']
      have hrecovers : max ((used * executor.price tx sender + executor.blobFee tx) /
            executor.price tx sender) (calculateIntrinsicGas tx executor.fork) = used ↔
          executor.blobFee tx < executor.price tx sender ∧
            calculateIntrinsicGas tx executor.fork ≤ used := max_quotient_eq hpos
      constructor
      · rintro ⟨hle, heq⟩
        have hboth := hrecovers.mp heq.symm
        exact ⟨by omega, .inr hboth⟩
      · rintro ⟨hle, hzero | hboth⟩
        · omega
        · have heq := hrecovers.mpr hboth
          exact ⟨heq.trans_le hused, heq.symm⟩

/-- The gas of a transaction the machine gives up on is what its sender is
billed for exactly if the reconstruction recovers it; this gas is what the
receipt and the block count. -/
theorem failedTransaction_billed_iff
    (h : GivesUp executor tx sender batch overlay error changes used) :
    ∃ value, executor.runMachine tx sender batch = .ok (value, true, changes) ∧
      (∀ progress result, Evm.recoverSigner tx = .ok sender → progress.batch = batch →
        (executor.executeTransaction tx progress).result = .ok result →
        result.gasUsed = value.usedGas ∧
          result.receipt.cumulativeGasUsed = progress.cumulativeGasUsed + value.usedGas ∧
          (executor.executeTransaction tx progress).state.cumulativeGasUsed =
            progress.cumulativeGasUsed + value.usedGas) ∧
      (Billed executor tx sender batch changes value.usedGas ↔
        Recovers executor tx sender used) := by
  refine ⟨_, h.runMachine_eq, ?_, billed_failedGas_iff h⟩
  intro progress result hsigner hbatch hresult
  obtain ⟨signer, _, value, _, _, _, hsigner', -, -, hmachine, hrecord, hgas⟩ :=
    exists_recordOf_executeTransaction hresult
  obtain rfl : signer = sender := Except.ok.inj (hsigner'.symm.trans hsigner)
  rw [hbatch, h.runMachine_eq] at hmachine
  cases hmachine
  rw [hrecord]
  exact ⟨rfl, rfl, hgas⟩

end Bill

section Sample

attribute [local instance] keccak

/-- The changes of a machine that leaves a sender with this balance. -/
def balanceChange (balance : U256) : OverlayedChangeSet :=
  ⟨[], [(Address.trailing 7, balance)], [], [], [], [], [], []⟩

/-- A machine that gives every transaction up once it has used 25000 of the
gas of a sender with 100000 wei. -/
@[reducible] def revertingEvm : Evm :=
  { fundlessEvm with transact := fun _ _ => (.error .reverted, balanceChange 75000) }

def billingExecutor : TransactionExecutor where
  env := ⟨1, 0, 30000000, default, 0, 0, none, 1, 0, []⟩
  fork := .london
  beneficiary := default
  stateRoot := some emptyRootHash

/-- A batch in which the sender has 100000 wei. -/
def fundedBatch : BatchWriter :=
  (updateAccount (Address.trailing 7) { TrieAccount.blank with balance := 100000 }
    (beginBatch .inOrder emptyDatabase)).state

def costlyTransaction : Transaction := { cheapTransaction with gasLimit := 30000 }

section Reverting

attribute [local instance] revertingEvm

theorem givesUp_costlyTransaction :
    GivesUp billingExecutor costlyTransaction (Address.trailing 7) fundedBatch
      ⟨billingExecutor.prepareBackend costlyTransaction (Address.trailing 7) fundedBatch, []⟩
      .reverted (balanceChange 75000) 25000 where
  overlay_eq := rfl
  transact_eq := rfl
  not_fatal _ := by simp
  balance_eq := by decide +kernel
  used_le := by decide
  unfunded := by decide +kernel

theorem billed_costlyTransaction :
    ∃ value, billingExecutor.runMachine costlyTransaction (Address.trailing 7) fundedBatch =
        .ok (value, true, balanceChange 75000) ∧
      Billed billingExecutor costlyTransaction (Address.trailing 7) fundedBatch
        (balanceChange 75000) value.usedGas := by
  obtain ⟨value, hvalue, -, hbilled⟩ := failedTransaction_billed_iff givesUp_costlyTransaction
  refine ⟨value, hvalue, hbilled.mpr ⟨by decide, ?_, ?_⟩⟩
  · intro _
    exact .inr ⟨by decide, by decide⟩
  · intro hcoinbase
    exact absurd hcoinbase (by decide)

end Reverting

section Fundless

attribute [local instance] fundlessEvm

/-- A sender without funds pays nothing, and the intrinsic gas is reported. -/
theorem not_billed_cheapTransaction :
    GivesUp billingExecutor cheapTransaction (Address.trailing 7)
        (beginBatch .inOrder emptyDatabase)
        ⟨billingExecutor.prepareBackend cheapTransaction (Address.trailing 7)
          (beginBatch .inOrder emptyDatabase), []⟩
        (.exception .outOfFund) ⟨[], [], [], [], [], [], [], []⟩ 0 ∧
      billingExecutor.runMachine cheapTransaction (Address.trailing 7)
          (beginBatch .inOrder emptyDatabase) =
        .ok (⟨.call .stopped [], 21000⟩, true, ⟨[], [], [], [], [], [], [], []⟩) ∧
      ¬ Billed billingExecutor cheapTransaction (Address.trailing 7)
        (beginBatch .inOrder emptyDatabase) ⟨[], [], [], [], [], [], [], []⟩ 21000 := by
  have hgivesUp : GivesUp billingExecutor cheapTransaction (Address.trailing 7)
        (beginBatch .inOrder emptyDatabase)
        ⟨billingExecutor.prepareBackend cheapTransaction (Address.trailing 7)
          (beginBatch .inOrder emptyDatabase), []⟩
        (.exception .outOfFund) ⟨[], [], [], [], [], [], [], []⟩ 0 :=
    { overlay_eq := rfl
      transact_eq := rfl
      not_fatal := fun _ => by simp
      balance_eq := by decide +kernel
      used_le := by decide
      unfunded := fun _ => rfl }
  refine ⟨hgivesUp, ?_, ?_⟩
  · rw [hgivesUp.runMachine_eq]
    have hgas : billingExecutor.failedGas cheapTransaction
        (billingExecutor.prepareTransactArgs cheapTransaction (Address.trailing 7))
        (Address.trailing 7)
        (billingExecutor.balanceBefore cheapTransaction (Address.trailing 7)
          (beginBatch .inOrder emptyDatabase))
        (billingExecutor.balanceAfter cheapTransaction (Address.trailing 7)
          (beginBatch .inOrder emptyDatabase) ⟨[], [], [], [], [], [], [], []⟩) = 21000 := by
      decide +kernel
    rw [hgas]
  · rintro ⟨-, hpaid⟩
    exact absurd (hpaid (by decide)) (by decide +kernel)

end Fundless

end Sample

end WasixEth.TransactionExecutor
