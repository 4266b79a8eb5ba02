import WasixEth.Engine.PayloadBuilder
import WasixEth.Mempool.Pool

/-! # The tip of a transaction

The mempool ranks transactions by their tip, a payload is worth the tips of its
transactions, and the machine pays the tip to the beneficiary. The three
computations are compared here.
-/

namespace WasixEth

/-- What the machine takes for a unit of gas at a base fee. -/
def TransactGasPrice.charged (baseFee : Nat) : TransactGasPrice → Nat
  | .legacy gasPrice => gasPrice
  | .feeMarket maxPriority maximum => min maximum (baseFee + maxPriority)

theorem charged_feeMarket_sub {baseFee maxFee : Nat} (maxPriority : Nat) (hfee : baseFee ≤ maxFee) :
    (TransactGasPrice.feeMarket (min maxPriority (maxFee - baseFee)) maxFee).charged baseFee -
      baseFee = min maxPriority (maxFee - baseFee) := by
  dsimp only [TransactGasPrice.charged]
  omega

/-- A machine that takes the price it is offered, and of a fee market no more
than the base fee with the priority fee. -/
def ChargesOffer [Evm] : Prop :=
  ∀ args env, Evm.effectiveGasPrice args env = args.gasPrice.charged env.blockBaseFeePerGas

namespace TransactionExecutor

/-- What the beneficiary is paid for a unit of gas. -/
def creditedTip [Evm] (executor : TransactionExecutor) (tx : Transaction)
    (sender : Address) : Nat :=
  Evm.effectiveGasPrice (executor.prepareTransactArgs tx sender) executor.env -
    executor.env.blockBaseFeePerGas

/-- The price a transaction is charged is bounded by its fee cap and by its
priority fee, but a transaction of type 4 offers nothing. -/
theorem creditedTip_eq [Evm] (hcharges : ChargesOffer) {executor : TransactionExecutor}
    {tx : Transaction} {sender : Address}
    (hfee : executor.env.blockBaseFeePerGas ≤ tx.maxFeePerGas) :
    executor.creditedTip tx sender =
      match tx.kind with
      | .legacy gasPrice => gasPrice - executor.env.blockBaseFeePerGas
      | .eip2930 gasPrice => gasPrice - executor.env.blockBaseFeePerGas
      | .eip1559 maxFee maxPriority => min maxPriority (maxFee - executor.env.blockBaseFeePerGas)
      | .eip4844 maxFee maxPriority _ _ =>
          min maxPriority (maxFee - executor.env.blockBaseFeePerGas)
      | .eip7702 _ _ _ => 0 := by
  unfold creditedTip
  rw [hcharges]
  unfold prepareTransactArgs gasPriceOf Transaction.gasPrice
  unfold Transaction.maxFeePerGas at hfee
  cases hkind : tx.kind with
  | legacy gasPrice => rfl
  | eip2930 gasPrice => rfl
  | eip1559 maxFee maxPriority =>
      rw [hkind] at hfee
      dsimp only at hfee ⊢
      rw [if_pos hfee]
      exact charged_feeMarket_sub maxPriority hfee
  | eip4844 maxFee maxPriority _ _ =>
      rw [hkind] at hfee
      dsimp only at hfee ⊢
      rw [if_pos hfee]
      exact charged_feeMarket_sub maxPriority hfee
  | eip7702 maxFee maxPriority _ => exact Nat.zero_sub _

end TransactionExecutor

theorem calculateEffectiveTip_eq {tx : Transaction} {baseFee : Nat} (hbase : baseFee < 2 ^ 64)
    (hfee : baseFee ≤ tx.maxFeePerGas) :
    calculateEffectiveTip tx baseFee = some (Engine.priorityFeePerGas baseFee tx) := by
  have hto : toU128 baseFee = some baseFee := if_pos (by omega)
  unfold calculateEffectiveTip Engine.priorityFeePerGas
  rw [hto]
  unfold Transaction.maxFeePerGas at hfee ⊢
  unfold Transaction.maxPriorityFeePerGas
  cases hkind : tx.kind with
  | legacy gasPrice =>
      rw [hkind] at hfee
      exact if_neg (Nat.not_lt.mpr hfee)
  | eip2930 gasPrice =>
      rw [hkind] at hfee
      exact if_neg (Nat.not_lt.mpr hfee)
  | eip1559 maxFee maxPriority =>
      rw [hkind] at hfee
      refine (if_neg (Nat.not_lt.mpr hfee)).trans (congrArg some ?_)
      dsimp only [Option.getD_some]
      omega
  | eip4844 maxFee maxPriority _ _ =>
      rw [hkind] at hfee
      refine (if_neg (Nat.not_lt.mpr hfee)).trans (congrArg some ?_)
      dsimp only [Option.getD_some]
      omega
  | eip7702 maxFee maxPriority _ =>
      rw [hkind] at hfee
      refine (if_neg (Nat.not_lt.mpr hfee)).trans (congrArg some ?_)
      dsimp only [Option.getD_some]
      omega

/-- The three computations agree, except that a transaction of type 4 pays the
beneficiary nothing whatever tip it offers. -/
theorem tips_agree_iff [Evm] (hcharges : ChargesOffer) (executor : TransactionExecutor)
    (tx : Transaction) (sender : Address) (baseFee : Nat) (hbase : baseFee < 2 ^ 64)
    (henv : executor.env.blockBaseFeePerGas = baseFee) (hfee : baseFee ≤ tx.maxFeePerGas) :
    (calculateEffectiveTip tx baseFee = some (Engine.priorityFeePerGas baseFee tx) ∧
        Engine.priorityFeePerGas baseFee tx = executor.creditedTip tx sender) ↔
      (tx.ty = 4 → tx.maxPriorityFeePerGas = some 0 ∨ tx.maxFeePerGas = baseFee) := by
  subst henv
  rw [TransactionExecutor.creditedTip_eq hcharges hfee]
  refine (and_iff_right (calculateEffectiveTip_eq hbase hfee)).trans ?_
  unfold Engine.priorityFeePerGas Transaction.ty Transaction.maxPriorityFeePerGas
    Transaction.maxFeePerGas
  unfold Transaction.maxFeePerGas at hfee
  cases hkind : tx.kind with
  | legacy gasPrice => simp
  | eip2930 gasPrice => simp
  | eip1559 maxFee maxPriority => simp
  | eip4844 maxFee maxPriority _ _ => simp
  | eip7702 maxFee maxPriority _ =>
      rw [hkind] at hfee
      dsimp only at hfee ⊢
      simp only [Nat.add_sub_cancel_left, Option.some.injEq, true_implies]
      omega

section Sample

/-- A machine that charges what it is offered and runs nothing. -/
@[reducible] def chargingEvm : Evm :=
  { idleEvm with
    effectiveGasPrice := fun args env => args.gasPrice.charged env.blockBaseFeePerGas }

attribute [local instance] chargingEvm

/-- A block at a base fee of 7. -/
def tipExecutor : TransactionExecutor where
  env := ⟨1, 0, 30000000, default, 0, 7, none, 1, 0, []⟩
  fork := .prague
  beneficiary := default
  stateRoot := none

def marketTransaction : Transaction :=
  { (default : Transaction) with kind := .eip1559 10 2 }

def delegatingTransaction : Transaction :=
  { (default : Transaction) with kind := .eip7702 10 2 [] }

theorem tips_agree_marketTransaction :
    calculateEffectiveTip marketTransaction 7 =
        some (Engine.priorityFeePerGas 7 marketTransaction) ∧
      Engine.priorityFeePerGas 7 marketTransaction =
        tipExecutor.creditedTip marketTransaction default :=
  (tips_agree_iff (fun _ _ => rfl) tipExecutor marketTransaction default 7 (by decide) rfl
    (by decide)).mpr (by decide)

/-- A transaction of type 4 is ranked and counted at a tip of 2, and pays
none. -/
theorem tips_differ_delegatingTransaction : ChargesOffer ∧
    tipExecutor.env.blockBaseFeePerGas = 7 ∧ 7 ≤ delegatingTransaction.maxFeePerGas ∧
    calculateEffectiveTip delegatingTransaction 7 = some 2 ∧
    Engine.priorityFeePerGas 7 delegatingTransaction = 2 ∧
    tipExecutor.creditedTip delegatingTransaction default = 0 :=
  ⟨fun _ _ => rfl, rfl, by decide, by decide, by decide, by decide⟩

end Sample

end WasixEth
