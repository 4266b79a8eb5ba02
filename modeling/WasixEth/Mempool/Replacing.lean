import WasixEth.Mempool.Admission

/-! # Replacing a transaction

A transaction with the nonce of a pooled one takes its place if its gas price is
ten percent higher. The comparison is made on gas prices, which only the two
oldest types have: a transaction that names a fee cap is priced at nothing, and
anything takes its place.
-/

namespace WasixEth

open Search

namespace Mempool

/-- The fee cap of `tx` is at least ten percent above that of `old`. -/
def Bumps (old tx : Transaction) : Prop :=
  old.maxFeePerGas + old.maxFeePerGas / 10 ≤ tx.maxFeePerGas

instance (old tx : Transaction) : Decidable (Bumps old tx) :=
  inferInstanceAs (Decidable (_ ≤ _))

/-- What stood between `before` and `after` is replaced for a bump, or all stays
as it is. -/
def ReplacesForBump (before after : List Transaction) (old tx : Transaction)
    (isPending : Bool) (address : Address) (outcome : Mempool × Option Bool) : Prop :=
  outcome.2 = some true ∧ outcome.1.queue isPending address = before ++ tx :: after ∧
      Bumps old tx ∨
    outcome.2 = some false ∧ outcome.1.queue isPending address = before ++ old :: after

/-- The old transaction has a gas price, and ten percent more of it fits or
wraps around to something that the new price does not reach. -/
def Priced (old tx : Transaction) : Prop :=
  ∃ price, old.gasPrice = some price ∧
    (price + price / 10 < 2 ^ 128 ∨ tx.gasPrice.getD 0 < (price + price / 10) % 2 ^ 128)

variable {old tx : Transaction}

theorem maxFeePerGas_of_gasPrice {price : Nat} (h : tx.gasPrice = some price) :
    tx.maxFeePerGas = price := by
  unfold Transaction.gasPrice at h
  unfold Transaction.maxFeePerGas
  cases hkind : tx.kind <;> simp_all

theorem gasPrice_getD_le (tx : Transaction) : tx.gasPrice.getD 0 ≤ tx.maxFeePerGas := by
  cases hprice : tx.gasPrice with
  | none => exact Nat.zero_le _
  | some price => exact (maxFeePerGas_of_gasPrice hprice).ge

/-- Among transactions that are priced, only a bump reaches the price of a
replacement. -/
theorem Priced.bumps (h : Priced old tx) (hprice : minReplacementPrice old ≤ tx.gasPrice.getD 0) :
    Bumps old tx := by
  obtain ⟨price, hold, hfits⟩ := h
  unfold minReplacementPrice at hprice
  rw [hold, Option.getD_some] at hprice
  unfold Bumps
  rw [maxFeePerGas_of_gasPrice hold]
  rcases hfits with hfits | hwraps
  · rw [Nat.mod_eq_of_lt hfits] at hprice
    exact hprice.trans (gasPrice_getD_le tx)
  · exact absurd hprice (Nat.not_le.mpr hwraps)

/-- Anything reaches the price of a transaction that is not priced. -/
theorem price_le_of_not_priced (h : ¬ Priced old tx) :
    minReplacementPrice old ≤ tx.gasPrice.getD 0 := by
  unfold minReplacementPrice
  cases hold : old.gasPrice with
  | none => exact Nat.zero_le _
  | some price =>
      by_contra hlt
      exact h ⟨price, hold, .inr (Nat.lt_of_not_le hlt)⟩

/-- A nonce is at one place of a queue. -/
theorem eq_of_nonce_eq {before after before' after' : List Transaction} {old' : Transaction}
    (hincreasing : Increasing Transaction.nonce (before ++ old :: after))
    (hqueue : before ++ old :: after = before' ++ old' :: after')
    (hnonce : old.nonce = old'.nonce) :
    before = before' ∧ old = old' ∧ after = after' := by
  have hold : (before ++ old :: after)[before.length]? = some old := by simp
  have hold' : (before ++ old :: after)[before'.length]? = some old' := by simp [hqueue]
  have hlength : before.length = before'.length := by
    rcases Nat.lt_trichotomy before.length before'.length with hlt | heq | hgt
    · exact absurd hnonce (hincreasing.lt hold hold' hlt).ne
    · exact heq
    · exact absurd hnonce (hincreasing.lt hold' hold hgt).ne'
  obtain ⟨hbefore, hrest⟩ := List.append_inj hqueue hlength
  obtain ⟨rfl, hafter⟩ := List.cons_eq_cons.mp hrest
  exact ⟨hbefore, rfl, hafter⟩

section

variable [BlockHashing]

/-- A transaction with a nonce that is there takes the place or is refused. -/
theorem place_of_nonce {pool : Mempool} {address : Address} {isPending : Bool}
    {before after : List Transaction}
    (hincreasing : Increasing Transaction.nonce (pool.queue isPending address))
    (hqueue : pool.queue isPending address = before ++ old :: after)
    (hnonce : old.nonce = tx.nonce) :
    pool.place address tx isPending =
        ((pool.cleanUp old).setQueue isPending address (before ++ tx :: after), true) ∧
        minReplacementPrice old ≤ tx.gasPrice.getD 0 ∨
      pool.place address tx isPending = (pool, false) ∧
        ¬ minReplacementPrice old ≤ tx.gasPrice.getD 0 := by
  have hplaces := place_places tx hincreasing
  rw [hqueue] at hincreasing
  generalize hplace : pool.place address tx isPending = placed at hplaces
  cases hplaces with
  | @refused old' hold' hnonce' hprice =>
      rw [hqueue] at hold'
      obtain ⟨before', after', hsplit⟩ := List.append_of_mem hold'
      obtain ⟨-, rfl, -⟩ := eq_of_nonce_eq hincreasing hsplit (hnonce.trans hnonce'.symm)
      exact .inr ⟨rfl, hprice⟩
  | @replaced before' after' old' hqueue' hnonce' hprice =>
      obtain ⟨rfl, rfl, rfl⟩ := eq_of_nonce_eq hincreasing (hqueue.symm.trans hqueue')
        (hnonce.trans hnonce'.symm)
      exact .inl ⟨rfl, hprice⟩
  | @inserted before' after' hqueue' hfits =>
      -- the nonce would be missing from the queue
      have hmem : old ∈ before' ++ after' := by
        rw [← hqueue', hqueue]
        exact List.mem_append_right _ List.mem_cons_self
      rcases List.mem_append.mp hmem with hmem | hmem
      · exact absurd hnonce (hfits.low old hmem).ne
      · exact absurd hnonce (hfits.high old hmem).ne'

/-- A new transaction replaces a pooled one of its nonce only for a bump of the
fee cap exactly if it brings one anyway, or the pooled one is priced. -/
theorem insertIntoQueue_replacesForBump_iff (pool : Mempool) (address : Address) (isPending : Bool)
    (roll : UInt8) {evicted : Mempool} (hevicted : pool.evictSometimes roll = (evicted, some ()))
    (hincreasing : Increasing Transaction.nonce (evicted.queue isPending address))
    {before after : List Transaction}
    (hqueue : evicted.queue isPending address = before ++ old :: after)
    (hnonce : old.nonce = tx.nonce) :
    ReplacesForBump before after old tx isPending address
        (pool.insertIntoQueue address tx isPending roll) ↔
      Bumps old tx ∨ Priced old tx := by
  unfold ReplacesForBump insertIntoQueue
  rw [hevicted]
  dsimp only
  rcases place_of_nonce hincreasing hqueue hnonce with ⟨hplace, hprice⟩ | ⟨hplace, hprice⟩
  · rw [hplace]
    dsimp only
    rw [queue_setQueue, if_pos ⟨rfl, rfl⟩]
    constructor
    · rintro (⟨-, -, hbumps⟩ | ⟨hfalse, -⟩)
      · exact .inl hbumps
      · cases hfalse
    · rintro (hbumps | hpriced)
      · exact .inl ⟨rfl, rfl, hbumps⟩
      · exact .inl ⟨rfl, rfl, hpriced.bumps hprice⟩
  · rw [hplace]
    refine iff_of_true (.inr ⟨rfl, hqueue⟩) ?_
    by_contra hneither
    exact hprice (price_le_of_not_priced fun hpriced => hneither (.inr hpriced))

end

section

attribute [local instance] keccak keccakHashing

/-- A transaction with a fee cap. -/
def cappedTx (nonce maxFee : Nat) : Transaction :=
  { (default : Transaction) with kind := .eip1559 maxFee 1, nonce }

def poolOf (tx : Transaction) : Mempool := (Mempool.new 0).setQueue true default [tx]

theorem queue_poolOf (tx : Transaction) : (poolOf tx).queue true default = [tx] := by
  unfold poolOf
  rw [queue_setQueue, if_pos ⟨rfl, rfl⟩]

theorem increasing_poolOf (tx : Transaction) :
    Increasing Transaction.nonce ((poolOf tx).queue true default) := by
  rw [queue_poolOf]
  exact List.pairwise_singleton _ _

/-- A legacy transaction is replaced for ten percent more. -/
theorem replacesForBump_legacy :
    ReplacesForBump [] [] (sampleTx 0 100) (sampleTx 0 110) true default
      ((poolOf (sampleTx 0 100)).insertIntoQueue default (sampleTx 0 110) true 1) := by
  have hqueue : (poolOf (sampleTx 0 100)).queue true default = [] ++ sampleTx 0 100 :: [] :=
    queue_poolOf _
  have hnonce : (sampleTx 0 100).nonce = (sampleTx 0 110).nonce := rfl
  refine (insertIntoQueue_replacesForBump_iff _ default true 1 rfl (increasing_poolOf _)
    hqueue hnonce).mpr (.inr ?_)
  exact ⟨100, rfl, .inl (by decide)⟩

/-- A transaction with a fee cap of 100 is replaced by one with a cap of 1. -/
theorem not_replacesForBump_capped :
    ((poolOf (cappedTx 0 100)).queue true default = [cappedTx 0 100]) ∧
      ¬ ReplacesForBump [] [] (cappedTx 0 100) (cappedTx 0 1) true default
        ((poolOf (cappedTx 0 100)).insertIntoQueue default (cappedTx 0 1) true 1) := by
  have hqueue : (poolOf (cappedTx 0 100)).queue true default = [] ++ cappedTx 0 100 :: [] :=
    queue_poolOf _
  refine ⟨hqueue, ?_⟩
  have hadded : ((poolOf (cappedTx 0 100)).insertIntoQueue default (cappedTx 0 1) true 1).2 =
      some true := by
    have hprice : minReplacementPrice (cappedTx 0 100) ≤ (cappedTx 0 1).gasPrice.getD 0 := by
      decide
    have hnonce : (cappedTx 0 100).nonce = (cappedTx 0 1).nonce := rfl
    rcases place_of_nonce (increasing_poolOf _) hqueue hnonce with ⟨hplace, -⟩ | ⟨-, hrefused⟩
    · have hinsert : ((poolOf (cappedTx 0 100)).insertIntoQueue default (cappedTx 0 1) true 1).2 =
          some ((poolOf (cappedTx 0 100)).place default (cappedTx 0 1) true).2 := rfl
      rw [hinsert, hplace]
    · exact absurd hprice hrefused
  rintro (⟨-, -, hbumps⟩ | ⟨hrefused, -⟩)
  · exact absurd hbumps (by decide)
  · rw [hadded] at hrefused
    cases hrefused

end

end Mempool

end WasixEth
