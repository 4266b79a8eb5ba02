import WasixEth.Mempool.NonceGaps
import WasixEth.Mempool.SideTables

/-! # What revalidation keeps

Revalidation removes the transactions that their senders cannot pay for and then
promotes what has come next in line. It computes costs in 128 bits, so a number that
does not fit ends it, and a cost that wraps looks smaller than it is. What the pool
holds afterwards is described for every pool, and with it when that is what it
should hold.
-/

namespace WasixEth

open Search

namespace Mempool

/-! ## What should be kept, and what is -/

section

variable [Evm] (pool : Mempool) (accounts : Accounts)

/-- The nonce and the balance of the account that a transaction is from. -/
def stateNonce (tx : Transaction) : Nat := ((accounts (senderOf tx)).getD (0, 0)).1

def stateBalance (tx : Transaction) : Nat := ((accounts (senderOf tx)).getD (0, 0)).2

/-- What a transaction costs at most. -/
def cost (tx : Transaction) : Nat := tx.gasLimit * tx.maxFeePerGas + tx.value.toNat

/-- The sender can pay for a transaction, and its blobs are there. -/
structure Payable (tx : Transaction) : Prop where
  fee : pool.baseFee ≤ tx.maxFeePerGas
  nonce : stateNonce accounts tx ≤ tx.nonce
  balance : cost tx ≤ stateBalance accounts tx
  blobs : ∀ hash ∈ tx.blobVersionedHashes, (pool.blobs.get hash).isSome

/-- The same with the cost in 128 bits. -/
structure Accepted (tx : Transaction) : Prop where
  fee : pool.baseFee ≤ tx.maxFeePerGas
  nonce : stateNonce accounts tx ≤ tx.nonce
  balance : cost tx % 2 ^ 128 ≤ stateBalance accounts tx
  blobs : ∀ hash ∈ tx.blobVersionedHashes, (pool.blobs.get hash).isSome

omit [Evm] in
/-- A number of the check does not fit into 128 bits. -/
def Overflows (tx : Transaction) : Prop :=
  2 ^ 128 ≤ pool.baseFee ∨ pool.baseFee ≤ tx.maxFeePerGas ∧ 2 ^ 128 ≤ tx.value.toNat

/-- A transaction whose cost wraps to what its sender has. -/
def Wraps (tx : Transaction) : Prop :=
  pool.Accepted accounts tx ∧ stateBalance accounts tx < cost tx

/-- A nonce that an accepted transaction of a queue has. -/
def HasAccepted (isPending : Bool) (address : Address) (nonce : Nat) : Prop :=
  ∃ tx ∈ pool.queue isPending address, pool.Accepted accounts tx ∧ tx.nonce = nonce

/-- A queued transaction that promotion comes to although its nonce is pending: the
queued nonces go on from the last pending one to the highest there is, and from zero
to that of the transaction. -/
structure DropsOut (tx : Transaction) : Prop where
  waits : tx ∉ pool.queue true (senderOf tx)
  twin : pool.HasAccepted accounts true (senderOf tx) tx.nonce
  taken : ∀ nonce < 2 ^ 64,
    (nonce ≤ tx.nonce ∨
      ∀ pending, pool.HasAccepted accounts true (senderOf tx) pending → pending < nonce) →
    pool.HasAccepted accounts false (senderOf tx) nonce

/-- What is in the pool after a revalidation of all of it. -/
def Survives (tx : Transaction) : Prop :=
  pool.Pooled tx ∧ pool.Accepted accounts tx ∧ ¬ pool.DropsOut accounts tx

variable {pool accounts} {tx : Transaction}

theorem Payable.accepted (h : pool.Payable accounts tx) : pool.Accepted accounts tx :=
  ⟨h.fee, h.nonce, (Nat.mod_le _ _).trans h.balance, h.blobs⟩

theorem Accepted.payable (h : pool.Accepted accounts tx) (hwraps : ¬ pool.Wraps accounts tx) :
    pool.Payable accounts tx :=
  ⟨h.fee, h.nonce, Nat.le_of_not_lt fun hlt => hwraps ⟨h, hlt⟩, h.blobs⟩

end

/-! ## The check of one transaction -/

section

variable [Evm] {pool : Mempool} {accounts : Accounts} {tx : Transaction}

omit [Evm] in
theorem toU128_eq_none_iff {n : Nat} : toU128 n = none ↔ 2 ^ 128 ≤ n := by
  unfold toU128
  split
  next hlt => exact iff_of_false nofun (Nat.not_le_of_lt hlt)
  next hge => exact iff_of_true rfl (Nat.le_of_not_lt hge)

omit [Evm] in
theorem toU128_of_lt {n : Nat} (h : n < 2 ^ 128) : toU128 n = some n := if_pos h

omit [Evm] in
/-- The check ends in a panic exactly when a number does not fit. -/
theorem isInvalid_eq_none_iff (nonce balance : Nat) :
    pool.isInvalid nonce balance tx = none ↔ pool.Overflows tx := by
  unfold isInvalid Overflows
  by_cases hbase : 2 ^ 128 ≤ pool.baseFee
  · rw [toU128_eq_none_iff.mpr hbase]
    exact iff_of_true rfl (Or.inl hbase)
  rw [toU128_of_lt (Nat.lt_of_not_le hbase), Option.bind_eq_bind, Option.bind_some]
  by_cases hfee : tx.maxFeePerGas < pool.baseFee
  · rw [if_pos hfee]
    exact iff_of_false nofun fun h => h.elim hbase fun h => Nat.not_le_of_lt hfee h.1
  rw [if_neg hfee]
  by_cases hvalue : 2 ^ 128 ≤ tx.value.toNat
  · rw [toU128_eq_none_iff.mpr hvalue]
    exact iff_of_true rfl (Or.inr ⟨Nat.le_of_not_lt hfee, hvalue⟩)
  rw [toU128_of_lt (Nat.lt_of_not_le hvalue), Option.bind_some]
  refine iff_of_false ?_ fun h => h.elim hbase fun h => hvalue h.2
  dsimp only
  split <;> exact nofun

/-- A check that ends removes what it does not accept. -/
theorem isInvalid_of_not_overflows (h : ¬ pool.Overflows tx) :
    (pool.isInvalid (stateNonce accounts tx) (stateBalance accounts tx) tx = some true ↔
      ¬ pool.Accepted accounts tx) := by
  unfold isInvalid
  have hbase : pool.baseFee < 2 ^ 128 := Nat.lt_of_not_le fun hle => h (Or.inl hle)
  rw [toU128_of_lt hbase, Option.bind_eq_bind, Option.bind_some]
  by_cases hfee : tx.maxFeePerGas < pool.baseFee
  · rw [if_pos hfee]
    exact iff_of_true rfl fun haccepted => Nat.not_le_of_lt hfee haccepted.fee
  rw [if_neg hfee]
  have hvalue : tx.value.toNat < 2 ^ 128 :=
    Nat.lt_of_not_le fun hle => h (Or.inr ⟨Nat.le_of_not_lt hfee, hle⟩)
  rw [toU128_of_lt hvalue, Option.bind_some]
  dsimp only
  split
  next hfails =>
    refine iff_of_true rfl fun haccepted => ?_
    rcases hfails with hnonce | hbalance
    · exact Nat.not_le_of_lt hnonce haccepted.nonce
    · exact Nat.not_le_of_lt hbalance haccepted.balance
  next hpasses =>
    obtain ⟨hnonce, hbalance⟩ := not_or.mp hpasses
    rw [Option.pure_def, Option.some.injEq, Bool.and_eq_true, List.any_eq_true]
    constructor
    · rintro ⟨-, hash, hmem, hnone⟩ haccepted
      have hsome := haccepted.blobs hash hmem
      rw [Option.isNone_iff_eq_none] at hnone
      rw [hnone] at hsome
      cases hsome
    · intro hnot
      by_contra hnone
      refine hnot ⟨Nat.le_of_not_lt hfee, Nat.le_of_not_lt hnonce, Nat.le_of_not_lt hbalance, ?_⟩
      intro hash hmem
      by_contra hmissing
      refine hnone ⟨isEip4844_of_mem hmem, hash, hmem, ?_⟩
      rw [Option.isNone_iff_eq_none]
      exact Option.not_isSome_iff_eq_none.mp hmissing

end

/-! ## Everything that is checked -/

section

variable [Evm] [BlockHashing] {pool : Mempool} {accounts : Accounts}

omit [Evm] in
theorem invalidHashes_eq_none_iff (nonce balance : Nat) {txs : List Transaction} :
    pool.invalidHashes nonce balance txs = none ↔ ∃ tx ∈ txs, pool.Overflows tx := by
  induction txs with
  | nil => exact iff_of_false nofun fun ⟨_, hmem, _⟩ => nomatch hmem
  | cons tx txs ih =>
      rw [invalidHashes]
      simp only [List.exists_mem_cons_iff, ← ih]
      rw [← isInvalid_eq_none_iff nonce balance]
      cases pool.isInvalid nonce balance tx with
      | none => simp
      | some _ => cases pool.invalidHashes nonce balance txs <;> simp

omit [Evm] in
theorem mem_invalidHashes {nonce balance : Nat} {txs : List Transaction} {hashes : List B256}
    (h : pool.invalidHashes nonce balance txs = some hashes) (hash : B256) :
    hash ∈ hashes ↔
      ∃ tx ∈ txs, pool.isInvalid nonce balance tx = some true ∧ txHash tx = hash := by
  induction txs generalizing hashes with
  | nil =>
      cases h
      exact iff_of_false nofun fun ⟨_, hmem, _⟩ => nomatch hmem
  | cons tx txs ih =>
      rw [invalidHashes] at h
      obtain ⟨invalid, hinvalid, h⟩ := Option.bind_eq_some_iff.mp h
      obtain ⟨others, hothers, h⟩ := Option.bind_eq_some_iff.mp h
      rw [List.exists_mem_cons_iff, ← ih hothers, hinvalid]
      cases h
      cases invalid with
      | true => simp [eq_comm]
      | false => simp

omit [Evm] in
theorem processAddress_eq_none_iff (accounts : Accounts) {address : Address} :
    pool.processAddress accounts address = none ↔
      ∃ isPending, ∃ tx ∈ pool.queue isPending address, pool.Overflows tx := by
  rw [Bool.exists_bool, or_comm, processAddress]
  dsimp only
  set account := (accounts address).getD (0, 0)
  rw [← invalidHashes_eq_none_iff account.1 account.2,
    ← invalidHashes_eq_none_iff account.1 account.2]
  cases pool.invalidHashes account.1 account.2 (pool.queue true address) with
  | none => simp
  | some _ =>
      cases pool.invalidHashes account.1 account.2 (pool.queue false address) <;> simp

omit [Evm] in
theorem mem_processAddress {address : Address} {hashes : List B256}
    (h : pool.processAddress accounts address = some hashes) (hash : B256) :
    hash ∈ hashes ↔ ∃ isPending, ∃ tx ∈ pool.queue isPending address,
      pool.isInvalid ((accounts address).getD (0, 0)).1 ((accounts address).getD (0, 0)).2 tx =
        some true ∧ txHash tx = hash := by
  rw [processAddress] at h
  obtain ⟨pending, hpending, h⟩ := Option.bind_eq_some_iff.mp h
  obtain ⟨queued, hqueued, h⟩ := Option.bind_eq_some_iff.mp h
  cases h
  rw [List.mem_append, mem_invalidHashes hpending, mem_invalidHashes hqueued, Bool.exists_bool]
  exact or_comm

omit [Evm] in
theorem processAddresses_eq_none_iff (accounts : Accounts) {addresses : List Address} :
    pool.processAddresses accounts addresses = none ↔
      ∃ address ∈ addresses, ∃ isPending, ∃ tx ∈ pool.queue isPending address,
        pool.Overflows tx := by
  induction addresses with
  | nil => exact iff_of_false nofun fun ⟨_, hmem, _⟩ => nomatch hmem
  | cons address addresses ih =>
      rw [processAddresses, List.exists_mem_cons_iff, ← ih,
        ← processAddress_eq_none_iff accounts]
      cases pool.processAddress accounts address with
      | none => simp
      | some _ => cases pool.processAddresses accounts addresses <;> simp

omit [Evm] in
theorem mem_processAddresses {addresses : List Address} {hashes : List B256}
    (h : pool.processAddresses accounts addresses = some hashes) (hash : B256) :
    hash ∈ hashes ↔
      ∃ address ∈ addresses, ∃ isPending, ∃ tx ∈ pool.queue isPending address,
        pool.isInvalid ((accounts address).getD (0, 0)).1 ((accounts address).getD (0, 0)).2 tx =
          some true ∧ txHash tx = hash := by
  induction addresses generalizing hashes with
  | nil =>
      cases h
      exact iff_of_false nofun fun ⟨_, hmem, _⟩ => nomatch hmem
  | cons address addresses ih =>
      rw [processAddresses] at h
      obtain ⟨first, hfirst, h⟩ := Option.bind_eq_some_iff.mp h
      obtain ⟨others, hothers, h⟩ := Option.bind_eq_some_iff.mp h
      cases h
      rw [List.mem_append, mem_processAddress hfirst, ih hothers, List.exists_mem_cons_iff]

omit [BlockHashing] [Evm] in
theorem mem_of_mem_lookup {queues : Queues} {address : Address} {tx : Transaction}
    (h : tx ∈ (queues.lookup address).getD []) : address ∈ queues := by
  by_contra hnot
  rw [AList.lookup_eq_none.mpr hnot] at h
  cases h

omit [BlockHashing] [Evm] in
/-- Without a list of addresses everyone with a transaction is looked at. -/
theorem mem_addressesToCheck {isPending : Bool} {address : Address} {tx : Transaction}
    (h : tx ∈ pool.queue isPending address) : address ∈ pool.addressesToCheck none := by
  unfold addressesToCheck
  rw [List.mem_append, List.mem_filter, decide_eq_true_eq]
  by_cases hpending : address ∈ pool.pendingTransactions
  · exact Or.inl (AList.mem_keys.mpr hpending)
  · cases isPending with
    | true => exact absurd (mem_of_mem_lookup h) hpending
    | false => exact Or.inr ⟨AList.mem_keys.mpr (mem_of_mem_lookup h), hpending⟩

omit [BlockHashing] [Evm] in
theorem nodup_addressesToCheck : (pool.addressesToCheck none).Nodup := by
  unfold addressesToCheck
  refine List.Nodup.append (AList.keys_nodup _) ((AList.keys_nodup _).filter _) ?_
  intro address hpending hqueued
  have hnot := (List.mem_filter.mp hqueued).2
  exact of_decide_eq_true hnot (AList.mem_keys.mp hpending)

/-! ## Removal -/

/-- The pool has lost what is not accepted, and the blobs of it. -/
structure Purged (pool : Mempool) (accounts : Accounts) (purged : Mempool) : Prop where
  ordered : purged.Ordered
  queues : ∀ isPending address tx, tx ∈ purged.queue isPending address ↔
    tx ∈ pool.queue isPending address ∧ pool.Accepted accounts tx
  blobs : ∀ hash, (purged.blobs.get hash).isSome ↔ (pool.blobs.get hash).isSome ∧
    ∀ gone, pool.Pooled gone → hash ∈ gone.blobVersionedHashes → pool.Accepted accounts gone

omit [Evm] in
theorem get_blobs_cleanUps (gone : List Transaction) (hash : B256) :
    ((gone.foldl cleanUp pool).blobs.get hash).isSome ↔
      (pool.blobs.get hash).isSome ∧ ∀ tx ∈ gone, hash ∉ tx.blobVersionedHashes := by
  induction gone generalizing pool with
  | nil => simp
  | cons first gone ih =>
      rw [List.foldl_cons, ih, get_blobs_cleanUp, List.forall_mem_cons, ← and_assoc]
      split
      next hmem => simp [hmem]
      next hmem => simp [hmem]

omit [Evm] in
theorem get_blobs_removeTransactions (hashes : List B256) (hash : B256) :
    ((pool.removeTransactions hashes).blobs.get hash).isSome ↔ (pool.blobs.get hash).isSome ∧
      ∀ gone, pool.Pooled gone → txHash gone ∈ hashes → hash ∉ gone.blobVersionedHashes := by
  unfold removeTransactions
  dsimp only
  rw [get_blobs_cleanUps]
  simp only [mem_removed, and_imp]

/-- No two transactions of the pool have one hash. -/
def HashesDiffer (pool : Mempool) : Prop :=
  ∀ tx other, pool.Pooled tx → pool.Pooled other → txHash tx = txHash other → tx = other

/-- The hashes that are collected are those of what is not accepted. -/
theorem mem_toRemove (hordered : pool.Ordered) (hdiffer : pool.HashesDiffer)
    {toRemove : List B256}
    (h : pool.processAddresses accounts (pool.addressesToCheck none) = some toRemove)
    {tx : Transaction} (htx : pool.Pooled tx) :
    txHash tx ∈ toRemove ↔ ¬ pool.Accepted accounts tx := by
  have hends : ∀ {isPending address other}, other ∈ pool.queue isPending address →
      ¬ pool.Overflows other := by
    intro isPending address other hmem hoverflows
    have hnone := (processAddresses_eq_none_iff accounts).mpr
      ⟨address, mem_addressesToCheck hmem, isPending, other, hmem, hoverflows⟩
    rw [h] at hnone
    cases hnone
  rw [mem_processAddresses h]
  constructor
  · rintro ⟨address, -, isPending, other, hmem, hinvalid, hhash⟩
    obtain rfl := hdiffer other tx ⟨isPending, address, hmem⟩ htx hhash
    obtain rfl := hordered.filed isPending address other hmem
    exact (isInvalid_of_not_overflows (hends hmem)).mp hinvalid
  · intro hnot
    obtain ⟨isPending, address, hmem⟩ := htx
    refine ⟨address, mem_addressesToCheck hmem, isPending, tx, hmem, ?_, rfl⟩
    obtain rfl := hordered.filed isPending address tx hmem
    exact (isInvalid_of_not_overflows (hends hmem)).mpr hnot

theorem purged_removeTransactions (hordered : pool.Ordered) {toRemove : List B256}
    (h : ∀ tx, pool.Pooled tx → (txHash tx ∈ toRemove ↔ ¬ pool.Accepted accounts tx)) :
    pool.Purged accounts
      (if toRemove.isEmpty then pool else pool.removeTransactions toRemove) := by
  have hremoved : pool.Purged accounts (pool.removeTransactions toRemove) := by
    refine ⟨hordered.removeTransactions toRemove, ?_, ?_⟩
    · intro isPending address tx
      rw [queue_removeTransactions, List.mem_filter, decide_eq_true_eq]
      refine and_congr_right fun hmem => ?_
      rw [h tx ⟨isPending, address, hmem⟩, not_not]
    · intro hash
      rw [get_blobs_removeTransactions]
      refine and_congr_right fun _ => forall₂_congr fun gone hgone => ?_
      rw [h gone hgone]
      exact not_imp_not
  split
  next hempty =>
    rw [List.isEmpty_iff] at hempty
    have haccepted : ∀ tx, pool.Pooled tx → pool.Accepted accounts tx := by
      intro tx htx
      by_contra hnot
      have hmem := (h tx htx).mpr hnot
      rw [hempty] at hmem
      cases hmem
    refine ⟨hordered, ?_, ?_⟩
    · intro isPending address tx
      exact ⟨fun hmem => ⟨hmem, haccepted tx ⟨isPending, address, hmem⟩⟩, And.left⟩
    · intro hash
      exact ⟨fun hsome => ⟨hsome, fun gone hgone _ => haccepted gone hgone⟩, And.left⟩
  next => exact hremoved

end

/-! ## Promotion -/

section

variable {pool pool' : Mempool} {address : Address} {nonce : Nat}

/-- The promoted transaction is taken out of the queue it stood in. -/
theorem Promotes.split_queued (h : Promotes address nonce pool pool') :
    ∃ before tx after, pool.queue false address = before ++ tx :: after ∧ tx.nonce = nonce ∧
      pool'.queue false address = before ++ after := by
  cases h with
  | move hqueued hnonce =>
      refine ⟨_, _, _, hqueued, hnonce, ?_⟩
      rw [queue_setQueue, if_neg fun h => Bool.noConfusion h.1, queue_setQueue, if_pos ⟨rfl, rfl⟩]
  | drop hqueued hnonce =>
      refine ⟨_, _, _, hqueued, hnonce, ?_⟩
      rw [queue_setQueue, if_pos ⟨rfl, rfl⟩]

theorem Promotes.exists_queued (h : Promotes address nonce pool pool') :
    ∃ tx ∈ pool.queue false address, tx.nonce = nonce := by
  obtain ⟨before, tx, after, hqueued, hnonce, -⟩ := h.split_queued
  exact ⟨tx, hqueued ▸ List.mem_append_right before List.mem_cons_self, hnonce⟩

theorem Promotes.mem_queued (h : Promotes address nonce pool pool')
    (hincreasing : Increasing Transaction.nonce (pool.queue false address)) (tx : Transaction) :
    tx ∈ pool'.queue false address ↔ tx ∈ pool.queue false address ∧ tx.nonce ≠ nonce := by
  obtain ⟨before, first, after, hqueued, rfl, hqueued'⟩ := h.split_queued
  rw [hqueued] at hincreasing
  have hfits := fits_of_increasing hincreasing
  rw [hqueued', hqueued, List.perm_middle.mem_iff, List.mem_cons]
  constructor
  · intro hmem
    refine ⟨Or.inr hmem, ?_⟩
    rcases List.mem_append.mp hmem with hmem | hmem
    · exact (hfits.low tx hmem).ne
    · exact (hfits.high tx hmem).ne'
  · rintro ⟨rfl | hmem, hne⟩
    · exact absurd rfl hne
    · exact hmem

theorem Promotes.mem_pending (h : Promotes address nonce pool pool')
    (hincreasing : Increasing Transaction.nonce (pool.queue false address)) (tx : Transaction) :
    tx ∈ pool'.queue true address ↔ tx ∈ pool.queue true address ∨
      tx ∈ pool.queue false address ∧ tx.nonce = nonce ∧
        ∀ twin ∈ pool.queue true address, twin.nonce ≠ nonce := by
  have hmem := h.mem_queued hincreasing
  cases h with
  | @move before after low high first hqueued hnonce hpending hfits =>
      have hfresh : ∀ twin ∈ pool.queue true address, twin.nonce ≠ nonce := by
        intro twin htwin
        rw [hpending] at htwin
        rcases List.mem_append.mp htwin with htwin | htwin
        · exact hnonce ▸ (hfits.low twin htwin).ne
        · exact hnonce ▸ (hfits.high twin htwin).ne'
      rw [queue_setQueue, if_pos ⟨rfl, rfl⟩, List.perm_middle.mem_iff, List.mem_cons, ← hpending,
        or_comm]
      refine or_congr_right ?_
      constructor
      · rintro rfl
        exact ⟨hqueued ▸ List.mem_append_right _ List.mem_cons_self, hnonce, hfresh⟩
      · rintro ⟨htx, heq, -⟩
        by_contra hne
        -- Another transaction with this nonce would have been left in the queue.
        refine ((hmem tx).mp ?_).2 heq
        rw [queue_setQueue, if_neg fun h => Bool.noConfusion h.1, queue_setQueue,
          if_pos ⟨rfl, rfl⟩]
        rw [hqueued, List.perm_middle.mem_iff] at htx
        exact (List.mem_cons.mp htx).resolve_left hne
  | drop hqueued hnonce hpending htwin =>
      rw [queue_setQueue, if_neg fun h => Bool.noConfusion h.1]
      refine ⟨Or.inl, ?_⟩
      rintro (hmem | ⟨-, -, hfresh⟩)
      · exact hmem
      · exact absurd htwin (hfresh _ hpending)

theorem Promotes.blobs (h : Promotes address nonce pool pool') : pool'.blobs = pool.blobs := by
  cases h <;> rfl

end

/-- A promotion that starts at `start` comes to a nonce: it and all before it are
queued. After the last number comes zero. -/
def Reached (txs : List Transaction) (start nonce : Nat) : Prop :=
  ∃ k < 2 ^ 64, nonce = (start + k) % 2 ^ 64 ∧
    ∀ i ≤ k, ∃ tx ∈ txs, tx.nonce = (start + i) % 2 ^ 64

theorem not_reached {txs : List Transaction} {start nonce : Nat} (hstart : start < 2 ^ 64)
    (h : ∀ tx ∈ txs, tx.nonce ≠ start) : ¬ Reached txs start nonce := by
  rintro ⟨k, -, -, htaken⟩
  obtain ⟨tx, hmem, hnonce⟩ := htaken 0 (Nat.zero_le k)
  rw [Nat.add_zero, Nat.mod_eq_of_lt hstart] at hnonce
  exact h tx hmem hnonce

/-- The start is taken out and the next nonce is the start. -/
theorem reached_iff {txs txs' : List Transaction} {start nonce : Nat} (hstart : start < 2 ^ 64)
    (hfirst : ∃ tx ∈ txs, tx.nonce = start)
    (hrest : ∀ tx, tx ∈ txs' ↔ tx ∈ txs ∧ tx.nonce ≠ start) :
    Reached txs start nonce ↔ nonce = start ∨ Reached txs' (nextNonce start) nonce := by
  have hshift : ∀ i, (nextNonce start + i) % 2 ^ 64 = (start + (i + 1)) % 2 ^ 64 := by
    intro i
    unfold nextNonce
    omega
  constructor
  · rintro ⟨k, hk, rfl, htaken⟩
    cases k with
    | zero => exact Or.inl (Nat.mod_eq_of_lt hstart)
    | succ k =>
        refine Or.inr ⟨k, by omega, (hshift k).symm, ?_⟩
        intro i hi
        obtain ⟨tx, hmem, hnonce⟩ := htaken (i + 1) (by omega)
        refine ⟨tx, (hrest tx).mpr ⟨hmem, ?_⟩, hnonce.trans (hshift i).symm⟩
        omega
  · rintro (rfl | ⟨k, hk, rfl, htaken⟩)
    · obtain ⟨tx, hmem, hnonce⟩ := hfirst
      refine ⟨0, by omega, (Nat.mod_eq_of_lt hstart).symm, ?_⟩
      intro i hi
      exact ⟨tx, hmem, by omega⟩
    · have hless : k + 1 < 2 ^ 64 := by
        -- All the way round the nonce would be the start, which is out.
        by_contra hle
        obtain ⟨tx, hmem, hnonce⟩ := htaken k (Nat.le_refl k)
        refine ((hrest tx).mp hmem).2 ?_
        rw [hshift] at hnonce
        omega
      refine ⟨k + 1, hless, hshift k, ?_⟩
      intro i hi
      cases i with
      | zero =>
          obtain ⟨tx, hmem, hnonce⟩ := hfirst
          exact ⟨tx, hmem, by omega⟩
      | succ i =>
          obtain ⟨tx, hmem, hnonce⟩ := htaken i (by omega)
          exact ⟨tx, ((hrest tx).mp hmem).1, hnonce.trans (hshift i)⟩

/-- What a promotion from a nonce on does to the queues of one sender: a transaction
that it comes to becomes pending, unless its nonce was. -/
structure Promoted (address : Address) (nonce : Nat) (pool pool' : Mempool) : Prop where
  queued : ∀ tx, tx ∈ pool'.queue false address ↔
    tx ∈ pool.queue false address ∧ ¬ Reached (pool.queue false address) nonce tx.nonce
  pending : ∀ tx, tx ∈ pool'.queue true address ↔ tx ∈ pool.queue true address ∨
    tx ∈ pool.queue false address ∧ Reached (pool.queue false address) nonce tx.nonce ∧
      ∀ twin ∈ pool.queue true address, twin.nonce ≠ tx.nonce

theorem promoted_of_not_queued {pool : Mempool} {address : Address} {nonce : Nat}
    (hnonce : nonce < 2 ^ 64) (h : ∀ tx ∈ pool.queue false address, tx.nonce ≠ nonce) :
    Promoted address nonce pool pool where
  queued _ := ⟨fun hmem => ⟨hmem, not_reached hnonce h⟩, And.left⟩
  pending _ := ⟨Or.inl, fun hmem => hmem.elim id fun hmem => absurd hmem.2.1 (not_reached hnonce h)⟩

/-- One transaction is promoted and then those behind it. -/
theorem Promotes.promoted {pool pool' pool'' : Mempool} {address : Address} {nonce : Nat}
    (h : Promotes address nonce pool pool')
    (hincreasing : Increasing Transaction.nonce (pool.queue false address))
    (hnonce : nonce < 2 ^ 64) (hrest : Promoted address (nextNonce nonce) pool' pool'') :
    Promoted address nonce pool pool'' := by
  have hqueued := h.mem_queued hincreasing
  have hpending := h.mem_pending hincreasing
  have hreached : ∀ tx : Transaction, Reached (pool.queue false address) nonce tx.nonce ↔
      tx.nonce = nonce ∨ Reached (pool'.queue false address) (nextNonce nonce) tx.nonce :=
    fun _ => reached_iff hnonce h.exists_queued hqueued
  constructor
  · intro tx
    rw [hrest.queued, hqueued, hreached, not_or, and_assoc]
  · intro tx
    rw [hrest.pending, hpending, hqueued, hreached]
    by_cases hfirst : tx.nonce = nonce
    · simp [hfirst]
    · -- The one that was promoted has another nonce.
      have htwins : (∀ twin ∈ pool'.queue true address, twin.nonce ≠ tx.nonce) ↔
          ∀ twin ∈ pool.queue true address, twin.nonce ≠ tx.nonce := by
        constructor
        · exact fun hfresh twin hmem => hfresh twin ((hpending twin).mpr (Or.inl hmem))
        · intro hfresh twin hmem
          rcases (hpending twin).mp hmem with hmem | ⟨-, heq, -⟩
          · exact hfresh twin hmem
          · exact fun hsame => hfirst (hsame.symm.trans heq)
      simp [hfirst, htwins]

/-- Only the queues of the sender matter. -/
theorem Promoted.congr {address : Address} {nonce : Nat} {pool pool' before after : Mempool}
    (h : Promoted address nonce pool pool')
    (hbefore : ∀ isPending, before.queue isPending address = pool.queue isPending address)
    (hafter : ∀ isPending, after.queue isPending address = pool'.queue isPending address) :
    Promoted address nonce before after := by
  constructor
  · rw [hbefore, hafter]
    exact h.queued
  · rw [hbefore, hbefore, hafter]
    exact h.pending

section

variable [Evm]

theorem Ordered.promoted {pool : Mempool} (h : pool.Ordered) {address : Address} {nonce : Nat}
    (hnonce : nonce < 2 ^ 64) {fuel : Nat} (hfuel : (pool.queue false address).length ≤ fuel) :
    Promoted address nonce pool (Mempool.promoteLoop address fuel pool nonce) := by
  induction fuel generalizing pool nonce with
  | zero =>
      refine promoted_of_not_queued hnonce ?_
      rw [List.length_eq_zero_iff.mp (Nat.le_zero.mp hfuel)]
      exact nofun
  | succ fuel ih =>
      rcases promoteLoop_cases (h.increasing false address) (h.increasing true address) with
        ⟨heq, hnone⟩ | ⟨pool', hpromotes, heq⟩
      · rw [heq]
        exact promoted_of_not_queued hnonce hnone
      · rw [heq]
        refine hpromotes.promoted (h.increasing false address) hnonce ?_
        refine ih (h.promote hpromotes) (Nat.mod_lt _ (by decide)) ?_
        obtain ⟨before, tx, after, hqueued, -, hqueued'⟩ := hpromotes.split_queued
        rw [hqueued, List.length_append, List.length_cons] at hfuel
        rw [hqueued', List.length_append]
        omega

theorem Ordered.promoteLoop_blobs {pool : Mempool} (h : pool.Ordered) (address : Address)
    (fuel nonce : Nat) : (Mempool.promoteLoop address fuel pool nonce).blobs = pool.blobs := by
  induction fuel generalizing pool nonce with
  | zero => rfl
  | succ fuel ih =>
      rcases promoteLoop_cases (h.increasing false address) (h.increasing true address) with
        ⟨heq, -⟩ | ⟨pool', hpromotes, heq⟩
      · rw [heq]
      · rw [heq, ih (h.promote hpromotes), hpromotes.blobs]

/-- The nonces of transactions and accounts are numbers of 64 bits. -/
structure NoncesFit (pool : Mempool) (accounts : Accounts) : Prop where
  pooled : ∀ tx, pool.Pooled tx → tx.nonce < 2 ^ 64
  state : ∀ address, ((accounts address).getD (0, 0)).1 < 2 ^ 64

/-- The nonce at which the promotion for an address starts. -/
def firstNonce (accounts : Accounts) (pool : Mempool) (address : Address) : Nat :=
  pool.nextPendingNonce address ((accounts address).getD (0, 0)).1

omit [Evm] in
theorem firstNonce_lt {accounts : Accounts} (pool : Mempool) {address : Address}
    (h : ((accounts address).getD (0, 0)).1 < 2 ^ 64) :
    firstNonce accounts pool address < 2 ^ 64 := by
  unfold firstNonce nextPendingNonce
  split
  next => exact Nat.mod_lt _ (by decide)
  next => exact h

theorem Ordered.promoted_promoteAddress {pool : Mempool} (h : pool.Ordered) {accounts : Accounts}
    {address : Address} (hnonce : ((accounts address).getD (0, 0)).1 < 2 ^ 64) :
    Promoted address (firstNonce accounts pool address) pool
      (promoteAddress accounts pool address) := by
  have hloop := h.promoted (firstNonce_lt pool hnonce)
    (Nat.le_refl (pool.queue false address).length)
  have hsame := promoteQueued_sameQueues pool address (firstNonce accounts pool address)
  constructor
  · intro tx
    rw [← hloop.queued tx, ← hsame]
    rfl
  · intro tx
    rw [← hloop.pending tx, ← hsame]
    rfl

theorem ordered_promoteAddress {pool : Mempool} (h : pool.Ordered) (accounts : Accounts)
    (address : Address) : (promoteAddress accounts pool address).Ordered :=
  h.promoteQueued address _

theorem Ordered.promoteAddresses_same {pool : Mempool} (h : pool.Ordered) (accounts : Accounts)
    {addresses : List Address} {address : Address} (hnot : address ∉ addresses)
    (isPending : Bool) :
    (addresses.foldl (promoteAddress accounts) pool).queue isPending address =
      pool.queue isPending address := by
  induction addresses generalizing pool with
  | nil => rfl
  | cons first addresses ih =>
      obtain ⟨hne, hnot⟩ := not_or.mp (List.mem_cons.not.mp hnot)
      rw [List.foldl_cons, ih (ordered_promoteAddress h accounts first) hnot]
      exact (promoteQueued_promotions h first _).2 isPending address hne

theorem Ordered.promoteAddresses_blobs {pool : Mempool} (h : pool.Ordered) (accounts : Accounts)
    (addresses : List Address) :
    (addresses.foldl (promoteAddress accounts) pool).blobs = pool.blobs := by
  induction addresses generalizing pool with
  | nil => rfl
  | cons first addresses ih =>
      rw [List.foldl_cons, ih (ordered_promoteAddress h accounts first)]
      exact (promoteQueued_sameTables pool first _).blobs.trans (h.promoteLoop_blobs first _ _)

/-- Everyone who has queued transactions is promoted once. -/
theorem Ordered.promoted_promoteAddresses {pool : Mempool} (h : pool.Ordered)
    {accounts : Accounts} (hstate : ∀ address, ((accounts address).getD (0, 0)).1 < 2 ^ 64)
    {addresses : List Address} (hnodup : addresses.Nodup) {address : Address}
    (hqueued : address ∉ addresses → pool.queue false address = []) :
    Promoted address (firstNonce accounts pool address) pool
      (addresses.foldl (promoteAddress accounts) pool) := by
  induction addresses generalizing pool with
  | nil =>
      refine promoted_of_not_queued (firstNonce_lt pool (hstate address)) ?_
      rw [hqueued List.not_mem_nil]
      exact nofun
  | cons first addresses ih =>
      obtain ⟨hnot, hnodup⟩ := List.nodup_cons.mp hnodup
      have hordered := ordered_promoteAddress h accounts first
      rw [List.foldl_cons]
      by_cases hfirst : address = first
      · subst hfirst
        exact (h.promoted_promoteAddress (hstate address)).congr (fun _ => rfl)
          (hordered.promoteAddresses_same accounts hnot)
      · have hsame : ∀ isPending, (promoteAddress accounts pool first).queue isPending address =
            pool.queue isPending address :=
          fun isPending => (promoteQueued_promotions h first _).2 isPending address hfirst
        have hstart : firstNonce accounts (promoteAddress accounts pool first) address =
            firstNonce accounts pool address := by
          unfold firstNonce nextPendingNonce
          rw [hsame]
        rw [← hstart]
        refine (ih hordered hnodup ?_).congr (fun isPending => (hsame isPending).symm) fun _ => rfl
        intro hmem
        rw [hsame]
        exact hqueued (List.not_mem_cons_of_ne_of_not_mem hfirst hmem)

/-! ## What is in the pool afterwards -/

omit [Evm] in
theorem reached_nextNonce_iff {txs : List Transaction} {last nonce : Nat} (hlast : last < 2 ^ 64)
    (hnonce : nonce ≤ last) :
    Reached txs (nextNonce last) nonce ↔
      ∀ n < 2 ^ 64, n ≤ nonce ∨ last < n → ∃ tx ∈ txs, tx.nonce = n := by
  unfold Reached nextNonce
  constructor
  · rintro ⟨k, hk, hreached, htaken⟩ n hn hbetween
    obtain ⟨tx, hmem, heq⟩ := htaken ((n + 2 ^ 64 - 1 - last) % 2 ^ 64) (by omega)
    exact ⟨tx, hmem, by omega⟩
  · intro htaken
    refine ⟨2 ^ 64 - 1 - last + nonce, by omega, by omega, ?_⟩
    intro i hi
    exact htaken _ (Nat.mod_lt _ (by decide)) (by omega)

variable {pool purged : Mempool} {accounts : Accounts}

theorem Purged.hasAccepted_iff (h : pool.Purged accounts purged) {isPending : Bool}
    {address : Address} {nonce : Nat} : pool.HasAccepted accounts isPending address nonce ↔
      ∃ tx ∈ purged.queue isPending address, tx.nonce = nonce := by
  unfold HasAccepted
  simp only [h.queues, and_assoc]

theorem Purged.reached_iff (h : pool.Purged accounts purged) (hfit : pool.NoncesFit accounts)
    {address : Address} {nonce : Nat} (htwin : pool.HasAccepted accounts true address nonce) :
    Reached (purged.queue false address) (firstNonce accounts purged address) nonce ↔
      ∀ n < 2 ^ 64, (n ≤ nonce ∨ ∀ pending, pool.HasAccepted accounts true address pending →
        pending < n) → pool.HasAccepted accounts false address n := by
  simp only [h.hasAccepted_iff] at htwin ⊢
  obtain ⟨twin, htwin, rfl⟩ := htwin
  have hincreasing := h.ordered.increasing true address
  cases hlast : (purged.queue true address).getLast? with
  | none =>
      rw [List.getLast?_eq_none_iff.mp hlast] at htwin
      cases htwin
  | some last =>
      have hmem : last ∈ purged.queue true address := List.mem_of_getLast? hlast
      have hle := SenderQueues.le_getLast hincreasing hlast
      have hfirst : firstNonce accounts purged address = nextNonce last.nonce := by
        unfold firstNonce nextPendingNonce
        rw [hlast]
      have habove : ∀ n, (∀ pending, (∃ tx ∈ purged.queue true address, tx.nonce = pending) →
          pending < n) ↔ last.nonce < n := by
        intro n
        constructor
        · exact fun habove => habove _ ⟨last, hmem, rfl⟩
        · rintro hlt _ ⟨tx, htx, rfl⟩
          exact (hle tx htx).trans_lt hlt
      simp only [habove]
      rw [hfirst]
      exact reached_nextNonce_iff
        (hfit.pooled last ⟨true, address, ((h.queues true address last).mp hmem).1⟩)
        (hle twin htwin)

/-- A revalidation that ends: first the removal, then the promotions. -/
structure Settles (pool : Mempool) (accounts : Accounts) (purged settled : Mempool) : Prop where
  removal : pool.Purged accounts purged
  ordered : settled.Ordered
  promoted : ∀ address, Promoted address (firstNonce accounts purged address) purged settled
  blobs : settled.blobs = purged.blobs

variable {settled : Mempool} {tx : Transaction}

/-- What was accepted and is pending stays so. -/
theorem Settles.mem_pending (h : pool.Settles accounts purged settled) {address : Address}
    (hmem : tx ∈ pool.queue true address) (haccepted : pool.Accepted accounts tx) :
    tx ∈ settled.queue true address :=
  ((h.promoted address).pending tx).mpr
    (Or.inl ((h.removal.queues true address tx).mpr ⟨hmem, haccepted⟩))

theorem pooled_iff_sender (h : pool.Ordered) :
    pool.Pooled tx ↔ tx ∈ pool.queue true (senderOf tx) ∨ tx ∈ pool.queue false (senderOf tx) := by
  constructor
  · rintro ⟨isPending, address, hmem⟩
    obtain rfl := h.filed isPending address tx hmem
    cases isPending with
    | true => exact Or.inl hmem
    | false => exact Or.inr hmem
  · rintro (hmem | hmem)
    · exact ⟨true, _, hmem⟩
    · exact ⟨false, _, hmem⟩

theorem Purged.dropsOut_iff (h : pool.Purged accounts purged) (hfit : pool.NoncesFit accounts) :
    pool.DropsOut accounts tx ↔ tx ∉ pool.queue true (senderOf tx) ∧
      pool.HasAccepted accounts true (senderOf tx) tx.nonce ∧
      Reached (purged.queue false (senderOf tx)) (firstNonce accounts purged (senderOf tx))
        tx.nonce := by
  constructor
  · intro hdrops
    exact ⟨hdrops.waits, hdrops.twin, (h.reached_iff hfit hdrops.twin).mpr hdrops.taken⟩
  · rintro ⟨hwaits, htwin, hreached⟩
    exact ⟨hwaits, htwin, (h.reached_iff hfit htwin).mp hreached⟩

/-- The pool ends with the accepted transactions that promotion has not dropped. -/
theorem Settles.pooled_iff (h : pool.Settles accounts purged settled) (hordered : pool.Ordered)
    (hfit : pool.NoncesFit accounts) : settled.Pooled tx ↔ pool.Survives accounts tx := by
  have hpromoted := h.promoted (senderOf tx)
  have hfresh : (∀ twin ∈ purged.queue true (senderOf tx), twin.nonce ≠ tx.nonce) ↔
      ¬ pool.HasAccepted accounts true (senderOf tx) tx.nonce := by
    rw [h.removal.hasAccepted_iff]
    push Not
    rfl
  unfold Survives
  rw [pooled_iff_sender h.ordered, pooled_iff_sender hordered, hpromoted.pending,
    hpromoted.queued, hfresh, h.removal.dropsOut_iff hfit, h.removal.queues, h.removal.queues]
  tauto

theorem Settles.blobs_iff (h : pool.Settles accounts purged settled)
    (haccepted : pool.Accepted accounts tx) :
    (∀ hash ∈ tx.blobVersionedHashes, (settled.blobs.get hash).isSome) ↔
      ∀ gone, pool.Pooled gone → ¬ pool.Accepted accounts gone →
        ∀ hash ∈ tx.blobVersionedHashes, hash ∉ gone.blobVersionedHashes := by
  rw [h.blobs]
  simp only [h.removal.blobs]
  constructor
  · intro hblobs gone hgone hnot hash hmem hshared
    exact hnot ((hblobs hash hmem).2 gone hgone hshared)
  · intro hspared hash hmem
    refine ⟨haccepted.blobs hash hmem, ?_⟩
    intro gone hgone hshared
    by_contra hnot
    exact hspared gone hgone hnot hash hmem hshared

variable [BlockHashing]

omit [Evm] in
theorem revalidate_eq_none_iff (accounts : Accounts) :
    (pool.revalidate accounts none).2 = none ↔ ∃ tx, pool.Pooled tx ∧ pool.Overflows tx := by
  have hchecked : (∃ tx, pool.Pooled tx ∧ pool.Overflows tx) ↔
      pool.processAddresses accounts (pool.addressesToCheck none) = none := by
    rw [processAddresses_eq_none_iff]
    constructor
    · rintro ⟨tx, ⟨isPending, address, hmem⟩, hoverflows⟩
      exact ⟨address, mem_addressesToCheck hmem, isPending, tx, hmem, hoverflows⟩
    · rintro ⟨address, -, isPending, tx, hmem, hoverflows⟩
      exact ⟨tx, ⟨isPending, address, hmem⟩, hoverflows⟩
  rw [hchecked]
  unfold revalidate
  dsimp only
  split
  next heq => exact iff_of_true rfl heq
  next heq => exact iff_of_false nofun fun hnone => nomatch heq.symm.trans hnone

theorem revalidate_settles (hordered : pool.Ordered) (hdiffer : pool.HashesDiffer)
    (hfit : pool.NoncesFit accounts) (hends : (pool.revalidate accounts none).2 ≠ none) :
    ∃ purged, pool.Settles accounts purged (pool.revalidate accounts none).1 := by
  unfold revalidate at hends ⊢
  dsimp only at hends ⊢
  split at hends
  next => exact absurd rfl hends
  next toRemove heq =>
    have hpurged := purged_removeTransactions hordered
      fun tx htx => mem_toRemove hordered hdiffer heq htx
    refine ⟨_, hpurged, hpurged.ordered.promoteAddresses accounts _, ?_,
      hpurged.ordered.promoteAddresses_blobs accounts _⟩
    intro address
    refine hpurged.ordered.promoted_promoteAddresses hfit.state
      (nodup_addressesToCheck.filter _) ?_
    intro hnot
    refine List.eq_nil_iff_forall_not_mem.mpr fun tx hmem => hnot ?_
    have hqueued := ((hpurged.queues false address tx).mp hmem).1
    exact List.mem_filter.mpr
      ⟨mem_addressesToCheck hqueued, decide_eq_true (mem_of_mem_lookup hqueued)⟩

end

/-! ## When it is what should be there -/

section

variable [Evm] [BlockHashing] (pool : Mempool) (accounts : Accounts)

/-- Revalidation ends and keeps exactly what can be paid for, except that a queued
transaction may go whose nonce is pending. -/
structure KeepsPayable : Prop where
  ends : (pool.revalidate accounts none).2 = some ()
  sound : ∀ tx, (pool.revalidate accounts none).1.Pooled tx →
    pool.Pooled tx ∧ pool.Payable accounts tx
  complete : ∀ tx, pool.Pooled tx → pool.Payable accounts tx →
    (pool.revalidate accounts none).1.Pooled tx ∨
      tx ∈ pool.queue false (senderOf tx) ∧
        ∃ twin ∈ (pool.revalidate accounts none).1.queue true (senderOf tx),
          twin.nonce = tx.nonce

omit [Evm] in
/-- What is in the pool after the revalidation has its blobs. -/
def KeepsBlobs : Prop :=
  ∀ tx, (pool.revalidate accounts none).1.Pooled tx →
    ∀ hash ∈ tx.blobVersionedHashes, ((pool.revalidate accounts none).1.blobs.get hash).isSome

omit [BlockHashing] in
/-- Every number fits that is converted, and no cost wraps to what its sender has,
unless promotion drops the transaction. -/
structure CostsFit : Prop where
  converted : ∀ tx, pool.Pooled tx → ¬ pool.Overflows tx
  covered : ∀ tx, pool.Pooled tx → pool.Wraps accounts tx → pool.DropsOut accounts tx

omit [BlockHashing] in
/-- What survives shares no blob with what is not accepted. -/
def BlobsApart : Prop :=
  ∀ tx, pool.Survives accounts tx → ∀ gone, pool.Pooled gone → ¬ pool.Accepted accounts gone →
    ∀ hash ∈ tx.blobVersionedHashes, hash ∉ gone.blobVersionedHashes

variable {pool accounts}

theorem KeepsPayable.costsFit (h : pool.KeepsPayable accounts) (hordered : pool.Ordered)
    (hdiffer : pool.HashesDiffer) (hfit : pool.NoncesFit accounts) : pool.CostsFit accounts := by
  have hends : (pool.revalidate accounts none).2 ≠ none := by
    rw [h.ends]
    exact nofun
  obtain ⟨purged, hsettles⟩ := revalidate_settles hordered hdiffer hfit hends
  constructor
  · intro tx htx hoverflows
    exact hends ((revalidate_eq_none_iff accounts).mpr ⟨tx, htx, hoverflows⟩)
  · intro tx htx hwraps
    by_contra hstays
    have hsurvives : pool.Survives accounts tx := ⟨htx, hwraps.1, hstays⟩
    have hpayable := (h.sound tx ((hsettles.pooled_iff hordered hfit).mpr hsurvives)).2
    exact Nat.not_le_of_lt hwraps.2 hpayable.balance

theorem CostsFit.revalidate_ends (h : pool.CostsFit accounts) :
    (pool.revalidate accounts none).2 ≠ none := by
  rw [Ne, revalidate_eq_none_iff]
  rintro ⟨tx, htx, hoverflows⟩
  exact h.converted tx htx hoverflows

theorem CostsFit.keepsPayable (h : pool.CostsFit accounts) (hordered : pool.Ordered)
    (hdiffer : pool.HashesDiffer) (hfit : pool.NoncesFit accounts) :
    pool.KeepsPayable accounts := by
  obtain ⟨purged, hsettles⟩ := revalidate_settles hordered hdiffer hfit h.revalidate_ends
  constructor
  · obtain ⟨_, hends⟩ := Option.ne_none_iff_exists'.mp h.revalidate_ends
    exact hends
  · intro tx htx
    obtain ⟨hpooled, haccepted, hstays⟩ := (hsettles.pooled_iff hordered hfit).mp htx
    exact ⟨hpooled, haccepted.payable fun hwraps => hstays (h.covered tx hpooled hwraps)⟩
  · intro tx htx hpayable
    by_cases hdrops : pool.DropsOut accounts tx
    · refine Or.inr ⟨((pooled_iff_sender hordered).mp htx).resolve_left hdrops.waits, ?_⟩
      obtain ⟨twin, hmem, haccepted, hnonce⟩ := hdrops.twin
      exact ⟨twin, hsettles.mem_pending hmem haccepted, hnonce⟩
    · exact Or.inl ((hsettles.pooled_iff hordered hfit).mpr ⟨htx, hpayable.accepted, hdrops⟩)

theorem CostsFit.keepsBlobs_iff (h : pool.CostsFit accounts) (hordered : pool.Ordered)
    (hdiffer : pool.HashesDiffer) (hfit : pool.NoncesFit accounts) :
    pool.KeepsBlobs accounts ↔ pool.BlobsApart accounts := by
  obtain ⟨purged, hsettles⟩ := revalidate_settles hordered hdiffer hfit h.revalidate_ends
  refine forall_congr' fun tx => ?_
  rw [hsettles.pooled_iff hordered hfit]
  exact forall_congr' fun hsurvives => hsettles.blobs_iff hsurvives.2.1

/-- Every reachable pool is ordered. The nonces are 64-bit numbers, and the hashes
tell the transactions of the pool apart. -/
theorem keepsPayable_iff (hordered : pool.Ordered) (hdiffer : pool.HashesDiffer)
    (hfit : pool.NoncesFit accounts) :
    (pool.KeepsPayable accounts ↔ pool.CostsFit accounts) ∧
      (pool.KeepsPayable accounts ∧ pool.KeepsBlobs accounts ↔
        pool.CostsFit accounts ∧ pool.BlobsApart accounts) := by
  have hpayable : pool.KeepsPayable accounts ↔ pool.CostsFit accounts :=
    ⟨fun h => h.costsFit hordered hdiffer hfit, fun h => h.keepsPayable hordered hdiffer hfit⟩
  refine ⟨hpayable, ?_⟩
  rw [hpayable]
  exact and_congr_right fun h => h.keepsBlobs_iff hordered hdiffer hfit

end

section

attribute [local instance] keccak keccakHashing idleEvm

/-- A pool with one pending transaction. -/
def singlePool (tx : Transaction) : Mempool := (Mempool.new 0).setQueue true (senderOf tx) [tx]

theorem pooled_singlePool {tx other : Transaction} : (singlePool tx).Pooled other ↔ other = tx := by
  unfold Pooled singlePool
  constructor
  · rintro ⟨isPending, address, hmem⟩
    rw [queue_setQueue] at hmem
    split at hmem
    next => exact List.mem_singleton.mp hmem
    next =>
      cases isPending <;> cases hmem
  · rintro rfl
    refine ⟨true, senderOf other, ?_⟩
    rw [queue_setQueue, if_pos ⟨rfl, rfl⟩]
    exact List.mem_singleton.mpr rfl

/-- One that is well formed, with nobody in the state. -/
theorem singlePool_fits (tx : Transaction) (hnonce : tx.nonce < 2 ^ 64) : (singlePool tx).Ordered ∧
    (singlePool tx).HashesDiffer ∧ (singlePool tx).NoncesFit fun _ => none := by
  refine ⟨?_, ?_, ?_, fun _ => by decide⟩
  · refine (Reachable.new 0).ordered.setQueue (List.pairwise_singleton _ _) ?_
    intro other hmem
    rw [List.mem_singleton.mp hmem]
  · intro first second hfirst hsecond _
    rw [pooled_singlePool.mp hfirst, pooled_singlePool.mp hsecond]
  · intro other hother
    rw [pooled_singlePool.mp hother]
    exact hnonce

/-- A transaction that costs nothing is kept. -/
theorem keepsPayable_free : (singlePool (sampleTx 0 0)).KeepsPayable fun _ => none := by
  obtain ⟨hordered, hdiffer, hfit⟩ := singlePool_fits (sampleTx 0 0) (by decide)
  refine (keepsPayable_iff hordered hdiffer hfit).1.mpr ⟨?_, ?_⟩
  · intro tx htx
    rw [pooled_singlePool.mp htx]
    rintro (hbase | ⟨-, hvalue⟩)
    · exact absurd hbase (by decide)
    · exact absurd hvalue (by decide)
  · intro tx htx hwraps
    rw [pooled_singlePool.mp htx] at hwraps
    exact absurd hwraps.2 (by decide)

/-- A transaction whose value is a number of 129 bits. -/
def hugeTx : Transaction := { sampleTx 0 0 with value := BitVec.ofNat 256 (2 ^ 128) }

theorem not_keepsPayable_huge : ¬ ∀ (pool : Mempool) (accounts : Accounts), pool.Ordered →
    pool.HashesDiffer → pool.NoncesFit accounts → pool.KeepsPayable accounts := by
  intro h
  obtain ⟨hordered, hdiffer, hfit⟩ := singlePool_fits hugeTx (by decide)
  have hkeeps := h _ _ hordered hdiffer hfit
  have hnone := (revalidate_eq_none_iff fun _ => none).mpr
    ⟨hugeTx, pooled_singlePool.mpr rfl, Or.inr ⟨by decide, by decide⟩⟩
  cases hkeeps.ends.symm.trans hnone

end

end Mempool

end WasixEth
