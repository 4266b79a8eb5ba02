import WasixEth.Mempool.Evicting

/-! # Taking the best transactions

Every round of `popTransactions` takes the head with the highest tip, so what is
returned and what is left are the pending transactions, each sender's in order. A
base fee that does not fit in 128 bits makes the first look at a head panic.
-/

namespace WasixEth

namespace Mempool

/-! ## What popping is to do -/

def allPending (pool : Mempool) : List Transaction := pool.pendingTransactions.values.flatten

section

variable [Evm]

/-- The head of a sender's pending queue once these transactions were taken. -/
def headAfter (pool : Mempool) (taken : List Transaction) (address : Address) :
    Option Transaction :=
  ((pool.queue true address).drop (taken.countP fun tx => senderOf tx = address)).head?

end

/-! ## One scan -/

/-- What the search for the best sender comes to. -/
inductive Best (pool : Mempool) : Option Address → Prop
  | nobody (hall : ∀ address, pool.queue true address = []) : Best pool none
  | sender {address : Address} {tx : Transaction} {rest : List Transaction}
      (hqueue : pool.queue true address = tx :: rest)
      (hbest : ∀ address' other, (pool.queue true address').head? = some other →
        effectiveTip other pool.baseFee ≤ effectiveTip tx pool.baseFee) :
      Best pool (some address)

section

variable [BlockHashing]

theorem allPending_shrinkQueue {pool : Mempool} {address : Address} {tx : Transaction}
    {rest : List Transaction} (hqueue : pool.queue true address = tx :: rest) :
    pool.allPending.Perm
      (tx :: ((pool.cleanUp tx).shrinkQueue true address rest).allPending) := by
  have hpending := DashMap.perm_flatten_values pool.pendingTransactions address
  rw [show (pool.pendingTransactions.lookup address).getD [] = tx :: rest from hqueue] at hpending
  unfold allPending shrinkQueue
  split
  next hempty =>
      rw [List.isEmpty_iff.mp hempty] at hpending
      exact hpending
  next => exact hpending

theorem queued_shrinkQueue (pool : Mempool) (address : Address) (tx : Transaction)
    (rest : List Transaction) :
    ((pool.cleanUp tx).shrinkQueue true address rest).queuedTransactions =
      pool.queuedTransactions := by
  unfold shrinkQueue
  split <;> rfl

theorem baseFee_shrinkQueue (pool : Mempool) (address : Address) (tx : Transaction)
    (rest : List Transaction) :
    ((pool.cleanUp tx).shrinkQueue true address rest).baseFee = pool.baseFee := by
  unfold shrinkQueue
  split <;> rfl

variable [Evm]

/-- A round moves the sender's head on by one. -/
theorem headAfter_cons {pool : Mempool} {tx : Transaction} {rest : List Transaction}
    (hqueue : pool.queue true (senderOf tx) = tx :: rest) (taken : List Transaction)
    (address : Address) :
    pool.headAfter (tx :: taken) address =
      ((pool.cleanUp tx).shrinkQueue true (senderOf tx) rest).headAfter taken address := by
  unfold headAfter
  rw [queue_shrinkQueue, List.countP_cons]
  by_cases heq : address = senderOf tx
  · subst heq
    rw [if_pos (decide_eq_true rfl), if_pos ⟨rfl, rfl⟩, hqueue, List.drop_succ_cons]
  · rw [if_neg (by simpa using fun h => heq h.symm), if_neg fun h => heq h.2, queue_cleanUp,
      Nat.add_zero]

/-! ## The whole loop -/

/-- What the rounds of the loop take, as each sender's queue sees it. -/
structure Takes (pool : Mempool) (n : Nat) (taken : List Transaction) (left : Mempool) :
    Prop where
  count : taken.length = min n pool.allPending.length
  pending : pool.allPending.Perm (taken ++ left.allPending)
  queued : left.queuedTransactions = pool.queuedTransactions
  queues : ∀ address, pool.queue true address =
    (taken.filter fun tx => senderOf tx = address) ++ left.queue true address
  best : ∀ before tx after, taken = before ++ tx :: after →
    pool.headAfter before (senderOf tx) = some tx ∧
      ∀ address other, pool.headAfter before address = some other →
        effectiveTip other pool.baseFee ≤ effectiveTip tx pool.baseFee

omit [BlockHashing] in
theorem Takes.nothing {pool : Mempool} {n : Nat} (h : min n pool.allPending.length = 0) :
    Takes pool n [] pool where
  count := h.symm
  pending := List.Perm.refl _
  queued := rfl
  queues _ := rfl
  best before tx after h := by simp at h

/-- The best head is taken, and then the others are. -/
theorem Takes.cons {pool left : Mempool} {n : Nat} {tx : Transaction}
    {rest taken : List Transaction} (hqueue : pool.queue true (senderOf tx) = tx :: rest)
    (hbest : ∀ address other, (pool.queue true address).head? = some other →
      effectiveTip other pool.baseFee ≤ effectiveTip tx pool.baseFee)
    (hrest : Takes ((pool.cleanUp tx).shrinkQueue true (senderOf tx) rest) n taken left) :
    Takes pool (n + 1) (tx :: taken) left := by
  have hperm := allPending_shrinkQueue hqueue
  refine ⟨?_, ?_, ?_, ?_, ?_⟩
  · rw [List.length_cons, hrest.count, hperm.length_eq, List.length_cons, Nat.add_min_add_right]
  · exact hperm.trans (hrest.pending.cons tx)
  · rw [hrest.queued, queued_shrinkQueue]
  · intro address
    have hqueues := hrest.queues address
    rw [queue_shrinkQueue] at hqueues
    by_cases heq : address = senderOf tx
    · subst heq
      rw [if_pos ⟨rfl, rfl⟩] at hqueues
      rw [hqueue, List.filter_cons_of_pos (by simp), List.cons_append, ← hqueues]
    · rw [if_neg fun h => heq h.2, queue_cleanUp] at hqueues
      rw [List.filter_cons_of_neg (by simpa using fun h => heq h.symm)]
      exact hqueues
  · intro before other after htaken
    cases before with
    | nil =>
        rw [List.nil_append] at htaken
        obtain ⟨rfl, -⟩ := List.cons.inj htaken
        refine ⟨?_, hbest⟩
        unfold headAfter
        rw [List.countP_nil, List.drop_zero, hqueue, List.head?_cons]
    | cons first before =>
        rw [List.cons_append] at htaken
        obtain ⟨rfl, hafter⟩ := List.cons.inj htaken
        obtain ⟨hhead, hhighest⟩ := hrest.best before other after hafter
        rw [baseFee_shrinkQueue] at hhighest
        refine ⟨(headAfter_cons hqueue _ _).trans hhead, fun address' other' hother' => ?_⟩
        exact hhighest address' other' ((headAfter_cons hqueue _ _).symm.trans hother')

end

section

attribute [local instance] keccak keccakHashing idleEvm

end

end Mempool

end WasixEth
