import WasixEth.BlockCodec
import WasixEth.Mempool.Queues

/-! # What adding a transaction does

Unless the capacity is enforced, a transaction that is added changes the queues
of its sender only: it goes to its place or takes the place of the one with its
nonce, and queued transactions become pending behind it.
-/

namespace WasixEth

open Search Mempool

/-- The pending and the queued transactions of one sender. -/
structure SenderQueues where
  pending : List Transaction
  queued : List Transaction

namespace SenderQueues

/-- A queued transaction moves to its place in the pending queue, or goes since its
nonce is pending already. -/
inductive Promotion : SenderQueues → SenderQueues → Prop
  | move {low high before after : List Transaction} {tx : Transaction} (hfits : Fits low tx high) :
      Promotion ⟨low ++ high, before ++ tx :: after⟩ ⟨low ++ tx :: high, before ++ after⟩
  | drop {pending before after : List Transaction} {tx twin : Transaction}
      (htwin : twin ∈ pending) (hnonce : twin.nonce = tx.nonce) :
      Promotion ⟨pending, before ++ tx :: after⟩ ⟨pending, before ++ after⟩

/-- How the queues of the sender take in a transaction. -/
inductive TakesIn [Evm] (tx : Transaction) : SenderQueues → SenderQueues → Prop
  | replacePending {before after queued : List Transaction} {old : Transaction}
      (hsender : senderOf old = senderOf tx) (hnonce : old.nonce = tx.nonce) :
      TakesIn tx ⟨before ++ old :: after, queued⟩ ⟨before ++ tx :: after, queued⟩
  | replaceQueued {pending before after : List Transaction} {old : Transaction}
      (hsender : senderOf old = senderOf tx) (hnonce : old.nonce = tx.nonce) :
      TakesIn tx ⟨pending, before ++ old :: after⟩ ⟨pending, before ++ tx :: after⟩
  | insertPending {before after queued : List Transaction} {queues : SenderQueues}
      (hfits : Fits before tx after)
      (hpromoted : Relation.ReflTransGen Promotion ⟨before ++ tx :: after, queued⟩ queues) :
      TakesIn tx ⟨before ++ after, queued⟩ queues
  | insertQueued {pending before after : List Transaction} (hfits : Fits before tx after) :
      TakesIn tx ⟨pending, before ++ after⟩ ⟨pending, before ++ tx :: after⟩

end SenderQueues

namespace Mempool

open SenderQueues

def senderQueues (pool : Mempool) (address : Address) : SenderQueues :=
  ⟨pool.queue true address, pool.queue false address⟩

/-- Nothing happens to the queues of anyone else. -/
def SameElsewhere (pool pool' : Mempool) (address : Address) : Prop :=
  ∀ isPending other, other ≠ address → pool'.queue isPending other = pool.queue isPending other

theorem sameElsewhere_setQueue (pool : Mempool) (isPending : Bool) (address : Address)
    (txs : List Transaction) : pool.SameElsewhere
    (pool.setQueue isPending address txs) address := by
  intro kind other hne
  rw [queue_setQueue, if_neg fun h => hne h.2]

theorem SameElsewhere.trans {pool pool' pool'' : Mempool} {address : Address}
    (h : pool.SameElsewhere pool' address) (h' : pool'.SameElsewhere pool'' address) :
    pool.SameElsewhere pool'' address :=
  fun kind other hne => (h' kind other hne).trans (h kind other hne)

theorem SameQueues.sameElsewhere {pool pool' : Mempool} (h : pool.SameQueues pool')
    (address : Address) : pool.SameElsewhere pool' address :=
  fun kind other _ => h kind other

theorem senderQueues_setQueue_true (pool : Mempool) (address : Address) (txs : List Transaction) :
    (pool.setQueue true address txs).senderQueues address = ⟨txs, pool.queue false address⟩ := by
  unfold senderQueues
  rw [queue_setQueue, queue_setQueue, if_pos ⟨rfl, rfl⟩, if_neg fun h => Bool.noConfusion h.1]

theorem senderQueues_setQueue_false (pool : Mempool) (address : Address) (txs : List Transaction) :
    (pool.setQueue false address txs).senderQueues address = ⟨pool.queue true address, txs⟩ := by
  unfold senderQueues
  rw [queue_setQueue, queue_setQueue, if_neg fun h => Bool.noConfusion h.1, if_pos ⟨rfl, rfl⟩]

theorem Promotes.promotion {pool pool' : Mempool} {address : Address} {nonce : Nat}
    (h : Promotes address nonce pool pool') :
    Promotion (pool.senderQueues address) (pool'.senderQueues address) ∧
      pool.SameElsewhere pool' address := by
  cases h with
  | @move before after low high tx hqueued hnonce hpending hfits =>
      refine ⟨?_, (sameElsewhere_setQueue _ _ _ _).trans (sameElsewhere_setQueue _ _ _ _)⟩
      rw [senderQueues_setQueue_true, queue_setQueue, if_pos ⟨rfl, rfl⟩, senderQueues, hqueued,
        hpending]
      exact .move hfits
  | drop hqueued hnonce hpending htwin =>
      refine ⟨?_, sameElsewhere_setQueue _ _ _ _⟩
      rw [senderQueues_setQueue_false, senderQueues, hqueued]
      exact .drop hpending (htwin.trans hnonce.symm)

section

variable [Evm]

theorem promoteLoop_promotions {pool : Mempool} (h : pool.Ordered) (address : Address)
    (fuel nonce : Nat) :
    Relation.ReflTransGen Promotion (pool.senderQueues address)
        ((promoteLoop address fuel pool nonce).senderQueues address) ∧
      pool.SameElsewhere (promoteLoop address fuel pool nonce) address := by
  induction fuel generalizing pool nonce with
  | zero => exact ⟨.refl, fun _ _ _ => rfl⟩
  | succ fuel ih =>
      rcases promoteLoop_cases (h.increasing false address) (h.increasing true address) with
        ⟨heq, -⟩ | ⟨pool', hpromotes, heq⟩
      · rw [heq]
        exact ⟨.refl, fun _ _ _ => rfl⟩
      · obtain ⟨hpromotion, hsame⟩ := hpromotes.promotion
        obtain ⟨hrest, hsame'⟩ := ih (h.promote hpromotes) (nextNonce nonce)
        rw [heq]
        exact ⟨.head hpromotion hrest, hsame.trans hsame'⟩

theorem promoteQueued_promotions {pool : Mempool} (h : pool.Ordered) (address : Address)
    (nonce : Nat) :
    Relation.ReflTransGen Promotion (pool.senderQueues address)
        ((pool.promoteQueued address nonce).senderQueues address) ∧
      pool.SameElsewhere (pool.promoteQueued address nonce) address := by
  obtain ⟨hpromotions, hsame⟩ :=
    promoteLoop_promotions h address (pool.queue false address).length nonce
  have hqueues := promoteQueued_sameQueues pool address nonce
  refine ⟨?_, hsame.trans (hqueues.sameElsewhere address)⟩
  unfold senderQueues at hpromotions ⊢
  rwa [hqueues true address, hqueues false address]

variable [BlockHashing]

theorem Places.takesIn {pool : Mempool} {tx : Transaction} {isPending : Bool}
    {placed : Mempool × Bool} (h : pool.Ordered)
    (hplaces : Places pool (senderOf tx) tx isPending placed) :
    placed = (pool, false) ∨ placed.2 = true ∧
      TakesIn tx (pool.senderQueues (senderOf tx)) (placed.1.senderQueues (senderOf tx)) ∧
      pool.SameElsewhere placed.1 (senderOf tx) := by
  cases hplaces with
  | refused => exact Or.inl rfl
  | @replaced before after old hqueue hnonce =>
      have hsender : senderOf old = senderOf tx := by
        refine h.filed isPending (senderOf tx) old ?_
        rw [hqueue]
        exact List.mem_append_right _ List.mem_cons_self
      refine Or.inr ⟨rfl, ?_, ?_⟩
      · cases isPending with
        | true =>
            rw [senderQueues_setQueue_true, queue_cleanUp, senderQueues, hqueue]
            exact .replacePending hsender hnonce
        | false =>
            rw [senderQueues_setQueue_false, queue_cleanUp, senderQueues, hqueue]
            exact .replaceQueued hsender hnonce
      · exact SameElsewhere.trans (SameQueues.sameElsewhere (queue_cleanUp pool · · old) _)
          (sameElsewhere_setQueue _ _ _ _)
  | @inserted before after hqueue hfits =>
      have hsame := sameElsewhere_setQueue pool isPending (senderOf tx) (before ++ tx :: after)
      refine Or.inr ⟨rfl, ?_⟩
      cases isPending with
      | true =>
          obtain ⟨hpromotions, hsame'⟩ :=
            promoteQueued_promotions (h.insert hqueue hfits) (senderOf tx) (nextNonce tx.nonce)
          rw [senderQueues_setQueue_true] at hpromotions
          refine ⟨?_, hsame.trans hsame'⟩
          rw [senderQueues, hqueue]
          exact .insertPending hfits hpromotions
      | false =>
          refine ⟨?_, hsame⟩
          dsimp only
          rw [if_neg Bool.false_ne_true, senderQueues_setQueue_false, senderQueues, hqueue]
          exact .insertQueued hfits

/-- No transaction is evicted on the way. -/
def KeepsAll (pool : Mempool) (roll : UInt8) : Prop :=
  roll % 16 = 0 → pool.len ≤ maxMempoolSize

omit [Evm] [BlockHashing] in
theorem evictSometimes_of_keepsAll {pool : Mempool} {roll : UInt8} (h : pool.KeepsAll roll) :
    pool.evictSometimes roll = (pool, some ()) := by
  unfold evictSometimes
  split
  next hroll =>
    unfold enforceCapacity
    generalize pool.len = fuel
    cases fuel with
    | zero => rfl
    | succ fuel => rw [evictLoop, if_pos (h hroll)]
  next => rfl

/-- Queues stay ordered and filed under their sender along every run, and without
an eviction adding a transaction is refused or takes it in once. -/
theorem Reachable.ordered_takesIn {pool : Mempool} (h : pool.Reachable) :
    pool.Ordered ∧ ∀ (tx : Transaction) (currentNonce : Nat) (roll : UInt8), pool.KeepsAll roll →
      pool.addTransaction tx currentNonce roll = (pool, some false) ∨
      ∃ pool', pool.addTransaction tx currentNonce roll = (pool', some true) ∧
        TakesIn tx (pool.senderQueues (senderOf tx)) (pool'.senderQueues (senderOf tx)) ∧
        pool.SameElsewhere pool' (senderOf tx) := by
  refine ⟨h.ordered, ?_⟩
  intro tx currentNonce roll hkeeps
  unfold addTransaction insertIntoQueue
  split
  · exact Or.inl rfl
  · rw [evictSometimes_of_keepsAll hkeeps]
    dsimp only
    generalize decide (tx.nonce ≤ max (pool.nextPendingNonce (senderOf tx) currentNonce)
      currentNonce) = isPending
    have hplaces := place_places tx (h.ordered.increasing isPending (senderOf tx))
    rcases hplaces.takesIn h.ordered with hrefused | ⟨hadded, htakesIn, hsame⟩
    · rw [hrefused]
      exact Or.inl rfl
    · exact Or.inr ⟨_, by rw [hadded], htakesIn, hsame⟩

end

section

attribute [local instance] keccak keccakHashing idleEvm

/-- A transaction that nobody signed. -/
def sampleTx (nonce gasPrice : Nat) : Transaction :=
  { (default : Transaction) with kind := .legacy gasPrice, nonce }

/-- A pool with a gap before its one transaction. -/
def samplePool : Mempool := (Mempool.new 0).apply (.addTransaction (sampleTx 1 100) 0 1)

theorem ordered_takesIn_samplePool : samplePool.Ordered ∧
    (samplePool.addTransaction (sampleTx 0 100) 0 1 = (samplePool, some false) ∨
      ∃ pool', samplePool.addTransaction (sampleTx 0 100) 0 1 = (pool', some true) ∧
        TakesIn (sampleTx 0 100) (samplePool.senderQueues (senderOf (sampleTx 0 100)))
          (pool'.senderQueues (senderOf (sampleTx 0 100))) ∧
        samplePool.SameElsewhere pool' (senderOf (sampleTx 0 100))) := by
  have hreachable : samplePool.Reachable := .apply _ (.new 0)
  obtain ⟨hordered, hadds⟩ := hreachable.ordered_takesIn
  exact ⟨hordered, hadds (sampleTx 0 100) 0 1 fun hroll => absurd hroll (by decide)⟩

end

end Mempool

end WasixEth
