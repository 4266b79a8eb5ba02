import WasixEth.Mempool.Submission
import Mathlib.Logic.Relation

/-! # What operations do to the queues

Each operation is described once by what it does to the queues of one sender:
insertion or replacement at a nonce, promotion of one transaction, or the loss of
transactions at an end. The queues stay ordered by nonce along every run.
-/

namespace WasixEth

open Search

namespace Mempool

/-! ## Single queues -/

section

variable (pool : Mempool) (isPending other : Bool) (address at' : Address) (txs : List Transaction)

theorem queues_withQueues (queues : Queues) :
    (pool.withQueues isPending queues).queues other =
      if other = isPending then queues else pool.queues other := by
  cases isPending <;> cases other <;> rfl

theorem queue_setQueue :
    (pool.setQueue isPending address txs).queue other at' =
      if other = isPending ∧ at' = address then txs else pool.queue other at' := by
  unfold setQueue queue
  rw [queues_withQueues]
  by_cases hqueue : other = isPending
  · subst hqueue
    rw [if_pos rfl]
    by_cases haddress : at' = address
    · subst haddress
      rw [AList.lookup_insert, if_pos ⟨rfl, rfl⟩, Option.getD_some]
    · rw [AList.lookup_insert_ne haddress, if_neg fun h => haddress h.2]
  · rw [if_neg hqueue, if_neg fun h => hqueue h.1]

theorem queue_dropQueue :
    (pool.dropQueue isPending address).queue other at' =
      if other = isPending ∧ at' = address then [] else pool.queue other at' := by
  unfold dropQueue queue
  rw [queues_withQueues]
  by_cases hqueue : other = isPending
  · subst hqueue
    rw [if_pos rfl]
    by_cases haddress : at' = address
    · subst haddress
      rw [AList.lookup_erase, if_pos ⟨rfl, rfl⟩, Option.getD_none]
    · rw [AList.lookup_erase_ne haddress, if_neg fun h => haddress h.2]
  · rw [if_neg hqueue, if_neg fun h => hqueue h.1]

theorem queue_shrinkQueue :
    (pool.shrinkQueue isPending address txs).queue other at' =
      if other = isPending ∧ at' = address then txs else pool.queue other at' := by
  unfold shrinkQueue
  split
  next hempty => rw [queue_dropQueue, List.isEmpty_iff.mp hempty]
  next => rw [queue_setQueue]

theorem queue_evictBack :
    (pool.evictBack isPending address).queue other at' =
      if other = isPending ∧ at' = address then (pool.queue isPending address).dropLast
      else pool.queue other at' :=
  queue_shrinkQueue _ _ _ _ _ _

theorem queue_clear : pool.clear.queue other at' = [] := by
  cases other <;> rfl

variable [BlockHashing]

theorem queue_cleanUp (tx : Transaction) : (pool.cleanUp tx).queue other at' =
    pool.queue other at' := by
  cases other <;> rfl

theorem queue_removeTransactions (hashes : List B256) :
    (pool.removeTransactions hashes).queue other at' =
      (pool.queue other at').filter fun tx => txHash tx ∉ hashes := by
  have hwithout : ∀ queues : Queues, ((withoutNamed queues hashes).lookup at').getD [] =
      ((queues.lookup at').getD []).filter fun tx => txHash tx ∉ hashes := by
    intro queues
    unfold withoutNamed
    rw [DashMap.lookup_retain, DashMap.lookup_mapValues]
    cases queues.lookup at' with
    | none => rfl
    | some found =>
        rw [Option.map_some, Option.filter_some, Option.getD_some]
        split
        next => rfl
        next hempty => simpa using hempty
  cases other with
  | true => exact hwithout pool.pendingTransactions
  | false => exact hwithout pool.queuedTransactions

end

/-- Pools with the same queues. -/
def SameQueues (pool pool' : Mempool) : Prop :=
  ∀ isPending address, pool'.queue isPending address = pool.queue isPending address

theorem Rehashed.sameQueues {pool pool' : Mempool} (h : pool.Rehashed pool') :
    pool.SameQueues pool' := by
  obtain ⟨pending, queued, hpending, hqueued, rfl⟩ := h
  intro isPending address
  cases isPending with
  | true => exact congrArg (·.getD []) (hpending.lookup_eq address)
  | false => exact congrArg (·.getD []) (hqueued.lookup_eq address)

/-! ## Places in a queue -/

/-- `tx` stands between `before` and `after` by its nonce. -/
structure Fits (before : List Transaction) (tx : Transaction) (after : List Transaction) :
    Prop where
  low : ∀ other ∈ before, other.nonce < tx.nonce
  high : ∀ other ∈ after, tx.nonce < other.nonce

theorem insertIdx_append (before after : List Transaction) (tx : Transaction) :
    (before ++ after).insertIdx before.length tx = before ++ tx :: after := by
  induction before with
  | nil => rfl
  | cons first before ih => rw [List.cons_append, List.length_cons, List.insertIdx_succ_cons, ih,
      List.cons_append]

theorem increasing_append_iff {before after : List Transaction} :
    Increasing Transaction.nonce (before ++ after) ↔
      Increasing Transaction.nonce before ∧ Increasing Transaction.nonce after ∧
        ∀ a ∈ before, ∀ b ∈ after, a.nonce < b.nonce :=
  List.pairwise_append

theorem Fits.increasing {before after : List Transaction} {tx : Transaction}
    (h : Fits before tx after) (hincreasing : Increasing Transaction.nonce (before ++ after)) :
    Increasing Transaction.nonce (before ++ tx :: after) := by
  obtain ⟨hbefore, hafter, hacross⟩ := increasing_append_iff.mp hincreasing
  refine increasing_append_iff.mpr ⟨hbefore, List.pairwise_cons.mpr ⟨h.high, hafter⟩, ?_⟩
  intro a ha b hb
  rcases List.mem_cons.mp hb with rfl | hb
  · exact h.low a ha
  · exact hacross a ha b hb

theorem fits_of_increasing {before after : List Transaction} {tx : Transaction}
    (h : Increasing Transaction.nonce (before ++ tx :: after)) : Fits before tx after := by
  obtain ⟨-, hafter, hacross⟩ := increasing_append_iff.mp h
  exact ⟨fun other hmem => hacross other hmem tx List.mem_cons_self,
    (List.pairwise_cons.mp hafter).1⟩

/-! ## Promotion -/

/-- The queued transaction with a nonce becomes pending, or is dropped since the
nonce is pending already. -/
inductive Promotes (address : Address) (nonce : Nat) (pool : Mempool) : Mempool → Prop
  | move {before after low high : List Transaction} {tx : Transaction}
      (hqueued : pool.queue false address = before ++ tx :: after) (hnonce : tx.nonce = nonce)
      (hpending : pool.queue true address = low ++ high) (hfits : Fits low tx high) :
      Promotes address nonce pool
        ((pool.setQueue false address (before ++ after)).setQueue true address
          (low ++ tx :: high))
  | drop {before after : List Transaction} {tx twin : Transaction}
      (hqueued : pool.queue false address = before ++ tx :: after) (hnonce : tx.nonce = nonce)
      (hpending : twin ∈ pool.queue true address) (htwin : twin.nonce = nonce) :
      Promotes address nonce pool (pool.setQueue false address (before ++ after))

/-- One round of the promotion: the nonce is not queued, or its transaction is
promoted and the next nonce is looked for. -/
theorem promoteLoop_cases {pool : Mempool} {address : Address} {fuel nonce : Nat}
    (hqueued : Increasing Transaction.nonce (pool.queue false address))
    (hpending : Increasing Transaction.nonce (pool.queue true address)) :
    (promoteLoop address (fuel + 1) pool nonce = pool ∧
        ∀ tx ∈ pool.queue false address, tx.nonce ≠ nonce) ∨
      ∃ pool', Promotes address nonce pool pool' ∧
        promoteLoop address (fuel + 1) pool nonce =
          promoteLoop address fuel pool' (nextNonce nonce) := by
  rw [promoteLoop]
  cases hsearch : binarySearchByKey Transaction.nonce (pool.queue false address) nonce with
  | error pos =>
      obtain ⟨before, after, heq, -, hlow, hhigh⟩ :=
        exists_of_binarySearchByKey_error hqueued hsearch
      refine Or.inl ⟨rfl, ?_⟩
      intro tx hmem
      rw [heq] at hmem
      rcases List.mem_append.mp hmem with hmem | hmem
      · exact (hlow tx hmem).ne
      · exact (hhigh tx hmem).ne'
  | ok pos =>
      obtain ⟨before, tx, after, heq, rfl, hnonce⟩ := exists_of_binarySearchByKey_ok hsearch
      have hget : (pool.queue false address)[before.length]? = some tx := by
        rw [heq, List.getElem?_append_right (Nat.le_refl _), Nat.sub_self]
        rfl
      have herase : (pool.queue false address).eraseIdx before.length = before ++ after := by
        rw [heq, List.eraseIdx_append_of_length_le (Nat.le_refl _), Nat.sub_self,
          List.eraseIdx_cons_zero]
      have hsame : (pool.setQueue false address (before ++ after)).queue true address =
          pool.queue true address := by
        rw [queue_setQueue, if_neg fun h => Bool.noConfusion h.1]
      dsimp only
      rw [hget]
      dsimp only
      rw [herase, hsame]
      refine Or.inr ⟨_, ?_, rfl⟩
      cases hplace : binarySearchByKey Transaction.nonce (pool.queue true address) tx.nonce with
      | ok place =>
          obtain ⟨low, twin, high, htwins, -, htwin⟩ := exists_of_binarySearchByKey_ok hplace
          have hmem : twin ∈ pool.queue true address := by
            rw [htwins]
            exact List.mem_append_right _ List.mem_cons_self
          exact .drop heq hnonce hmem (htwin.trans hnonce)
      | error place =>
          obtain ⟨low, high, hsplit, rfl, hlow, hhigh⟩ :=
            exists_of_binarySearchByKey_error hpending hplace
          dsimp only
          rw [hsplit, insertIdx_append]
          exact .move heq hnonce hsplit ⟨hlow, hhigh⟩

/-! ## Ordered queues -/

variable [Evm]

/-- Every queue goes up in nonce and holds transactions of its sender. -/
structure Ordered (pool : Mempool) : Prop where
  increasing : ∀ isPending address, Increasing Transaction.nonce (pool.queue isPending address)
  filed : ∀ isPending address, ∀ tx ∈ pool.queue isPending address, senderOf tx = address

/-- Transactions are lost and nothing else happens. -/
def Shrinks (pool pool' : Mempool) : Prop :=
  ∀ isPending address, (pool'.queue isPending address).Sublist (pool.queue isPending address)

theorem Ordered.shrink {pool pool' : Mempool} (h : pool.Ordered) (hshrinks : pool.Shrinks pool') :
    pool'.Ordered where
  increasing isPending address := (h.increasing isPending address).sublist
    (hshrinks isPending address)
  filed isPending address tx hmem := h.filed isPending address tx
    ((hshrinks isPending address).subset hmem)

theorem Ordered.congr {pool pool' : Mempool} (h : pool.Ordered) (hsame : pool.SameQueues pool') :
    pool'.Ordered :=
  h.shrink fun isPending address => by rw [hsame isPending address]

/-- A queue may be set to anything that is ordered and of the sender. -/
theorem Ordered.setQueue {pool : Mempool} (h : pool.Ordered) {isPending : Bool} {address : Address}
    {txs : List Transaction} (hincreasing : Increasing Transaction.nonce txs)
    (hfiled : ∀ tx ∈ txs, senderOf tx = address) :
    (pool.setQueue isPending address txs).Ordered := by
  constructor
  · intro other at'
    rw [queue_setQueue]
    split
    · exact hincreasing
    · exact h.increasing other at'
  · intro other at' tx hmem
    rw [queue_setQueue] at hmem
    split at hmem
    next hat =>
      rw [hat.2]
      exact hfiled tx hmem
    next => exact h.filed other at' tx hmem

theorem Ordered.promote {pool pool' : Mempool} {address : Address} {nonce : Nat}
    (h : pool.Ordered) (hpromotes : Promotes address nonce pool pool') : pool'.Ordered := by
  have hrest : ∀ before tx after, pool.queue false address = before ++ tx :: after →
      (pool.setQueue false address (before ++ after)).Ordered := by
    intro before tx after hqueued
    have hsublist : (before ++ after).Sublist (pool.queue false address) := by
      rw [hqueued]
      exact (List.Sublist.refl before).append (List.sublist_cons_self tx after)
    exact h.setQueue ((h.increasing false address).sublist hsublist)
      fun tx hmem => h.filed false address tx (hsublist.subset hmem)
  cases hpromotes with
  | @move before after low high tx hqueued hnonce hpending hfits =>
      refine (hrest _ _ _ hqueued).setQueue ?_ ?_
      · refine hfits.increasing ?_
        rw [← hpending]
        exact h.increasing true address
      · intro other hmem
        rcases List.mem_append.mp hmem with hmem | hmem
        · exact h.filed true address other (hpending ▸ List.mem_append_left _ hmem)
        · rcases List.mem_cons.mp hmem with rfl | hmem
          · refine h.filed false address other ?_
            rw [hqueued]
            exact List.mem_append_right _ List.mem_cons_self
          · exact h.filed true address other (hpending ▸ List.mem_append_right _ hmem)
  | drop hqueued => exact hrest _ _ _ hqueued

/-! ## Loops -/

/-- One transaction is dropped at the back of a queue. -/
def Evicts (pool pool' : Mempool) : Prop :=
  ∃ isPending address, pool' = pool.evictBack isPending address

omit [Evm] in
theorem evictLoop_evicts (maxSize fuel : Nat) (pool : Mempool) :
    Relation.ReflTransGen Evicts pool (evictLoop maxSize fuel pool).1 := by
  induction fuel generalizing pool with
  | zero => exact .refl
  | succ fuel ih =>
      rw [evictLoop]
      split
      · exact .refl
      · split
        · exact .refl
        · exact .refl
        next address isPending _ =>
          exact .head ⟨isPending, address, rfl⟩ (ih _)

omit [Evm] in
theorem Evicts.shrinks {pool pool' : Mempool} (h : Evicts pool pool') : pool.Shrinks pool' := by
  obtain ⟨isPending, address, rfl⟩ := h
  intro other at'
  rw [queue_evictBack]
  split
  next hat =>
    rw [hat.1, hat.2]
    exact List.dropLast_sublist _
  next => exact List.Sublist.refl _

theorem Ordered.evicted {pool pool' : Mempool} (h : pool.Ordered)
    (hevicts : Relation.ReflTransGen Evicts pool pool') : pool'.Ordered := by
  induction hevicts with
  | refl => exact h
  | tail _ hevicts ih => exact ih.shrink hevicts.shrinks

theorem Ordered.promoteLoop {pool : Mempool} (h : pool.Ordered) (address : Address)
    (fuel nonce : Nat) : (promoteLoop address fuel pool nonce).Ordered := by
  induction fuel generalizing pool nonce with
  | zero => exact h
  | succ fuel ih =>
      rcases promoteLoop_cases (h.increasing false address) (h.increasing true address) with
        ⟨heq, -⟩ | ⟨pool', hpromotes, heq⟩
      · rw [heq]
        exact h
      · rw [heq]
        exact ih (h.promote hpromotes) _

omit [Evm] in
/-- Dropping an empty queue changes no queue. -/
theorem promoteQueued_sameQueues (pool : Mempool) (address : Address) (nonce : Nat) :
    (Mempool.promoteLoop address (pool.queue false address).length pool nonce).SameQueues
      (pool.promoteQueued address nonce) := by
  unfold promoteQueued
  intro other at'
  dsimp only
  split
  next hempty =>
    rw [queue_dropQueue]
    split
    next hat => rw [hat.1, hat.2, List.isEmpty_iff.mp hempty]
    next => rfl
  next => rfl

theorem Ordered.promoteQueued {pool : Mempool} (h : pool.Ordered) (address : Address)
    (nonce : Nat) : (pool.promoteQueued address nonce).Ordered :=
  (h.promoteLoop address _ nonce).congr (promoteQueued_sameQueues pool address nonce)

variable [BlockHashing]

/-- One transaction is taken from the front of a pending queue. -/
def Pops (pool pool' : Mempool) : Prop :=
  ∃ sender tx rest, pool.queue true sender = tx :: rest ∧
    pool' = (pool.cleanUp tx).shrinkQueue true sender rest

omit [Evm] [BlockHashing] in
theorem scanBest_mem {baseFee tip : Nat} {best : Option Address} {sender : Address}
    {entries : List (Sigma fun _ : Address => List Transaction)}
    (h : scanBest baseFee entries tip best = some (some sender)) :
    best = some sender ∨ ∃ txs, (⟨sender, txs⟩ : Sigma fun _ : Address => List Transaction) ∈
      entries ∧ txs ≠ [] := by
  induction entries generalizing tip best with
  | nil => exact Or.inl (Option.some.inj h)
  | cons entry entries ih =>
      obtain ⟨address, txs⟩ := entry
      -- What is found later is found in the longer list.
      have hlater : ∀ {tip best}, scanBest baseFee entries tip best = some (some sender) →
          best = some sender ∨ ∃ txs', (⟨sender, txs'⟩ : Sigma fun _ : Address =>
            List Transaction) ∈ ⟨address, txs⟩ :: entries ∧ txs' ≠ [] := by
        intro tip best hscan
        rcases ih hscan with hbest | ⟨txs', hmem, hne⟩
        · exact Or.inl hbest
        · exact Or.inr ⟨txs', List.mem_cons_of_mem _ hmem, hne⟩
      rw [scanBest] at h
      split at h
      next => exact hlater h
      next tx hhead =>
        obtain ⟨tip', -, h⟩ := Option.bind_eq_some_iff.mp h
        split at h
        next =>
          rcases hlater h with hbest | hmem
          · cases hbest
            refine Or.inr ⟨txs, List.mem_cons_self, ?_⟩
            rintro rfl
            cases hhead
          · exact Or.inr hmem
        next => exact hlater h

omit [Evm] [BlockHashing] in
/-- The best sender has a transaction. -/
theorem queue_bestSender_ne {pool : Mempool} {sender : Address}
    (h : pool.bestSender = some (some sender)) : pool.queue true sender ≠ [] := by
  rcases scanBest_mem h with hbest | ⟨txs, hmem, hne⟩
  · cases hbest
  · have hlookup : pool.pendingTransactions.lookup sender = some txs := DashMap.mem_entries.mp hmem
    unfold queue queues
    rw [hlookup]
    exact hne

omit [Evm] in
theorem popLoop_pops (n : Nat) (pool : Mempool) (result : List Transaction) :
    Relation.ReflTransGen Pops pool (popLoop n pool result).1 := by
  induction n generalizing pool result with
  | zero => exact .refl
  | succ n ih =>
      rw [popLoop]
      split
      · exact .refl
      · exact .refl
      next sender hbest =>
        split
        next hempty => exact absurd hempty (queue_bestSender_ne hbest)
        next tx rest hqueue => exact .head ⟨sender, tx, rest, hqueue, rfl⟩ (ih _ _)

omit [Evm] in
theorem Pops.shrinks {pool pool' : Mempool} (h : Pops pool pool') : pool.Shrinks pool' := by
  obtain ⟨sender, tx, rest, hqueue, rfl⟩ := h
  intro other at'
  rw [queue_shrinkQueue]
  split
  next hat =>
    rw [hat.1, hat.2, hqueue]
    exact List.sublist_cons_self tx rest
  next =>
    rw [queue_cleanUp]

theorem Ordered.popped {pool pool' : Mempool} (h : pool.Ordered)
    (hpops : Relation.ReflTransGen Pops pool pool') : pool'.Ordered := by
  induction hpops with
  | refl => exact h
  | tail _ hpops ih => exact ih.shrink hpops.shrinks

/-! ## Admission -/

/-- What becomes of a transaction that is put in a queue. -/
inductive Places (pool : Mempool) (address : Address) (tx : Transaction) (isPending : Bool) :
    Mempool × Bool → Prop
  | refused {old : Transaction} (hold : old ∈ pool.queue isPending address)
      (hnonce : old.nonce = tx.nonce) (hprice : ¬ minReplacementPrice old ≤ tx.gasPrice.getD 0) :
      Places pool address tx isPending (pool, false)
  | replaced {before after : List Transaction} {old : Transaction}
      (hqueue : pool.queue isPending address = before ++ old :: after)
      (hnonce : old.nonce = tx.nonce) (hprice : minReplacementPrice old ≤ tx.gasPrice.getD 0) :
      Places pool address tx isPending
        ((pool.cleanUp old).setQueue isPending address (before ++ tx :: after), true)
  | inserted {before after : List Transaction}
      (hqueue : pool.queue isPending address = before ++ after) (hfits : Fits before tx after) :
      Places pool address tx isPending
        (if isPending then
          (pool.setQueue isPending address (before ++ tx :: after)).promoteQueued address
            (nextNonce tx.nonce)
        else pool.setQueue isPending address (before ++ tx :: after), true)

omit [Evm] in
theorem place_places {pool : Mempool} {address : Address} {isPending : Bool} (tx : Transaction)
    (hincreasing : Increasing Transaction.nonce (pool.queue isPending address)) :
    Places pool address tx isPending (pool.place address tx isPending) := by
  unfold place
  dsimp only
  cases hsearch : binarySearchByKey Transaction.nonce (pool.queue isPending address) tx.nonce with
  | ok pos =>
      obtain ⟨before, old, after, hqueue, rfl, hnonce⟩ := exists_of_binarySearchByKey_ok hsearch
      have hget : (pool.queue isPending address)[before.length]? = some old := by
        rw [hqueue, List.getElem?_append_right (Nat.le_refl _), Nat.sub_self]
        rfl
      dsimp only
      rw [hget]
      dsimp only
      rw [if_pos hnonce]
      split
      next hprice =>
        rw [hqueue, List.set_append_right _ _ (Nat.le_refl _), Nat.sub_self, List.set_cons_zero]
        exact .replaced hqueue hnonce hprice
      next hprice =>
        have hmem : old ∈ pool.queue isPending address := by
          rw [hqueue]
          exact List.mem_append_right _ List.mem_cons_self
        exact .refused hmem hnonce hprice
  | error pos =>
      obtain ⟨before, after, hqueue, rfl, hlow, hhigh⟩ :=
        exists_of_binarySearchByKey_error hincreasing hsearch
      have hinsert : Places pool address tx isPending
          (place.insertAt pool address tx isPending before.length) := by
        unfold place.insertAt
        rw [hqueue, insertIdx_append]
        have hplaces := Places.inserted hqueue ⟨hlow, hhigh⟩
        cases isPending <;> exact hplaces
      dsimp only
      split
      next old hget =>
        have hmem : old ∈ after := by
          rw [hqueue, List.getElem?_append_right (Nat.le_refl _)] at hget
          exact List.mem_of_getElem? hget
        rw [if_neg (hhigh old hmem).ne']
        exact hinsert
      next => exact hinsert

omit [BlockHashing] in
/-- A transaction may stand in its sender's queue, at its place. -/
theorem Ordered.setTaken {pool : Mempool} (h : pool.Ordered) {isPending : Bool} {tx : Transaction}
    {before after : List Transaction}
    (hfiled : ∀ other, other ∈ before ∨ other ∈ after → senderOf other = senderOf tx)
    (hincreasing : Increasing Transaction.nonce (before ++ tx :: after)) :
    (pool.setQueue isPending (senderOf tx) (before ++ tx :: after)).Ordered := by
  refine h.setQueue hincreasing ?_
  intro other hmem
  rcases List.mem_append.mp hmem with hmem | hmem
  · exact hfiled other (Or.inl hmem)
  · rcases List.mem_cons.mp hmem with rfl | hmem
    · rfl
    · exact hfiled other (Or.inr hmem)

omit [BlockHashing] in
theorem Ordered.insert {pool : Mempool} (h : pool.Ordered) {isPending : Bool} {tx : Transaction}
    {before after : List Transaction}
    (hqueue : pool.queue isPending (senderOf tx) = before ++ after) (hfits : Fits before tx after) :
    (pool.setQueue isPending (senderOf tx) (before ++ tx :: after)).Ordered := by
  have hincreasing := h.increasing isPending (senderOf tx)
  have hfiled := h.filed isPending (senderOf tx)
  rw [hqueue] at hincreasing hfiled
  exact h.setTaken (fun other hmem => hfiled other (List.mem_append.mpr hmem))
    (hfits.increasing hincreasing)

theorem Ordered.replace {pool : Mempool} (h : pool.Ordered) {isPending : Bool}
    {tx old : Transaction} {before after : List Transaction}
    (hqueue : pool.queue isPending (senderOf tx) = before ++ old :: after)
    (hnonce : old.nonce = tx.nonce) :
    ((pool.cleanUp old).setQueue isPending (senderOf tx) (before ++ tx :: after)).Ordered := by
  have hincreasing := h.increasing isPending (senderOf tx)
  have hfiled := h.filed isPending (senderOf tx)
  rw [hqueue] at hincreasing hfiled
  have hfits := fits_of_increasing hincreasing
  refine Ordered.setTaken (h.congr (queue_cleanUp pool · · old)) ?_ ?_
  · rintro other (hmem | hmem)
    · exact hfiled other (List.mem_append_left _ hmem)
    · exact hfiled other (List.mem_append_right _ (List.mem_cons_of_mem _ hmem))
  · refine Fits.increasing ⟨?_, ?_⟩ (hincreasing.sublist
      ((List.Sublist.refl before).append (List.sublist_cons_self old after)))
    · exact fun other hmem => hnonce ▸ hfits.low other hmem
    · exact fun other hmem => hnonce ▸ hfits.high other hmem

theorem Ordered.places {pool : Mempool} {tx : Transaction} {isPending : Bool}
    {placed : Mempool × Bool} (h : pool.Ordered)
    (hplaces : Places pool (senderOf tx) tx isPending placed) : placed.1.Ordered := by
  cases hplaces with
  | refused => exact h
  | replaced hqueue hnonce => exact h.replace hqueue hnonce
  | inserted hqueue hfits =>
      have hinserted := h.insert hqueue hfits
      dsimp only
      split
      · exact hinserted.promoteQueued _ _
      · exact hinserted

omit [Evm] [BlockHashing] in
theorem evictSometimes_evicts (pool : Mempool) (roll : UInt8) :
    Relation.ReflTransGen Evicts pool (pool.evictSometimes roll).1 := by
  unfold evictSometimes
  split
  · exact evictLoop_evicts _ _ _
  · exact .refl

theorem Ordered.addTransaction {pool : Mempool} (h : pool.Ordered) (tx : Transaction)
    (currentNonce : Nat) (roll : UInt8) : (pool.addTransaction tx currentNonce roll).1.Ordered := by
  unfold Mempool.addTransaction insertIntoQueue
  have hevicted := h.evicted (evictSometimes_evicts pool roll)
  split
  · exact h
  · dsimp only
    split
    next heq => rwa [heq] at hevicted
    next heq =>
      rw [heq] at hevicted
      exact hevicted.places (place_places tx (hevicted.increasing _ _))

/-! ## Whole runs -/

theorem Ordered.removeTransactions {pool : Mempool} (h : pool.Ordered) (hashes : List B256) :
    (pool.removeTransactions hashes).Ordered :=
  h.shrink fun isPending address => by
    rw [queue_removeTransactions]
    exact List.filter_sublist

omit [BlockHashing] in
theorem Ordered.promoteAddresses {pool : Mempool} (h : pool.Ordered) (accounts : Accounts)
    (addresses : List Address) : (addresses.foldl (promoteAddress accounts) pool).Ordered := by
  induction addresses generalizing pool with
  | nil => exact h
  | cons address addresses ih => exact ih (h.promoteQueued address _)

theorem Ordered.revalidate {pool : Mempool} (h : pool.Ordered) (accounts : Accounts)
    (addresses : Option (List Address)) : (pool.revalidate accounts addresses).1.Ordered := by
  unfold Mempool.revalidate
  dsimp only
  split
  next => exact h
  next toRemove _ =>
    refine Ordered.promoteAddresses ?_ accounts _
    split
    · exact h
    · exact h.removeTransactions toRemove

/-- A submission that passes its checks adds the transaction at the nonce of the
state. -/
theorem submit_fst (storage : ReadStorage) (pool : Mempool) (tx : Transaction) (isLocal : Bool)
    (roll : UInt8) : (submitTransactionWithSource storage pool tx isLocal roll).1 =
      match checkSubmission storage tx with
      | .error _ => pool
      | .ok () =>
          (pool.addTransaction tx ((storage.transactionCount (senderOf tx)).getD 0) roll).1 := by
  unfold submitTransactionWithSource
  cases checkSubmission storage tx with
  | error e => rfl
  | ok _ =>
      dsimp only
      split
      next => rfl
      next => rfl
      next =>
        split
        · split <;> rfl
        · rfl

theorem Ordered.submit {pool : Mempool} (h : pool.Ordered) (storage : ReadStorage)
    (tx : Transaction) (isLocal : Bool) (roll : UInt8) :
    (submitTransactionWithSource storage pool tx isLocal roll).1.Ordered := by
  rw [submit_fst]
  split
  · exact h
  · exact h.addTransaction tx _ roll

theorem Ordered.apply {pool : Mempool} (h : pool.Ordered) (op : MempoolOp) :
    (pool.apply op).Ordered := by
  cases op with
  | addTransaction tx currentNonce roll => exact h.addTransaction tx currentNonce roll
  | promoteQueued address nonce => exact h.promoteQueued address nonce
  | removeTransactions hashes => exact h.removeTransactions hashes
  | popTransactions n => exact h.popped (popLoop_pops n pool [])
  | enforceCapacity maxSize => exact h.evicted (evictLoop_evicts maxSize pool.len pool)
  | updateBaseFee newBaseFee accounts =>
      have hfee : ({ pool with baseFee := newBaseFee } : Mempool).Ordered := ⟨h.increasing, h.filed⟩
      unfold Mempool.apply updateBaseFee
      dsimp only
      split
      · exact hfee.revalidate accounts none
      · exact hfee
  | revalidate accounts addresses => exact h.revalidate accounts addresses
  | clear =>
      refine h.shrink fun isPending address => ?_
      rw [Mempool.apply, queue_clear]
      exact List.nil_sublist _
  | importPooled storage pooled data isLocal roll =>
      have hstore : (pool.store pooled data).Ordered := ⟨h.increasing, h.filed⟩
      exact hstore.submit storage pooled.tx isLocal roll
  | submit storage tx isLocal roll => exact h.submit storage tx isLocal roll

theorem Reachable.ordered {pool : Mempool} (h : pool.Reachable) : pool.Ordered := by
  induction h with
  | new baseFee =>
      have hempty : ∀ isPending address, (Mempool.new baseFee).queue isPending address = [] := by
        intro isPending address
        cases isPending <;> rfl
      constructor
      · intro isPending address
        rw [hempty]
        exact List.Pairwise.nil
      · intro isPending address tx hmem
        rw [hempty] at hmem
        cases hmem
  | apply op _ ih => exact ih.apply op
  | rehash hrehashed _ ih => exact ih.congr hrehashed.sameQueues

end Mempool

end WasixEth
