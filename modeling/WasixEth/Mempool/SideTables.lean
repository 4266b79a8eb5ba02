import WasixEth.Mempool.Admission

/-! # The tables beside the queues

Envelopes, bytes and blobs are stored before a transaction is admitted, and they
go with some of the ways in which a transaction leaves. The tables match the
queues as long as what leaves another way has nothing stored, and what leaves with
its blobs shares none with a transaction that stays.
-/

namespace WasixEth

open Search Mempool

/-- A sidecar with a blob, a commitment and a proof for every hash. -/
def TxPooledEnvelope.Complete (pooled : TxPooledEnvelope) : Prop :=
  ∃ sidecar, pooled.sidecar = some sidecar ∧
    pooled.tx.blobVersionedHashes.length ≤ sidecar.blobs.length ∧
    pooled.tx.blobVersionedHashes.length ≤ sidecar.commitments.length ∧
    pooled.tx.blobVersionedHashes.length ≤ sidecar.proofs.length

namespace Mempool

def Pooled (pool : Mempool) (tx : Transaction) : Prop :=
  ∃ isPending address, tx ∈ pool.queue isPending address

section

variable [BlockHashing]

/-- The tables belong to the transactions that are `present`, and those that need
them have all their blobs. -/
structure Holds (pool : Mempool) (present needs : Transaction → Prop) : Prop where
  envelopes : ∀ hash, (pool.pooledEnvelopes.get hash).isSome →
    ∃ tx, present tx ∧ txHash tx = hash
  bytes : ∀ hash, (pool.pooledBytes.get hash).isSome → ∃ tx, present tx ∧ txHash tx = hash
  blobs : ∀ hash, (pool.blobs.get hash).isSome →
    ∃ tx, present tx ∧ tx.isEip4844 ∧ hash ∈ tx.blobVersionedHashes
  kept : ∀ tx, needs tx → ∀ hash ∈ tx.blobVersionedHashes, (pool.blobs.get hash).isSome

/-- The tables match the queues. `full` are the transactions that were imported
with a full sidecar and have stayed since. -/
def TablesMatch (pool : Mempool) (full : Transaction → Prop) : Prop :=
  pool.Holds pool.Pooled fun tx => full tx ∧ pool.Pooled tx

/-- What is stored for a transaction that has left belongs to one that is there. -/
structure LeavesNothing (pool : Mempool) (gone : Transaction) : Prop where
  envelopes : (pool.pooledEnvelopes.get (txHash gone)).isSome →
    ∃ tx, pool.Pooled tx ∧ txHash tx = txHash gone
  bytes : (pool.pooledBytes.get (txHash gone)).isSome →
    ∃ tx, pool.Pooled tx ∧ txHash tx = txHash gone
  blobs : ∀ hash ∈ gone.blobVersionedHashes, (pool.blobs.get hash).isSome →
    ∃ tx, pool.Pooled tx ∧ tx.isEip4844 ∧ hash ∈ tx.blobVersionedHashes

/-- A transaction that has left shares no blob with one that needs its own. -/
def Spares (pool : Mempool) (full : Transaction → Prop) (gone : Transaction) : Prop :=
  ∀ tx, pool.Pooled tx → full tx → ∀ hash ∈ tx.blobVersionedHashes,
    hash ∉ gone.blobVersionedHashes

/-! ## Leaving -/

omit [BlockHashing] in
theorem isEip4844_of_mem {tx : Transaction} {hash : B256} (h : hash ∈ tx.blobVersionedHashes) :
    tx.isEip4844 = true := by
  unfold Transaction.blobVersionedHashes at h
  unfold Transaction.isEip4844
  cases hkind : tx.kind with
  | eip4844 => rfl
  | _ =>
      rw [hkind] at h
      cases h

theorem get_blobs_cleanUp (pool : Mempool) (gone : Transaction) (hash : B256) :
    (pool.cleanUp gone).blobs.get hash =
      if hash ∈ gone.blobVersionedHashes then none else pool.blobs.get hash := by
  unfold cleanUp
  dsimp only
  split
  next => simp only [Table.get_eraseWhere, decide_eq_true_eq]
  next hkind =>
    rw [if_neg]
    exact fun hmem => hkind (isEip4844_of_mem hmem)

/-- A transaction leaves with what is stored for it. -/
theorem Holds.cleanUp {pool : Mempool} {present present' needs needs' : Transaction → Prop}
    {gone : Transaction} (h : pool.Holds present needs)
    (hgone : ∀ tx, present tx → present' tx ∨ tx = gone) (hneeds : ∀ tx, needs' tx → needs tx)
    (hspares : ∀ tx, needs' tx → ∀ hash ∈ tx.blobVersionedHashes,
      hash ∉ gone.blobVersionedHashes) : (pool.cleanUp gone).Holds present' needs' := by
  have hkey : ∀ {V : Type} (table : Table B256 V) {hash : B256},
      ((table.erase (txHash gone)).get hash).isSome →
      (∀ hash, (table.get hash).isSome → ∃ tx, present tx ∧ txHash tx = hash) →
      ∃ tx, present' tx ∧ txHash tx = hash := by
    intro V table hash hsome hbefore
    rw [Table.get_erase] at hsome
    split at hsome
    next => cases hsome
    next hne =>
      obtain ⟨tx, htx, rfl⟩ := hbefore hash hsome
      rcases hgone tx htx with htx | rfl
      · exact ⟨tx, htx, rfl⟩
      · exact absurd rfl hne
  constructor
  · exact fun hash hsome => hkey pool.pooledEnvelopes hsome h.envelopes
  · exact fun hash hsome => hkey pool.pooledBytes hsome h.bytes
  · intro hash hsome
    rw [get_blobs_cleanUp] at hsome
    split at hsome
    next => cases hsome
    next hnot =>
      obtain ⟨tx, htx, hkind, hmem⟩ := h.blobs hash hsome
      rcases hgone tx htx with htx | rfl
      · exact ⟨tx, htx, hkind, hmem⟩
      · exact absurd hmem hnot
  · intro tx htx hash hmem
    rw [get_blobs_cleanUp, if_neg (hspares tx htx hash hmem)]
    exact h.kept tx (hneeds tx htx) hash hmem

/-- A transaction leaves and nothing is cleaned up. -/
theorem Holds.leave {pool : Mempool} {present present' needs needs' : Transaction → Prop}
    {gone : Transaction} (h : pool.Holds present needs)
    (hgone : ∀ tx, present tx → present' tx ∨ tx = gone) (hneeds : ∀ tx, needs' tx → needs tx)
    (hnothing : pool.LeavesNothing gone) (hpresent : ∀ tx, pool.Pooled tx → present' tx) :
    pool.Holds present' needs' := by
  constructor
  · intro hash hsome
    obtain ⟨tx, htx, rfl⟩ := h.envelopes hash hsome
    rcases hgone tx htx with htx | rfl
    · exact ⟨tx, htx, rfl⟩
    · obtain ⟨other, hother, heq⟩ := hnothing.envelopes hsome
      exact ⟨other, hpresent other hother, heq⟩
  · intro hash hsome
    obtain ⟨tx, htx, rfl⟩ := h.bytes hash hsome
    rcases hgone tx htx with htx | rfl
    · exact ⟨tx, htx, rfl⟩
    · obtain ⟨other, hother, heq⟩ := hnothing.bytes hsome
      exact ⟨other, hpresent other hother, heq⟩
  · intro hash hsome
    obtain ⟨tx, htx, hkind, hmem⟩ := h.blobs hash hsome
    rcases hgone tx htx with htx | rfl
    · exact ⟨tx, htx, hkind, hmem⟩
    · obtain ⟨other, hother, hkind, hmem⟩ := hnothing.blobs hash hmem hsome
      exact ⟨other, hpresent other hother, hkind, hmem⟩
  · exact fun tx htx => h.kept tx (hneeds tx htx)

omit [BlockHashing] in
/-- A transaction that leaves a queue is the only one that can leave the pool. -/
theorem pooled_of_queue {pool pool' : Mempool} {isPending : Bool} {address : Address}
    {before after : List Transaction} {gone : Transaction}
    (hqueue : pool.queue isPending address = before ++ gone :: after)
    (hqueues : ∀ other at', pool'.queue other at' =
      if other = isPending ∧ at' = address then before ++ after else pool.queue other at') :
    (∀ tx, pool'.Pooled tx → pool.Pooled tx) ∧
      ∀ tx, pool.Pooled tx → pool'.Pooled tx ∨ tx = gone := by
  constructor
  · rintro tx ⟨other, at', hmem⟩
    rw [hqueues] at hmem
    split at hmem
    next =>
      refine ⟨isPending, address, ?_⟩
      rw [hqueue, List.perm_middle.mem_iff]
      exact List.mem_cons_of_mem _ hmem
    next => exact ⟨other, at', hmem⟩
  · rintro tx ⟨other, at', hmem⟩
    by_cases hat : other = isPending ∧ at' = address
    · rw [hat.1, hat.2, hqueue, List.perm_middle.mem_iff] at hmem
      rcases List.mem_cons.mp hmem with heq | hmem
      · exact Or.inr heq
      · refine Or.inl ⟨isPending, address, ?_⟩
        rw [hqueues, if_pos ⟨rfl, rfl⟩]
        exact hmem
    · refine Or.inl ⟨other, at', ?_⟩
      rw [hqueues, if_neg hat]
      exact hmem

omit [BlockHashing] in
theorem SameQueues.pooled_iff {pool pool' : Mempool} (h : pool.SameQueues pool')
    (tx : Transaction) : pool'.Pooled tx ↔ pool.Pooled tx := by
  unfold Pooled
  simp only [h _ _]

/-- Pools with the same tables. -/
structure SameTables (pool pool' : Mempool) : Prop where
  envelopes : pool'.pooledEnvelopes = pool.pooledEnvelopes
  bytes : pool'.pooledBytes = pool.pooledBytes
  blobs : pool'.blobs = pool.blobs

omit [BlockHashing] in
theorem sameTables_withQueues (pool : Mempool) (isPending : Bool) (queues : Queues) :
    pool.SameTables (pool.withQueues isPending queues) := by
  cases isPending <;> exact ⟨rfl, rfl, rfl⟩

omit [BlockHashing] in
theorem sameTables_shrinkQueue (pool : Mempool) (isPending : Bool) (address : Address)
    (txs : List Transaction) : pool.SameTables (pool.shrinkQueue isPending address txs) := by
  unfold shrinkQueue
  split
  · exact sameTables_withQueues _ _ _
  · exact sameTables_withQueues _ _ _

omit [BlockHashing] in
theorem SameTables.trans {pool pool' pool'' : Mempool} (h : pool.SameTables pool')
    (h' : pool'.SameTables pool'') : pool.SameTables pool'' :=
  ⟨h'.envelopes.trans h.envelopes, h'.bytes.trans h.bytes, h'.blobs.trans h.blobs⟩

theorem Holds.congr {pool pool' : Mempool} {present needs : Transaction → Prop}
    (h : pool.Holds present needs) (hsame : pool.SameTables pool') :
    pool'.Holds present needs := by
  obtain ⟨henvelopes, hbytes, hblobs⟩ := hsame
  constructor
  · rw [henvelopes]
    exact h.envelopes
  · rw [hbytes]
    exact h.bytes
  · rw [hblobs]
    exact h.blobs
  · rw [hblobs]
    exact h.kept

theorem Holds.mono {pool : Mempool} {present present' needs needs' : Transaction → Prop}
    (h : pool.Holds present needs) (hpresent : ∀ tx, present tx → present' tx)
    (hneeds : ∀ tx, needs' tx → needs tx) : pool.Holds present' needs' := by
  constructor
  · intro hash hsome
    obtain ⟨tx, htx, heq⟩ := h.envelopes hash hsome
    exact ⟨tx, hpresent tx htx, heq⟩
  · intro hash hsome
    obtain ⟨tx, htx, heq⟩ := h.bytes hash hsome
    exact ⟨tx, hpresent tx htx, heq⟩
  · intro hash hsome
    obtain ⟨tx, htx, hmem⟩ := h.blobs hash hsome
    exact ⟨tx, hpresent tx htx, hmem⟩
  · exact fun tx htx => h.kept tx (hneeds tx htx)

/-! ## The pool and a transaction on its way -/

/-- A transaction that is about to enter, and whether its data is stored. -/
structure Incoming where
  enters : Transaction → Prop
  stored : Transaction → Prop

/-- A transaction of which nothing is stored. -/
def Incoming.bare (tx : Transaction) : Incoming := ⟨(· = tx), fun _ => False⟩

def Incoming.none : Incoming := ⟨fun _ => False, fun _ => False⟩

/-- The tables match the queues and a transaction that is about to enter. -/
def Expects (pool : Mempool) (incoming : Incoming) (full : Transaction → Prop) : Prop :=
  pool.Holds (fun tx => pool.Pooled tx ∨ incoming.stored tx)
    fun tx => full tx ∧ (pool.Pooled tx ∨ incoming.enters tx)

theorem TablesMatch.expects {pool : Mempool} {full : Transaction → Prop}
    (h : pool.TablesMatch full) : pool.Expects .none full :=
  h.mono (fun _ => Or.inl) fun _ ⟨hfull, hpooled⟩ => ⟨hfull, hpooled.resolve_right id⟩

theorem TablesMatch.expects_bare {pool : Mempool} {full : Transaction → Prop}
    (h : pool.TablesMatch full) (hfull : ∀ tx, full tx → pool.Pooled tx) (tx : Transaction) :
    pool.Expects (.bare tx) full :=
  h.mono (fun _ => Or.inl) fun other ⟨hother, _⟩ => ⟨hother, hfull other hother⟩

/-- What is stored belongs to the pool in the end. -/
theorem Expects.match_tables {pool : Mempool} {incoming : Incoming} {full : Transaction → Prop}
    (h : pool.Expects incoming full) (hstored : ∀ tx, incoming.stored tx → pool.Pooled tx) :
    pool.TablesMatch full :=
  h.mono (fun tx => Or.rec id (hstored tx)) fun _ ⟨hfull, hpooled⟩ => ⟨hfull, Or.inl hpooled⟩

theorem Expects.congr {pool pool' : Mempool} {incoming : Incoming} {full : Transaction → Prop}
    (h : pool.Expects incoming full) (hqueues : ∀ tx, pool'.Pooled tx ↔ pool.Pooled tx)
    (htables : pool.SameTables pool') : pool'.Expects incoming full := by
  refine Holds.mono (Holds.congr h htables) ?_ ?_
  · intro tx htx
    rwa [hqueues tx]
  · intro tx htx
    rwa [hqueues tx] at htx

/-- A transaction leaves without a clean-up. -/
theorem Expects.leave {pool pool' : Mempool} {incoming : Incoming} {full : Transaction → Prop}
    {gone : Transaction} (h : pool.Expects incoming full) (htables : pool.SameTables pool')
    (hless : ∀ tx, pool'.Pooled tx → pool.Pooled tx)
    (hgone : ∀ tx, pool.Pooled tx → pool'.Pooled tx ∨ tx = gone)
    (hnothing : pool'.LeavesNothing gone) : pool'.Expects incoming full := by
  refine (Holds.congr h htables).leave ?_ ?_ hnothing fun tx => Or.inl
  · rintro tx (htx | htx)
    · rcases hgone tx htx with htx | heq
      · exact Or.inl (Or.inl htx)
      · exact Or.inr heq
    · exact Or.inl (Or.inr htx)
  · exact fun tx ⟨hfull, htx⟩ => ⟨hfull, htx.imp_left (hless tx)⟩

/-! ## Ways to leave without a clean-up -/

/-- In every round of an eviction nothing is left behind. -/
def EvictsKeep (maxSize : Nat) : Nat → Mempool → Prop
  | 0, _ => True
  | fuel + 1, pool => maxSize < pool.len → ∀ tip address isPending,
      pool.worstSender = some (tip, some (address, isPending)) →
        (∀ tx ∈ (pool.queue isPending address).getLast?,
          (pool.evictBack isPending address).LeavesNothing tx) ∧
        EvictsKeep maxSize fuel (pool.evictBack isPending address)

theorem Expects.evictBack {pool : Mempool} {incoming : Incoming} {full : Transaction → Prop}
    (h : pool.Expects incoming full) {isPending : Bool} {address : Address}
    (hnothing : ∀ tx ∈ (pool.queue isPending address).getLast?,
      (pool.evictBack isPending address).LeavesNothing tx) :
    (pool.evictBack isPending address).Expects incoming full := by
  have htables := sameTables_shrinkQueue pool isPending address
    (pool.queue isPending address).dropLast
  cases hlast : (pool.queue isPending address).getLast? with
  | none =>
      have hempty := List.getLast?_eq_none_iff.mp hlast
      refine h.congr (SameQueues.pooled_iff ?_) htables
      intro other at'
      rw [queue_evictBack]
      split
      next hat => rw [hat.1, hat.2, hempty, List.dropLast_nil]
      next => rfl
  | some tx =>
      obtain ⟨before, hqueue⟩ := List.getLast?_eq_some_iff.mp hlast
      have hqueues : ∀ other at', (pool.evictBack isPending address).queue other at' =
          if other = isPending ∧ at' = address then before ++ [] else pool.queue other at' := by
        intro other at'
        rw [queue_evictBack, hqueue, List.dropLast_concat, List.append_nil]
      obtain ⟨hless, hgone⟩ := pooled_of_queue hqueue hqueues
      exact h.leave htables hless hgone (hnothing tx hlast)

theorem Expects.evictLoop {maxSize fuel : Nat} {pool : Mempool} {incoming : Incoming}
    {full : Transaction → Prop}
    (h : pool.Expects incoming full) (hkeep : EvictsKeep maxSize fuel pool) :
    (evictLoop maxSize fuel pool).1.Expects incoming full := by
  induction fuel generalizing pool with
  | zero => exact h
  | succ fuel ih =>
      rw [Mempool.evictLoop]
      split
      next => exact h
      next hlen =>
        split
        next => exact h
        next => exact h
        next tip address isPending hworst =>
          obtain ⟨hnothing, hrest⟩ :=
            hkeep (Nat.lt_of_not_le hlen) tip address isPending hworst
          exact ih (h.evictBack hnothing) hrest

/-- In every round of a promotion nothing is left behind by a transaction whose
nonce is pending already. -/
def PromotesKeep (address : Address) : Nat → Mempool → Nat → Prop
  | 0, _, _ => True
  | fuel + 1, pool, nonce =>
      (∀ before tx after, pool.queue false address = before ++ tx :: after → tx.nonce = nonce →
        (∃ twin ∈ pool.queue true address, twin.nonce = nonce) →
        (pool.setQueue false address (before ++ after)).LeavesNothing tx) ∧
      ∀ pool', Promotes address nonce pool pool' →
        PromotesKeep address fuel pool' (nextNonce nonce)

omit [BlockHashing] in
/-- A transaction that only changes the queue stays in the pool. -/
theorem pooled_move {pool : Mempool} {address : Address}
    {before after low high : List Transaction} {tx : Transaction}
    (hqueued : pool.queue false address = before ++ tx :: after)
    (hpending : pool.queue true address = low ++ high) (other : Transaction) :
    ((pool.setQueue false address (before ++ after)).setQueue true address
      (low ++ tx :: high)).Pooled other ↔ pool.Pooled other := by
  constructor
  · rintro ⟨isPending, at', hmem⟩
    rw [queue_setQueue, queue_setQueue] at hmem
    split at hmem
    next =>
      rcases List.mem_cons.mp (List.perm_middle.mem_iff.mp hmem) with rfl | hmem
      · exact ⟨false, address, hqueued ▸ List.mem_append_right _ List.mem_cons_self⟩
      · exact ⟨true, address, hpending ▸ hmem⟩
    next =>
      split at hmem
      next =>
        refine ⟨false, address, ?_⟩
        rw [hqueued, List.perm_middle.mem_iff]
        exact List.mem_cons_of_mem _ hmem
      next => exact ⟨isPending, at', hmem⟩
  · rintro ⟨isPending, at', hmem⟩
    by_cases hat : at' = address
    · subst hat
      cases isPending with
      | true =>
          refine ⟨true, at', ?_⟩
          rw [queue_setQueue, if_pos ⟨rfl, rfl⟩, List.perm_middle.mem_iff]
          exact List.mem_cons_of_mem _ (hpending ▸ hmem)
      | false =>
          rw [hqueued, List.perm_middle.mem_iff] at hmem
          rcases List.mem_cons.mp hmem with rfl | hmem
          · refine ⟨true, at', ?_⟩
            rw [queue_setQueue, if_pos ⟨rfl, rfl⟩]
            exact List.mem_append_right _ List.mem_cons_self
          · refine ⟨false, at', ?_⟩
            rw [queue_setQueue, if_neg fun h => Bool.noConfusion h.1, queue_setQueue,
              if_pos ⟨rfl, rfl⟩]
            exact hmem
    · refine ⟨isPending, at', ?_⟩
      rw [queue_setQueue, if_neg fun h => hat h.2, queue_setQueue, if_neg fun h => hat h.2]
      exact hmem

theorem Expects.promoteLoop [Evm] {fuel nonce : Nat} {address : Address} {pool : Mempool}
    {incoming : Incoming} {full : Transaction → Prop} (h : pool.Expects incoming full)
    (hordered : pool.Ordered)
    (hkeep : PromotesKeep address fuel pool nonce) :
    (promoteLoop address fuel pool nonce).Expects incoming full := by
  induction fuel generalizing pool nonce with
  | zero => exact h
  | succ fuel ih =>
      obtain ⟨hdrops, hrest⟩ := hkeep
      rcases promoteLoop_cases (hordered.increasing false address)
          (hordered.increasing true address) with ⟨heq, -⟩ | ⟨pool', hpromotes, heq⟩
      · rw [heq]
        exact h
      · rw [heq]
        refine ih ?_ (hordered.promote hpromotes) (hrest pool' hpromotes)
        cases hpromotes with
        | move hqueued hnonce hpending hfits =>
            exact h.congr (pooled_move hqueued hpending)
              ((sameTables_withQueues _ _ _).trans (sameTables_withQueues _ _ _))
        | drop hqueued hnonce htwin hsame =>
            obtain ⟨hless, hgone⟩ := pooled_of_queue hqueued fun other at' =>
              queue_setQueue pool false other address at' _
            exact h.leave (sameTables_withQueues _ _ _) hless hgone
              (hdrops _ _ _ hqueued hnonce ⟨_, htwin, hsame⟩)

omit [BlockHashing] in
theorem promoteQueued_sameTables (pool : Mempool) (address : Address) (nonce : Nat) :
    (Mempool.promoteLoop address (pool.queue false address).length pool nonce).SameTables
      (pool.promoteQueued address nonce) := by
  unfold promoteQueued
  dsimp only
  split
  · exact sameTables_withQueues _ _ _
  · exact ⟨rfl, rfl, rfl⟩

theorem Expects.promoteQueued [Evm] {nonce : Nat} {address : Address} {pool : Mempool}
    {incoming : Incoming} {full : Transaction → Prop} (h : pool.Expects incoming full)
    (hordered : pool.Ordered)
    (hkeep : PromotesKeep address (pool.queue false address).length pool nonce) :
    (pool.promoteQueued address nonce).Expects incoming full :=
  (h.promoteLoop hordered hkeep).congr
    (SameQueues.pooled_iff (promoteQueued_sameQueues pool address nonce))
    (promoteQueued_sameTables pool address nonce)

/-! ## Admission -/

variable [Evm]

/-- A replacement spares the blobs of others, and a promotion leaves nothing. -/
structure PlaceKeeps (pool : Mempool) (tx : Transaction) (isPending : Bool)
    (full : Transaction → Prop) : Prop where
  spares : ∀ before old after,
    pool.queue isPending (senderOf tx) = before ++ old :: after → old.nonce = tx.nonce →
    minReplacementPrice old ≤ tx.gasPrice.getD 0 →
    (pool.setQueue isPending (senderOf tx) (before ++ tx :: after)).Spares full old
  promotes : isPending = true → ∀ before after,
    pool.queue true (senderOf tx) = before ++ after → Fits before tx after →
    PromotesKeep (senderOf tx) (pool.queue false (senderOf tx)).length
      (pool.setQueue true (senderOf tx) (before ++ tx :: after)) (nextNonce tx.nonce)

omit [Evm] [BlockHashing] in
theorem pooled_setQueue {pool : Mempool} {isPending : Bool} {address : Address}
    {txs : List Transaction} (other : Transaction) :
    (pool.setQueue isPending address txs).Pooled other ↔ other ∈ txs ∨
      ∃ kind at', ¬ (kind = isPending ∧ at' = address) ∧ other ∈ pool.queue kind at' := by
  constructor
  · rintro ⟨kind, at', hmem⟩
    rw [queue_setQueue] at hmem
    split at hmem
    next => exact Or.inl hmem
    next hat => exact Or.inr ⟨kind, at', hat, hmem⟩
  · rintro (hmem | ⟨kind, at', hat, hmem⟩)
    · refine ⟨isPending, address, ?_⟩
      rw [queue_setQueue, if_pos ⟨rfl, rfl⟩]
      exact hmem
    · refine ⟨kind, at', ?_⟩
      rw [queue_setQueue, if_neg hat]
      exact hmem

omit [Evm] [BlockHashing] in
theorem pooled_iff_queue {pool : Mempool} (isPending : Bool) (address : Address)
    (other : Transaction) : pool.Pooled other ↔ other ∈ pool.queue isPending address ∨
      ∃ kind at', ¬ (kind = isPending ∧ at' = address) ∧ other ∈ pool.queue kind at' := by
  constructor
  · rintro ⟨kind, at', hmem⟩
    by_cases hat : kind = isPending ∧ at' = address
    · rw [hat.1, hat.2] at hmem
      exact Or.inl hmem
    · exact Or.inr ⟨kind, at', hat, hmem⟩
  · rintro (hmem | ⟨kind, at', -, hmem⟩)
    · exact ⟨isPending, address, hmem⟩
    · exact ⟨kind, at', hmem⟩

omit [Evm] [BlockHashing] in
/-- Setting a queue with a transaction in it keeps what is pooled but for what stood
at its place. -/
theorem pooled_setQueue_cons {pool : Mempool} {isPending : Bool} {address : Address}
    {before gone after : List Transaction} {tx : Transaction}
    (hqueue : pool.queue isPending address = before ++ (gone ++ after)) {other : Transaction}
    (hother : pool.Pooled other) :
    (pool.setQueue isPending address (before ++ tx :: after)).Pooled other ∨ other ∈ gone := by
  rw [pooled_setQueue, List.perm_middle.mem_iff]
  rw [pooled_iff_queue isPending address, hqueue, List.mem_append, List.mem_append] at hother
  rcases hother with (hmem | hmem | hmem) | helsewhere
  · exact Or.inl (Or.inl (List.mem_cons_of_mem _ (List.mem_append_left _ hmem)))
  · exact Or.inr hmem
  · exact Or.inl (Or.inl (List.mem_cons_of_mem _ (List.mem_append_right _ hmem)))
  · exact Or.inl (Or.inr helsewhere)

omit [BlockHashing] [Evm] in
theorem mem_pending_of_promotions {queues queues' : SenderQueues}
    (h : Relation.ReflTransGen SenderQueues.Promotion queues queues') {tx : Transaction}
    (hmem : tx ∈ queues.pending) : tx ∈ queues'.pending := by
  induction h with
  | refl => exact hmem
  | tail _ hpromotion ih =>
      cases hpromotion with
      | move =>
          rw [List.perm_middle.mem_iff]
          exact List.mem_cons_of_mem _ ih
      | drop => exact ih

/-- What is put in a queue, or was in the pool, is in the pool. -/
theorem Places.pooled {pool : Mempool} {tx : Transaction} {isPending : Bool}
    {placed : Mempool × Bool} (hordered : pool.Ordered)
    (hplaces : Places pool (senderOf tx) tx isPending placed)
    (h : pool.Pooled tx ∨ ∀ old ∈ pool.queue isPending (senderOf tx), old.nonce = tx.nonce →
      minReplacementPrice old ≤ tx.gasPrice.getD 0) : placed.1.Pooled tx := by
  have hset : ∀ {pool : Mempool} {before after : List Transaction},
      (pool.setQueue isPending (senderOf tx) (before ++ tx :: after)).Pooled tx :=
    (pooled_setQueue tx).mpr (Or.inl (List.mem_append_right _ List.mem_cons_self))
  cases hplaces with
  | refused hold hnonce hrefused =>
      exact h.resolve_right fun hprice => hrefused (hprice _ hold hnonce)
  | replaced => exact hset
  | @inserted before after hqueue hfits =>
      cases isPending with
      | true =>
          have hpromotions := (promoteQueued_promotions (hordered.insert hqueue hfits)
            (senderOf tx) (nextNonce tx.nonce)).1
          rw [senderQueues_setQueue_true] at hpromotions
          exact ⟨true, senderOf tx, mem_pending_of_promotions hpromotions
            (List.mem_append_right _ List.mem_cons_self)⟩
      | false => exact hset

/-- A transaction takes the place of another, which is cleaned up. -/
theorem Expects.replace {pool : Mempool} {tx old : Transaction} {isPending : Bool}
    {before after : List Transaction} {incoming : Incoming} {full : Transaction → Prop}
    (h : pool.Expects incoming full) (hincoming : ∀ other, incoming.enters other ↔ other = tx)
    (hqueue : pool.queue isPending (senderOf tx) = before ++ old :: after)
    (hspares : (pool.setQueue isPending (senderOf tx) (before ++ tx :: after)).Spares full old) :
    ((pool.cleanUp old).setQueue isPending (senderOf tx) (before ++ tx :: after)).Expects
      incoming full := by
  obtain ⟨pool', hpool'⟩ : ∃ pool', pool' =
      pool.setQueue isPending (senderOf tx) (before ++ tx :: after) := ⟨_, rfl⟩
  rw [← hpool'] at hspares
  have hpooled : ∀ other, pool'.Pooled other → pool.Pooled other ∨ other = tx := by
    intro other hother
    rw [hpool', pooled_setQueue, List.perm_middle.mem_iff, List.mem_cons] at hother
    rw [pooled_iff_queue isPending (senderOf tx), hqueue, List.perm_middle.mem_iff]
    rcases hother with (heq | hmem) | helsewhere
    · exact Or.inr heq
    · exact Or.inl (Or.inl (List.mem_cons_of_mem _ hmem))
    · exact Or.inl (Or.inr helsewhere)
  have hgone : ∀ other, pool.Pooled other → pool'.Pooled other ∨ other = old := by
    intro other hother
    have hqueue' : pool.queue isPending (senderOf tx) = before ++ ([old] ++ after) := hqueue
    rw [hpool']
    exact (pooled_setQueue_cons hqueue' hother).imp_right List.mem_singleton.mp
  have hcleaned : (pool.cleanUp old).Holds
      (fun other => pool'.Pooled other ∨ incoming.stored other)
      fun other => full other ∧ (pool'.Pooled other ∨ incoming.enters other) := by
    refine Holds.cleanUp h ?_ ?_ ?_
    · rintro other (hother | hother)
      · exact (hgone other hother).imp_left Or.inl
      · exact Or.inl (Or.inr hother)
    · rintro other ⟨hfull, hother | hother⟩
      · refine ⟨hfull, (hpooled other hother).imp_right ?_⟩
        exact (hincoming other).mpr
      · exact ⟨hfull, Or.inr hother⟩
    · rintro other ⟨hfull, hother | hother⟩
      · exact hspares other hother hfull
      · refine hspares other ?_ hfull
        rw [(hincoming other).mp hother, hpool', pooled_setQueue]
        exact Or.inl (List.mem_append_right _ List.mem_cons_self)
  have hqueues : pool'.SameQueues
      ((pool.cleanUp old).setQueue isPending (senderOf tx) (before ++ tx :: after)) := by
    intro other at'
    rw [hpool', queue_setQueue, queue_setQueue, queue_cleanUp]
  refine (hcleaned.congr (sameTables_withQueues _ _ _)).mono ?_ ?_
  · intro other hother
    rwa [hqueues.pooled_iff other]
  · intro other hother
    rwa [hqueues.pooled_iff other] at hother

/-- A transaction enters and nobody leaves. -/
theorem Expects.enter {pool : Mempool} {tx : Transaction} {isPending : Bool}
    {before after : List Transaction} {incoming : Incoming} {full : Transaction → Prop}
    (h : pool.Expects incoming full) (hincoming : ∀ other, incoming.enters other ↔ other = tx)
    (hqueue : pool.queue isPending (senderOf tx) = before ++ after) :
    (pool.setQueue isPending (senderOf tx) (before ++ tx :: after)).Expects incoming full := by
  refine (Holds.congr h (sameTables_withQueues _ _ _)).mono ?_ ?_
  · intro other hother
    have hqueue' : pool.queue isPending (senderOf tx) = before ++ ([] ++ after) := hqueue
    exact hother.imp_left fun hother =>
      (pooled_setQueue_cons hqueue' hother).resolve_right (List.not_mem_nil)
  · rintro other ⟨hfull, hother | hother⟩
    · refine ⟨hfull, ?_⟩
      rw [pooled_setQueue, List.perm_middle.mem_iff, List.mem_cons] at hother
      rw [pooled_iff_queue isPending (senderOf tx), hqueue, hincoming]
      rcases hother with (heq | hmem) | helsewhere
      · exact Or.inr heq
      · exact Or.inl (Or.inl hmem)
      · exact Or.inl (Or.inr helsewhere)
    · exact ⟨hfull, Or.inr hother⟩

theorem Expects.places {pool : Mempool} {tx : Transaction} {isPending : Bool}
    {placed : Mempool × Bool} {incoming : Incoming} {full : Transaction → Prop}
    (h : pool.Expects incoming full)
    (hordered : pool.Ordered) (hincoming : ∀ other, incoming.enters other ↔ other = tx)
    (hkeeps : pool.PlaceKeeps tx isPending full)
    (hplaces : Places pool (senderOf tx) tx isPending placed) : placed.1.Expects incoming full := by
  cases hplaces with
  | refused => exact h
  | @replaced before after old hqueue hnonce hprice =>
      exact h.replace hincoming hqueue (hkeeps.spares before old after hqueue hnonce hprice)
  | @inserted before after hqueue hfits =>
      have hentered := h.enter hincoming hqueue
      cases isPending with
      | true =>
          refine hentered.promoteQueued (hordered.insert hqueue hfits) ?_
          have hkept := hkeeps.promotes rfl before after hqueue hfits
          rwa [queue_setQueue, if_neg fun h => Bool.noConfusion h.1]
      | false => exact hentered

/-- The conditions of an addition, in the order in which it goes. -/
structure AddKeeps (pool : Mempool) (tx : Transaction) (currentNonce : Nat) (roll : UInt8)
    (full : Transaction → Prop) : Prop where
  evicts : currentNonce ≤ tx.nonce → roll % 16 = 0 → EvictsKeep maxMempoolSize pool.len pool
  places : currentNonce ≤ tx.nonce → (pool.evictSometimes roll).1.PlaceKeeps tx
    (tx.nonce ≤ max (pool.nextPendingNonce (senderOf tx) currentNonce) currentNonce) full

/-- An addition that ends with the transaction in the pool. -/
def TakesOrHas (pool : Mempool) (tx : Transaction) (currentNonce : Nat) (roll : UInt8) : Prop :=
  if tx.nonce < currentNonce then pool.Pooled tx
  else
    (pool.evictSometimes roll).1.Pooled tx ∨ (pool.evictSometimes roll).2 = some () ∧
      ∀ old ∈ (pool.evictSometimes roll).1.queue
          (tx.nonce ≤ max (pool.nextPendingNonce (senderOf tx) currentNonce) currentNonce)
          (senderOf tx),
        old.nonce = tx.nonce → minReplacementPrice old ≤ tx.gasPrice.getD 0

theorem Expects.addTransaction {pool : Mempool} {tx : Transaction} {currentNonce : Nat}
    {roll : UInt8} {incoming : Incoming} {full : Transaction → Prop}
    (h : pool.Expects incoming full) (hordered : pool.Ordered)
    (hincoming : ∀ other, incoming.enters other ↔ other = tx)
    (hkeeps : pool.AddKeeps tx currentNonce roll full) :
    (pool.addTransaction tx currentNonce roll).1.Expects incoming full := by
  unfold Mempool.addTransaction insertIntoQueue
  split
  next => exact h
  next hnonce =>
    have hle := Nat.le_of_not_lt hnonce
    have hplaces := hkeeps.places hle
    have hevicted : (pool.evictSometimes roll).1.Expects incoming full := by
      unfold evictSometimes
      split
      next hroll => exact h.evictLoop (hkeeps.evicts hle hroll)
      next => exact h
    have hordered' := hordered.evicted (evictSometimes_evicts pool roll)
    dsimp only
    split
    next heq => rwa [heq] at hevicted
    next heq =>
      rw [heq] at hevicted hordered' hplaces
      exact hevicted.places hordered' hincoming hplaces
        (place_places tx (hordered'.increasing _ _))

theorem pooled_addTransaction {pool : Mempool} {tx : Transaction} {currentNonce : Nat}
    {roll : UInt8} (hordered : pool.Ordered) (h : pool.TakesOrHas tx currentNonce roll) :
    (pool.addTransaction tx currentNonce roll).1.Pooled tx := by
  unfold TakesOrHas at h
  unfold addTransaction insertIntoQueue
  have hordered' := hordered.evicted (evictSometimes_evicts pool roll)
  split
  next hnonce => rwa [if_pos hnonce] at h
  next hnonce =>
    rw [if_neg hnonce] at h
    dsimp only
    split
    next heq =>
      rw [heq] at h
      rcases h with hpooled | ⟨hpanics, -⟩
      · exact hpooled
      · cases hpanics
    next heq =>
      rw [heq] at h hordered'
      exact (place_places tx (hordered'.increasing _ _)).pooled hordered' (h.imp_right And.right)

/-! ## Ways to leave with a clean-up -/

omit [Evm] in
theorem Holds.cleanUps {pool : Mempool} {present present' needs needs' : Transaction → Prop}
    {gones : List Transaction} (h : pool.Holds present needs)
    (hgone : ∀ tx, present tx → present' tx ∨ tx ∈ gones) (hneeds : ∀ tx, needs' tx → needs tx)
    (hspares : ∀ tx, needs' tx → ∀ hash ∈ tx.blobVersionedHashes, ∀ gone ∈ gones,
      hash ∉ gone.blobVersionedHashes) :
    (gones.foldl Mempool.cleanUp pool).Holds present' needs' := by
  induction gones generalizing pool present needs with
  | nil => exact h.mono (fun tx htx => (hgone tx htx).resolve_right List.not_mem_nil) hneeds
  | cons gone gones ih =>
      have hfirst : (pool.cleanUp gone).Holds (fun tx => present' tx ∨ tx ∈ gones) needs' := by
        refine h.cleanUp ?_ hneeds ?_
        · intro tx htx
          rcases hgone tx htx with htx | hmem
          · exact Or.inl (Or.inl htx)
          · rcases List.mem_cons.mp hmem with heq | hmem
            · exact Or.inr heq
            · exact Or.inl (Or.inr hmem)
        · exact fun tx htx hash hmem => hspares tx htx hash hmem gone List.mem_cons_self
      exact ih hfirst (fun _ => id) (fun _ => id) fun tx htx hash hmem gone hgone =>
        hspares tx htx hash hmem gone (List.mem_cons_of_mem _ hgone)

/-- Those that are removed share no blob with those that stay and need theirs. -/
def RemoveSpares (pool : Mempool) (hashes : List B256) (full : Transaction → Prop) : Prop :=
  ∀ tx, pool.Pooled tx → txHash tx ∉ hashes → full tx →
    ∀ gone, pool.Pooled gone → txHash gone ∈ hashes →
      ∀ hash ∈ tx.blobVersionedHashes, hash ∉ gone.blobVersionedHashes

omit [Evm] in
theorem mem_named {queues : Queues} {hashes : List B256} {tx : Transaction} :
    tx ∈ named queues hashes ↔
      (∃ address, tx ∈ (queues.lookup address).getD []) ∧ txHash tx ∈ hashes := by
  unfold named
  simp only [List.mem_flatMap, List.mem_filter, decide_eq_true_eq]
  constructor
  · rintro ⟨txs, hvalue, hmem, hhash⟩
    obtain ⟨address, hlookup⟩ := DashMap.mem_values.mp hvalue
    exact ⟨⟨address, by rw [hlookup]; exact hmem⟩, hhash⟩
  · rintro ⟨⟨address, hmem⟩, hhash⟩
    cases hlookup : queues.lookup address with
    | none =>
        rw [hlookup] at hmem
        cases hmem
    | some txs =>
        rw [hlookup] at hmem
        exact ⟨txs, DashMap.mem_values.mpr ⟨address, hlookup⟩, hmem, hhash⟩

omit [Evm] in
theorem mem_removed {pool : Mempool} {hashes : List B256} {tx : Transaction} :
    tx ∈ named pool.pendingTransactions hashes ++ named pool.queuedTransactions hashes ↔
      pool.Pooled tx ∧ txHash tx ∈ hashes := by
  rw [List.mem_append, mem_named, mem_named, ← or_and_right]
  refine and_congr_left' ?_
  constructor
  · rintro (⟨address, hmem⟩ | ⟨address, hmem⟩)
    · exact ⟨true, address, hmem⟩
    · exact ⟨false, address, hmem⟩
  · rintro ⟨isPending, address, hmem⟩
    cases isPending with
    | true => exact Or.inl ⟨address, hmem⟩
    | false => exact Or.inr ⟨address, hmem⟩

omit [Evm] in
theorem pooled_removeTransactions {pool : Mempool} {hashes : List B256} {tx : Transaction} :
    (pool.removeTransactions hashes).Pooled tx ↔ pool.Pooled tx ∧ txHash tx ∉ hashes := by
  unfold Pooled
  simp only [queue_removeTransactions, List.mem_filter, decide_eq_true_eq]
  constructor
  · rintro ⟨isPending, address, hmem, hhash⟩
    exact ⟨⟨isPending, address, hmem⟩, hhash⟩
  · rintro ⟨⟨isPending, address, hmem⟩, hhash⟩
    exact ⟨isPending, address, hmem, hhash⟩

omit [Evm] in
theorem TablesMatch.removeTransactions {pool : Mempool} {hashes : List B256}
    {full : Transaction → Prop} (h : pool.TablesMatch full)
    (hspares : pool.RemoveSpares hashes full) :
    (pool.removeTransactions hashes).TablesMatch full := by
  refine Holds.congr (Holds.cleanUps h ?_ ?_ ?_) ⟨rfl, rfl, rfl⟩
  · intro tx htx
    rw [pooled_removeTransactions, mem_removed]
    by_cases hhash : txHash tx ∈ hashes
    · exact Or.inr ⟨htx, hhash⟩
    · exact Or.inl ⟨htx, hhash⟩
  · exact fun tx ⟨hfull, htx⟩ => ⟨hfull, (pooled_removeTransactions.mp htx).1⟩
  · rintro tx ⟨hfull, htx⟩ hash hmem gone hgone
    obtain ⟨hpooled, hhash⟩ := pooled_removeTransactions.mp htx
    obtain ⟨hgone, hnamed⟩ := mem_removed.mp hgone
    exact hspares tx hpooled hhash hfull gone hgone hnamed hash hmem

/-- In every round of `popTransactions` the one that goes spares the blobs of others. -/
def PopsSpare (full : Transaction → Prop) : Nat → Mempool → Prop
  | 0, _ => True
  | n + 1, pool => ∀ sender tx rest, pool.bestSender = some (some sender) →
      pool.queue true sender = tx :: rest →
        (pool.shrinkQueue true sender rest).Spares full tx ∧
        PopsSpare full n ((pool.cleanUp tx).shrinkQueue true sender rest)

omit [Evm] in
theorem TablesMatch.pop {pool : Mempool} {full : Transaction → Prop} {sender : Address}
    {tx : Transaction} {rest : List Transaction} (h : pool.TablesMatch full)
    (hqueue : pool.queue true sender = tx :: rest)
    (hspares : (pool.shrinkQueue true sender rest).Spares full tx) :
    ((pool.cleanUp tx).shrinkQueue true sender rest).TablesMatch full := by
  have hqueue' : pool.queue true sender = [] ++ tx :: rest := hqueue
  obtain ⟨hless, hgone⟩ := pooled_of_queue hqueue'
    fun other at' => queue_shrinkQueue pool true other sender at' rest
  have hqueues : (pool.shrinkQueue true sender rest).SameQueues
      ((pool.cleanUp tx).shrinkQueue true sender rest) := by
    intro other at'
    rw [queue_shrinkQueue, queue_shrinkQueue, queue_cleanUp]
  refine Holds.congr (Holds.cleanUp h ?_ ?_ ?_) (sameTables_shrinkQueue _ _ _ _)
  · intro other hother
    rw [hqueues.pooled_iff]
    exact hgone other hother
  · rintro other ⟨hfull, hother⟩
    rw [hqueues.pooled_iff] at hother
    exact ⟨hfull, hless other hother⟩
  · rintro other ⟨hfull, hother⟩
    rw [hqueues.pooled_iff] at hother
    exact hspares other hother hfull

omit [Evm] in
theorem TablesMatch.popLoop {n : Nat} {pool : Mempool} {full : Transaction → Prop}
    (h : pool.TablesMatch full) (hspares : PopsSpare full n pool) (result : List Transaction) :
    (popLoop n pool result).1.TablesMatch full := by
  induction n generalizing pool result with
  | zero => exact h
  | succ n ih =>
      rw [Mempool.popLoop]
      split
      next => exact h
      next => exact h
      next sender hbest =>
        split
        next hempty => exact absurd hempty (queue_bestSender_ne hbest)
        next tx rest hqueue =>
          obtain ⟨hspared, hrest⟩ := hspares sender tx rest hbest hqueue
          exact ih (h.pop hqueue hspared) hrest _

/-! ## Imports -/

omit [BlockHashing] [Evm] in
theorem addBlobs_of_isSome {sidecar : BlobTransactionSidecar} {i : Nat} {hashes : List B256}
    {blobs : Table B256 BlobEntry} {hash : B256} (h : (blobs.get hash).isSome) :
    ((addBlobs sidecar i hashes blobs).get hash).isSome := by
  induction hashes generalizing i blobs with
  | nil => exact h
  | cons first hashes ih =>
      rw [addBlobs]
      split
      next =>
        refine ih ?_
        rw [Table.get_insert]
        split
        · rfl
        · exact h
      next => exact ih h

omit [BlockHashing] [Evm] in
theorem isSome_addBlobs {sidecar : BlobTransactionSidecar} {i : Nat} {hashes : List B256}
    {blobs : Table B256 BlobEntry} {hash : B256}
    (h : ((addBlobs sidecar i hashes blobs).get hash).isSome) :
    (blobs.get hash).isSome ∨ hash ∈ hashes := by
  induction hashes generalizing i blobs with
  | nil => exact Or.inl h
  | cons first hashes ih =>
      rw [addBlobs] at h
      split at h
      next =>
        rcases ih h with hsome | hmem
        · rw [Table.get_insert] at hsome
          split at hsome
          next heq => exact Or.inr (heq ▸ List.mem_cons_self)
          next => exact Or.inl hsome
        · exact Or.inr (List.mem_cons_of_mem _ hmem)
      next => exact (ih h).imp_right (List.mem_cons_of_mem _)

omit [BlockHashing] [Evm] in
/-- A full sidecar brings every blob. -/
theorem addBlobs_complete {sidecar : BlobTransactionSidecar} {i : Nat} {hashes : List B256}
    {blobs : Table B256 BlobEntry} (hblobs : i + hashes.length ≤ sidecar.blobs.length)
    (hcommitments : i + hashes.length ≤ sidecar.commitments.length)
    (hproofs : i + hashes.length ≤ sidecar.proofs.length) :
    ∀ hash ∈ hashes, ((addBlobs sidecar i hashes blobs).get hash).isSome := by
  induction hashes generalizing i blobs with
  | nil => nofun
  | cons first hashes ih =>
      rw [List.length_cons] at hblobs hcommitments hproofs
      intro hash hmem
      rw [addBlobs, List.getElem?_eq_getElem (show i < _ by omega),
        List.getElem?_eq_getElem (show i < _ by omega),
        List.getElem?_eq_getElem (show i < _ by omega)]
      rcases List.mem_cons.mp hmem with rfl | hmem
      · refine addBlobs_of_isSome ?_
        rw [Table.get_insert_self]
        rfl
      · exact ih (by omega) (by omega) (by omega) hash hmem

/-- The transaction of an envelope that is being imported. -/
def Incoming.of (tx : Transaction) : Incoming := ⟨(· = tx), (· = tx)⟩

omit [Evm] in
theorem TablesMatch.store {pool : Mempool} {full : Transaction → Prop} (h : pool.TablesMatch full)
    (hfull : ∀ tx, full tx → pool.Pooled tx) (pooled : TxPooledEnvelope) (data : Bytes) :
    (pool.store pooled data).Expects (.of pooled.tx)
      fun tx => full tx ∨ pooled.Complete ∧ tx = pooled.tx := by
  have hkey : ∀ {V : Type} (table : Table B256 V) (value : V) {hash : B256},
      ((table.insert (txHash pooled.tx) value).get hash).isSome →
      (∀ hash, (table.get hash).isSome → ∃ tx, pool.Pooled tx ∧ txHash tx = hash) →
      ∃ tx, (pool.Pooled tx ∨ tx = pooled.tx) ∧ txHash tx = hash := by
    intro V table value hash hsome hbefore
    rw [Table.get_insert] at hsome
    split at hsome
    next heq => exact ⟨pooled.tx, Or.inr rfl, heq.symm⟩
    next =>
      obtain ⟨tx, htx, heq⟩ := hbefore hash hsome
      exact ⟨tx, Or.inl htx, heq⟩
  constructor
  · exact fun hash hsome => hkey pool.pooledEnvelopes pooled hsome h.envelopes
  · exact fun hash hsome => hkey pool.pooledBytes data hsome h.bytes
  · intro hash hsome
    have hold : (pool.blobs.get hash).isSome ∨ hash ∈ pooled.tx.blobVersionedHashes := by
      unfold Mempool.store at hsome
      dsimp only at hsome
      split at hsome
      · exact isSome_addBlobs hsome
      · exact Or.inl hsome
    rcases hold with hold | hmem
    · obtain ⟨tx, htx, hmem⟩ := h.blobs hash hold
      exact ⟨tx, Or.inl htx, hmem⟩
    · exact ⟨pooled.tx, Or.inr rfl, isEip4844_of_mem hmem, hmem⟩
  · rintro tx ⟨htx | ⟨hcomplete, rfl⟩, -⟩ hash hmem
    · have hsome := h.kept tx ⟨htx, hfull tx htx⟩ hash hmem
      unfold Mempool.store
      dsimp only
      split
      · exact addBlobs_of_isSome hsome
      · exact hsome
    · obtain ⟨sidecar, hsidecar, hblobs, hcommitments, hproofs⟩ := hcomplete
      unfold Mempool.store
      dsimp only
      rw [hsidecar]
      exact addBlobs_complete (by omega) (by omega) (by omega) hash hmem

/-! ## Operations -/

def PromotesAllKeep (accounts : Accounts) : List Address → Mempool → Prop
  | [], _ => True
  | address :: addresses, pool =>
      PromotesKeep address (pool.queue false address).length pool
        (pool.nextPendingNonce address ((accounts address).getD (0, 0)).1) ∧
      PromotesAllKeep accounts addresses (promoteAddress accounts pool address)

/-- The conditions of a revalidation: on what is removed, and on what is promoted
after it. -/
def RevalidateKeeps (pool : Mempool) (accounts : Accounts) (addresses : Option (List Address))
    (full : Transaction → Prop) : Prop :=
  ∀ toRemove, pool.processAddresses accounts (pool.addressesToCheck addresses) = some toRemove →
    (toRemove ≠ [] → pool.RemoveSpares toRemove full) ∧
    PromotesAllKeep accounts
      ((pool.addressesToCheck addresses).filter fun address => address ∈ pool.queuedTransactions)
      (if toRemove.isEmpty then pool else pool.removeTransactions toRemove)

def SubmitKeeps (pool : Mempool) (storage : ReadStorage) (tx : Transaction) (roll : UInt8)
    (full : Transaction → Prop) : Prop :=
  checkSubmission storage tx = .ok () →
    pool.AddKeeps tx ((storage.transactionCount (senderOf tx)).getD 0) roll full

/-- A submission that ends with the transaction in the pool. -/
def SubmitTakesOrHas (pool : Mempool) (storage : ReadStorage) (tx : Transaction) (roll : UInt8) :
    Prop :=
  match checkSubmission storage tx with
  | .error _ => pool.Pooled tx
  | .ok () => pool.TakesOrHas tx ((storage.transactionCount (senderOf tx)).getD 0) roll

/-- The transactions that came with a full sidecar, with the one that is coming. -/
def importing (full : Transaction → Prop) : MempoolOp → Transaction → Prop
  | .importPooled _ pooled _ _ _ => fun tx => full tx ∨ pooled.Complete ∧ tx = pooled.tx
  | _ => full

/-- The operations after which the tables match. -/
def Keeps (pool : Mempool) (full : Transaction → Prop) : MempoolOp → Prop
  | .addTransaction tx currentNonce roll => pool.AddKeeps tx currentNonce roll full
  | .promoteQueued address nonce =>
      PromotesKeep address (pool.queue false address).length pool nonce
  | .removeTransactions hashes => pool.RemoveSpares hashes full
  | .popTransactions n => PopsSpare full n pool
  | .enforceCapacity maxSize => EvictsKeep maxSize pool.len pool
  | .updateBaseFee newBaseFee accounts => pool.baseFee < newBaseFee →
      ({ pool with baseFee := newBaseFee } : Mempool).RevalidateKeeps accounts none full
  | .revalidate accounts addresses => pool.RevalidateKeeps accounts addresses full
  | .clear => ∀ tx, pool.Pooled tx → pool.clear.LeavesNothing tx
  | .importPooled storage pooled data _ roll =>
      (pool.store pooled data).SubmitTakesOrHas storage pooled.tx roll ∧
      (pool.store pooled data).SubmitKeeps storage pooled.tx roll
        fun tx => full tx ∨ pooled.Complete ∧ tx = pooled.tx
  | .submit storage tx _ roll => pool.SubmitKeeps storage tx roll full

theorem Expects.promoteAddresses {pool : Mempool} {incoming : Incoming}
    {full : Transaction → Prop} (h : pool.Expects incoming full) (hordered : pool.Ordered)
    (accounts : Accounts) {addresses : List Address}
    (hkeep : PromotesAllKeep accounts addresses pool) :
    (addresses.foldl (promoteAddress accounts) pool).Expects incoming full := by
  induction addresses generalizing pool with
  | nil => exact h
  | cons address addresses ih =>
      exact ih (h.promoteQueued hordered hkeep.1) (hordered.promoteQueued address _) hkeep.2

theorem TablesMatch.revalidate {pool : Mempool} {full : Transaction → Prop}
    (h : pool.TablesMatch full) (hordered : pool.Ordered) {accounts : Accounts}
    {addresses : Option (List Address)}
    (hkeeps : pool.RevalidateKeeps accounts addresses full) :
    (pool.revalidate accounts addresses).1.TablesMatch full := by
  unfold Mempool.revalidate
  dsimp only
  split
  next => exact h
  next toRemove hremove =>
    obtain ⟨hspares, hpromotes⟩ := hkeeps toRemove hremove
    cases toRemove with
    | nil =>
        exact (h.expects.promoteAddresses hordered accounts hpromotes).match_tables fun _ => nofun
    | cons first others =>
        have hremoved := h.removeTransactions (hspares (List.cons_ne_nil _ _))
        exact (hremoved.expects.promoteAddresses (hordered.removeTransactions _) accounts
          hpromotes).match_tables fun _ => nofun

theorem Expects.submit {pool : Mempool} {tx : Transaction} {incoming : Incoming}
    {full : Transaction → Prop} (h : pool.Expects incoming full) (hordered : pool.Ordered)
    (hincoming : ∀ other, incoming.enters other ↔ other = tx) {storage : ReadStorage}
    {roll : UInt8} (hkeeps : pool.SubmitKeeps storage tx roll full) (isLocal : Bool) :
    (submitTransactionWithSource storage pool tx isLocal roll).1.Expects incoming full := by
  rw [submit_fst]
  split
  next => exact h
  next hcheck => exact h.addTransaction hordered hincoming (hkeeps hcheck)

theorem pooled_submit {pool : Mempool} {tx : Transaction} (hordered : pool.Ordered)
    {storage : ReadStorage} {roll : UInt8} (h : pool.SubmitTakesOrHas storage tx roll)
    (isLocal : Bool) : (submitTransactionWithSource storage pool tx isLocal roll).1.Pooled tx := by
  unfold SubmitTakesOrHas at h
  rw [submit_fst]
  split
  next hcheck => rwa [hcheck] at h
  next hcheck =>
    rw [hcheck] at h
    exact pooled_addTransaction hordered h

omit [Evm] in
theorem TablesMatch.clear {pool : Mempool} {full : Transaction → Prop} (h : pool.TablesMatch full)
    (hnothing : ∀ tx, pool.Pooled tx → pool.clear.LeavesNothing tx) :
    pool.clear.TablesMatch full := by
  have hempty : ∀ tx, ¬ pool.clear.Pooled tx := by
    rintro tx ⟨isPending, address, hmem⟩
    rw [queue_clear] at hmem
    cases hmem
  constructor
  · intro hash hsome
    obtain ⟨tx, htx, rfl⟩ := h.envelopes hash hsome
    exact (hnothing tx htx).envelopes hsome
  · intro hash hsome
    obtain ⟨tx, htx, rfl⟩ := h.bytes hash hsome
    exact (hnothing tx htx).bytes hsome
  · intro hash hsome
    obtain ⟨tx, htx, -, hmem⟩ := h.blobs hash hsome
    exact (hnothing tx htx).blobs hash hmem hsome
  · exact fun tx ⟨_, htx⟩ => absurd htx (hempty tx)

theorem TablesMatch.apply {pool : Mempool} {full : Transaction → Prop} (h : pool.TablesMatch full)
    (hordered : pool.Ordered) (hfull : ∀ tx, full tx → pool.Pooled tx) {op : MempoolOp}
    (hkeeps : pool.Keeps full op) : (pool.apply op).TablesMatch (importing full op) := by
  cases op with
  | addTransaction tx currentNonce roll =>
      exact ((h.expects_bare hfull tx).addTransaction hordered (fun _ => Iff.rfl)
        hkeeps).match_tables fun _ => nofun
  | promoteQueued address nonce =>
      exact (h.expects.promoteQueued hordered hkeeps).match_tables fun _ => nofun
  | removeTransactions hashes => exact h.removeTransactions hkeeps
  | popTransactions n => exact h.popLoop hkeeps []
  | enforceCapacity maxSize => exact (h.expects.evictLoop hkeeps).match_tables fun _ => nofun
  | updateBaseFee newBaseFee accounts =>
      have hfee : ({ pool with baseFee := newBaseFee } : Mempool).TablesMatch full :=
        ⟨h.envelopes, h.bytes, h.blobs, h.kept⟩
      unfold Mempool.apply updateBaseFee
      dsimp only
      split
      next hincreased =>
        exact hfee.revalidate ⟨hordered.increasing, hordered.filed⟩ (hkeeps hincreased)
      next => exact hfee
  | revalidate accounts addresses => exact h.revalidate hordered hkeeps
  | clear => exact h.clear hkeeps
  | importPooled storage pooled data isLocal roll =>
      have hstored : (pool.store pooled data).Ordered := ⟨hordered.increasing, hordered.filed⟩
      refine ((h.store hfull pooled data).submit hstored (fun _ => Iff.rfl) hkeeps.2
        isLocal).match_tables ?_
      rintro tx rfl
      exact pooled_submit hstored hkeeps.1 isLocal
  | submit storage tx isLocal roll =>
      exact ((h.expects_bare hfull tx).submit hordered (fun _ => Iff.rfl) hkeeps
        isLocal).match_tables fun _ => nofun

/-! ## Runs -/

/-- Runs of allowed operations, with the transactions that were imported with a full
sidecar and have stayed since. -/
inductive TrackedRun (allowed : Mempool → (Transaction → Prop) → MempoolOp → Prop) :
    Mempool → (Transaction → Prop) → Prop
  | new (baseFee : Nat) : TrackedRun allowed (new baseFee) fun _ => False
  | apply {pool : Mempool} {full : Transaction → Prop} {op : MempoolOp} :
      allowed pool full op → TrackedRun allowed pool full →
      TrackedRun allowed (pool.apply op) fun tx => importing full op tx ∧ (pool.apply op).Pooled tx
  | rehash {pool pool' : Mempool} {full : Transaction → Prop} :
      pool.Rehashed pool' → TrackedRun allowed pool full → TrackedRun allowed pool' full

theorem TrackedRun.ordered {allowed : Mempool → (Transaction → Prop) → MempoolOp → Prop}
    {pool : Mempool} {full : Transaction → Prop} (h : TrackedRun allowed pool full) :
    pool.Ordered := by
  induction h with
  | new baseFee => exact (Reachable.new baseFee).ordered
  | apply _ _ ih => exact ih.apply _
  | rehash hrehashed _ ih => exact ih.congr hrehashed.sameQueues

theorem TrackedRun.pooled {allowed : Mempool → (Transaction → Prop) → MempoolOp → Prop}
    {pool : Mempool} {full : Transaction → Prop} (h : TrackedRun allowed pool full)
    {tx : Transaction} (htx : full tx) : pool.Pooled tx := by
  induction h with
  | new => exact htx.elim
  | apply => exact htx.2
  | rehash hrehashed _ ih => exact (hrehashed.sameQueues.pooled_iff tx).mpr (ih htx)

/-- Along a run of such operations the tables match the queues. -/
theorem TrackedRun.tablesMatch {pool : Mempool} {full : Transaction → Prop}
    (h : TrackedRun Keeps pool full) : pool.TablesMatch full := by
  induction h with
  | new => exact ⟨nofun, nofun, nofun, fun _ ⟨hfull, _⟩ => hfull.elim⟩
  | apply hkeeps hrun ih =>
      refine Holds.mono (ih.apply hrun.ordered (fun _ => hrun.pooled) hkeeps) (fun _ => id) ?_
      exact fun _ ⟨⟨hfull, hpooled⟩, _⟩ => ⟨hfull, hpooled⟩
  | @rehash pool pool' full hrehashed _ ih =>
      have hpooled := hrehashed.sameQueues.pooled_iff
      have htables : pool.SameTables pool' := by
        obtain ⟨pending, queued, -, -, rfl⟩ := hrehashed
        exact ⟨rfl, rfl, rfl⟩
      refine (Holds.congr ih htables).mono (fun tx => (hpooled tx).mpr) ?_
      exact fun tx ⟨hfull, htx⟩ => ⟨hfull, (hpooled tx).mp htx⟩

end

section

attribute [local instance] keccak keccakHashing idleEvm

/-- A storage at whose head every sender has the given nonce. -/
def sampleStorage (nonce : Nat) : ReadStorage where
  chainId := .ok 1
  chainConfig := none
  latestHeader := none
  transactionCount _ := some nonce

/-- A transaction with the blob of zeros. -/
def sampleBlobTx : TxPooledEnvelope where
  tx :=
    { (default : Transaction) with
      kind := .eip4844 100 1 1
        [B256.ofNat 0x010657f37554c781402a22917dee2f75def7ab966d7b770905398eba3c444014] }
  sidecar := some
    { blobs := [List.replicate 131072 0]
      commitments := [0xc0 :: List.replicate 47 0]
      proofs := [0xc0 :: List.replicate 47 0] }

theorem tablesMatch_imported : ((Mempool.new 0).apply
    (.importPooled (sampleStorage 0) sampleBlobTx [] true 1)).TablesMatch fun tx =>
      importing (fun _ => False) (.importPooled (sampleStorage 0) sampleBlobTx [] true 1) tx ∧
        ((Mempool.new 0).apply
          (.importPooled (sampleStorage 0) sampleBlobTx [] true 1)).Pooled tx := by
  have hqueue : ∀ isPending address,
      ((Mempool.new 0).store sampleBlobTx []).queue isPending address = [] := by
    intro isPending address
    cases isPending <;> rfl
  have hkeeps : (Mempool.new 0).Keeps (fun _ => False)
      (.importPooled (sampleStorage 0) sampleBlobTx [] true 1) := by
    have hevict : ((Mempool.new 0).store sampleBlobTx []).evictSometimes 1 =
        ((Mempool.new 0).store sampleBlobTx [], some ()) := rfl
    refine ⟨Or.inr ?_, fun _ => ⟨fun _ hroll => absurd hroll (by decide), fun _ => ?_⟩⟩
    · rw [hevict]
      refine ⟨rfl, fun old hold => ?_⟩
      rw [hqueue] at hold
      cases hold
    · rw [hevict]
      constructor
      · intro before old after hsplit
        rw [hqueue] at hsplit
        simp at hsplit
      · intro _ before after _ _
        rw [hqueue]
        trivial
  exact TrackedRun.tablesMatch (.apply hkeeps (.new 0))

/-- The pool after a transaction whose nonce is used up was imported. -/
def refusedPool : Mempool :=
  (Mempool.new 0).apply (.importPooled (sampleStorage 1) ⟨sampleTx 0 100, none⟩ [] true 1)

theorem not_tablesMatch_refusedPool : ¬ ∀ pool full, TrackedRun (fun _ _ _ => True) pool full →
    pool.TablesMatch full := by
  intro h
  have hpool : refusedPool = (Mempool.new 0).store ⟨sampleTx 0 100, none⟩ [] := rfl
  have hmatch : refusedPool.TablesMatch _ := h _ _ (.apply trivial (.new 0))
  have hstored : (refusedPool.pooledEnvelopes.get (txHash (sampleTx 0 100))).isSome := by
    rw [hpool]
    unfold store
    rw [Table.get_insert_self]
    rfl
  obtain ⟨tx, ⟨isPending, address, hmem⟩, -⟩ := hmatch.envelopes _ hstored
  have hempty : refusedPool.queue isPending address = [] := by
    rw [hpool]
    cases isPending <;> rfl
  rw [hempty] at hmem
  cases hmem

end

end Mempool

end WasixEth
