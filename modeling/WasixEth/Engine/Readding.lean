import WasixEth.BlockCodec
import WasixEth.Engine.State
import WasixEth.Mempool.Pool

/-! # Transactions of discarded blocks

After a reorganisation the blocks of the old branch are walked from its head down,
and their transactions and blobs are given back to the mempool. The transactions
are collected along the walk and sent in the reverse of that order, so the oldest
block comes first but every block backwards.
-/

namespace WasixEth

open Storage

/-- The blobs of a block with their commitments and proofs, which are pushed
together. -/
structure BlobsBundleV1 where
  commitments : List Bytes
  proofs : List Bytes
  blobs : List Bytes
  commitments_length : commitments.length = blobs.length
  proofs_length : proofs.length = blobs.length

/-- What the mempool and the listeners of the engine get to see. -/
inductive ReorgEffect where
  | reorg (headHash : B256)
  | addBlob (versionedHash : B256) (entry : BlobEntry)
  | newTransaction (tx : Transaction) (isLocal : Bool)

/-- The bundle that is found for a block hash among the payloads. -/
abbrev Bundles := B256 → Option BlobsBundleV1

namespace BlobsBundleV1

def entry (bundle : BlobsBundleV1) (blobIdx : Nat) (h : blobIdx < bundle.blobs.length) :
    BlobEntry where
  blob := bundle.blobs[blobIdx]
  commitment := bundle.commitments.get ⟨blobIdx, bundle.commitments_length ▸ h⟩
  proof := bundle.proofs.get ⟨blobIdx, bundle.proofs_length ▸ h⟩

end BlobsBundleV1

namespace Engine

/-- The blobs of one transaction, and the index behind them. -/
def readdBlobs (bundle : BlobsBundleV1) : Nat → List B256 → List ReorgEffect × Nat
  | blobIdx, [] => ([], blobIdx)
  | blobIdx, hash :: hashes =>
      if h : blobIdx < bundle.blobs.length then
        let (effects, blobIdx') := readdBlobs bundle (blobIdx + 1) hashes
        (.addBlob hash (bundle.entry blobIdx h) :: effects, blobIdx')
      else readdBlobs bundle blobIdx hashes

/-- The blobs of a block, one transaction after the other. -/
def readdBody (bundle : BlobsBundleV1) : Nat → List Transaction → List ReorgEffect
  | _, [] => []
  | blobIdx, tx :: txs =>
      let (effects, blobIdx) := readdBlobs bundle blobIdx tx.blobVersionedHashes
      effects ++ readdBody bundle blobIdx txs

section

variable [BlockHashing]

/-- The walk down the old branch, which gives the effects on the way and the
transactions it collects. Without fuel it is still under way. -/
def discardLoop (tables : ChainTables) (bundles : Bundles) (commonAncestorHash : B256) :
    Nat → B256 → Option (List ReorgEffect × List Transaction)
  | 0, _ => none
  | fuel + 1, discardedHash =>
      if discardedHash ≠ B256.zero ∧ discardedHash ≠ commonAncestorHash then
        match tables.blockByHash Faults.none discardedHash with
        | none => some ([], [])
        | some block => do
            let effects :=
              match bundles discardedHash with
              | none => []
              | some bundle => readdBody bundle 0 block.body.transactions
            let (rest, txs) ←
              discardLoop tables bundles commonAncestorHash fuel block.header.parentHash
            return (effects ++ rest, block.body.transactions ++ txs)
      else some ([], [])

def handleReorgsForMempool (tables : ChainTables) (bundles : Bundles) (fuel : Nat)
    (headBlockHash oldHead commonAncestorHash : B256) : Option (List ReorgEffect) := do
  let (effects, allDiscardedTxs) ← discardLoop tables bundles commonAncestorHash fuel oldHead
  return .reorg headBlockHash ::
    (effects ++ allDiscardedTxs.reverse.map fun tx => .newTransaction tx true)

/-! ## What is given back -/

/-- The blocks from a hash down to the common ancestor, with their hashes. -/
inductive StoredChain (tables : ChainTables) (commonAncestorHash : B256) :
    B256 → List (B256 × Block) → Prop
  | stop : StoredChain tables commonAncestorHash commonAncestorHash []
  | next {hash : B256} {block : Block} {discarded : List (B256 × Block)}
      (hzero : hash ≠ B256.zero) (hne : hash ≠ commonAncestorHash)
      (hblock : tables.blockByHash Faults.none hash = some block)
      (hrest : StoredChain tables commonAncestorHash block.header.parentHash discarded) :
      StoredChain tables commonAncestorHash hash ((hash, block) :: discarded)

omit [BlockHashing] in
/-- The transactions that are sent, in order. -/
def sent (effects : List ReorgEffect) : List Transaction :=
  effects.filterMap fun
    | .newTransaction tx _ => some tx
    | _ => none

/-- The versioned hashes of the blobs of a block, in body order. -/
def blobHashes (block : Block) : List B256 :=
  block.body.transactions.flatMap Transaction.blobVersionedHashes

/-- The transactions come back from the oldest discarded block on, each block in
body order, and each blob of a bundle under the versioned hash at its place. -/
structure Readds (bundles : Bundles) (discarded : List (B256 × Block))
    (effects : List ReorgEffect) : Prop where
  transactions : sent effects = discarded.reverse.flatMap fun entry => entry.2.body.transactions
  blobs : ∀ hash blobEntry, .addBlob hash blobEntry ∈ effects ↔
    ∃ discardedHash block bundle, (discardedHash, block) ∈ discarded ∧
      bundles discardedHash = some bundle ∧
      ∃ i h, (blobHashes block)[i]? = some hash ∧ bundle.entry i h = blobEntry

/-! ## Blobs -/

section

omit [BlockHashing]

theorem readdBlobs_append (bundle : BlobsBundleV1) (blobIdx : Nat) (before after : List B256) :
    (readdBlobs bundle blobIdx (before ++ after)).1 =
      (readdBlobs bundle blobIdx before).1 ++
        (readdBlobs bundle (readdBlobs bundle blobIdx before).2 after).1 := by
  induction before generalizing blobIdx with
  | nil => rfl
  | cons hash hashes ih =>
      rw [List.cons_append, readdBlobs, readdBlobs]
      split
      · dsimp only
        rw [ih, List.cons_append]
      · exact ih blobIdx

/-- The running index goes through the blobs of a block as through one list. -/
theorem readdBody_eq (bundle : BlobsBundleV1) (blobIdx : Nat) (txs : List Transaction) :
    readdBody bundle blobIdx txs =
      (readdBlobs bundle blobIdx (txs.flatMap Transaction.blobVersionedHashes)).1 := by
  induction txs generalizing blobIdx with
  | nil => rfl
  | cons tx txs ih =>
      rw [List.flatMap_cons, readdBlobs_append, readdBody]
      dsimp only
      rw [ih]

theorem mem_readdBlobs {bundle : BlobsBundleV1} {blobIdx : Nat} {hashes : List B256}
    {effect : ReorgEffect} :
    effect ∈ (readdBlobs bundle blobIdx hashes).1 ↔
      ∃ i h hash, hashes[i]? = some hash ∧
        effect = .addBlob hash (bundle.entry (blobIdx + i) h) := by
  induction hashes generalizing blobIdx with
  | nil => simp [readdBlobs]
  | cons hash hashes ih =>
      rw [readdBlobs]
      split
      next hlt =>
        dsimp only
        rw [List.mem_cons, ih]
        constructor
        · rintro (rfl | ⟨i, h, hash', hhash, rfl⟩)
          · exact ⟨0, hlt, hash, rfl, rfl⟩
          · refine ⟨i + 1, by omega, hash', hhash, ?_⟩
            congr 2
            omega
        · rintro ⟨i, h, hash', hhash, rfl⟩
          cases i with
          | zero =>
              cases hhash
              exact .inl rfl
          | succ i =>
              refine .inr ⟨i, by omega, hash', hhash, ?_⟩
              congr 2
              omega
      next hge =>
        rw [ih]
        constructor
        · rintro ⟨i, h, -⟩
          omega
        · rintro ⟨i, h, -⟩
          omega

theorem sent_readdBlobs (bundle : BlobsBundleV1) (blobIdx : Nat) (hashes : List B256) :
    sent (readdBlobs bundle blobIdx hashes).1 = [] := by
  refine List.filterMap_eq_nil_iff.mpr fun effect hmem => ?_
  obtain ⟨i, h, hash, -, rfl⟩ := mem_readdBlobs.mp hmem
  rfl

/-! ## Order -/

/-- Two concatenations with parts of the same lengths agree if the parts do. -/
theorem flatMap_eq_iff {α β : Type} {f g : α → List β} (hlength : ∀ a, (f a).length = (g a).length)
    (l : List α) : l.flatMap f = l.flatMap g ↔ ∀ a ∈ l, f a = g a := by
  induction l with
  | nil => simp
  | cons a l ih =>
      rw [List.flatMap_cons, List.flatMap_cons, List.forall_mem_cons, ← ih]
      exact ⟨fun h => List.append_inj h (hlength a), fun h => by rw [h.1, h.2]⟩

end

/-! ## The walk -/

section

variable {tables : ChainTables} {bundles : Bundles} {commonAncestorHash oldHead : B256}
  {discarded : List (B256 × Block)}

/-- The effects of one discarded block. -/
def readdBlock (bundles : Bundles) (entry : B256 × Block) : List ReorgEffect :=
  match bundles entry.1 with
  | none => []
  | some bundle => readdBody bundle 0 entry.2.body.transactions

theorem discardLoop_of_storedChain
    (hchain : StoredChain tables commonAncestorHash oldHead discarded) {fuel : Nat}
    (hfuel : discarded.length < fuel) :
    discardLoop tables bundles commonAncestorHash fuel oldHead =
      some (discarded.flatMap (readdBlock bundles),
        discarded.flatMap fun entry => entry.2.body.transactions) := by
  induction hchain generalizing fuel with
  | stop =>
      obtain ⟨fuel, rfl⟩ := Nat.exists_eq_add_one.mpr (Nat.zero_lt_of_lt hfuel)
      rw [discardLoop, if_neg fun h => h.2 rfl]
      rfl
  | next hzero hne hblock hrest ih =>
      obtain ⟨fuel, rfl⟩ := Nat.exists_eq_add_one.mpr (Nat.zero_lt_of_lt hfuel)
      rw [discardLoop, if_pos ⟨hzero, hne⟩, hblock]
      dsimp only
      rw [ih (Nat.lt_of_succ_lt_succ hfuel)]
      rfl

omit [BlockHashing] in
theorem sent_readdBlock (entry : B256 × Block) : sent (readdBlock bundles entry) = [] := by
  unfold readdBlock
  cases bundles entry.1 with
  | none => rfl
  | some bundle =>
      dsimp only
      rw [readdBody_eq, sent_readdBlobs]

omit [BlockHashing] in
theorem mem_readdBlock {entry : B256 × Block} {hash : B256} {blobEntry : BlobEntry} :
    .addBlob hash blobEntry ∈ readdBlock bundles entry ↔
      ∃ bundle, bundles entry.1 = some bundle ∧
        ∃ i h, (blobHashes entry.2)[i]? = some hash ∧ bundle.entry i h = blobEntry := by
  unfold readdBlock
  cases bundles entry.1 with
  | none => simp
  | some bundle =>
      dsimp only
      rw [readdBody_eq, mem_readdBlobs]
      unfold blobHashes
      constructor
      · rintro ⟨i, h, hash', hhash, heq⟩
        cases heq
        rw [Nat.zero_add] at h
        refine ⟨bundle, rfl, i, h, hhash, ?_⟩
        congr 1
        omega
      · rintro ⟨bundle', heq, i, h, hhash, rfl⟩
        cases heq
        refine ⟨i, by omega, hash, hhash, ?_⟩
        congr 2
        omega

/-- The effects of the whole, from the walk. -/
theorem handleReorgsForMempool_of_storedChain
    (hchain : StoredChain tables commonAncestorHash oldHead discarded) (headBlockHash : B256)
    (fuel : Nat) (hfuel : discarded.length < fuel) :
    handleReorgsForMempool tables bundles fuel headBlockHash oldHead commonAncestorHash =
      some (.reorg headBlockHash :: (discarded.flatMap (readdBlock bundles) ++
        (discarded.flatMap fun entry => entry.2.body.transactions).reverse.map
          fun tx => .newTransaction tx true)) := by
  unfold handleReorgsForMempool
  rw [discardLoop_of_storedChain hchain hfuel]
  rfl

omit [BlockHashing] in
/-- Only the transactions at the end are sent. -/
theorem sent_effects (headBlockHash : B256) (txs : List Transaction) :
    sent (.reorg headBlockHash :: (discarded.flatMap (readdBlock bundles) ++
      txs.map fun tx => .newTransaction tx true)) = txs := by
  have hblocks : sent (discarded.flatMap (readdBlock bundles)) = [] := by
    refine List.filterMap_eq_nil_iff.mpr fun effect hmem => ?_
    obtain ⟨entry, -, hentry⟩ := List.mem_flatMap.mp hmem
    exact List.filterMap_eq_nil_iff.mp (sent_readdBlock entry) effect hentry
  have htxs : sent (txs.map fun tx => .newTransaction tx true) = txs := by
    unfold sent
    rw [List.filterMap_map]
    exact List.filterMap_some
  unfold sent at hblocks htxs ⊢
  rw [List.filterMap_cons_none rfl, List.filterMap_append, hblocks, htxs, List.nil_append]

omit [BlockHashing] in
theorem mem_effects {headBlockHash : B256} {txs : List Transaction} {hash : B256}
    {blobEntry : BlobEntry} :
    .addBlob hash blobEntry ∈ (.reorg headBlockHash ::
        (discarded.flatMap (readdBlock bundles) ++
          txs.map fun tx => .newTransaction tx true) : List ReorgEffect) ↔
      ∃ discardedHash block bundle, (discardedHash, block) ∈ discarded ∧
        bundles discardedHash = some bundle ∧
        ∃ i h, (blobHashes block)[i]? = some hash ∧ bundle.entry i h = blobEntry := by
  rw [List.mem_cons, List.mem_append, List.mem_flatMap, List.mem_map]
  constructor
  · rintro (heq | ⟨⟨discardedHash, block⟩, hmem, heffect⟩ | ⟨tx, -, heq⟩)
    · cases heq
    · obtain ⟨bundle, hbundle, hentry⟩ := mem_readdBlock.mp heffect
      exact ⟨discardedHash, block, bundle, hmem, hbundle, hentry⟩
    · cases heq
  · rintro ⟨discardedHash, block, bundle, hmem, hbundle, hentry⟩
    exact .inr (.inl ⟨(discardedHash, block), hmem, mem_readdBlock.mpr ⟨bundle, hbundle, hentry⟩⟩)

/-- The transactions come back in chain order where every discarded block has the
same transactions backwards; the blobs always do. -/
theorem handleReorgsForMempool_readds_iff
    (hchain : StoredChain tables commonAncestorHash oldHead discarded) (headBlockHash : B256) :
    (∃ effects, (∀ fuel, discarded.length < fuel →
        handleReorgsForMempool tables bundles fuel headBlockHash oldHead commonAncestorHash =
          some effects) ∧ Readds bundles discarded effects) ↔
      ∀ entry ∈ discarded,
        entry.2.body.transactions.reverse = entry.2.body.transactions := by
  have hparts : ∀ entry : B256 × Block, entry.2.body.transactions.reverse.length =
      entry.2.body.transactions.length := fun _ => List.length_reverse
  have horder := flatMap_eq_iff hparts discarded.reverse
  simp only [List.mem_reverse] at horder
  rw [← horder]
  have heffects : ∀ fuel, discarded.length < fuel →
      handleReorgsForMempool tables bundles fuel headBlockHash oldHead commonAncestorHash = _ :=
    handleReorgsForMempool_of_storedChain hchain headBlockHash
  constructor
  · rintro ⟨effects, hruns, hreadds⟩
    obtain rfl := Option.some.inj
      ((hruns _ (Nat.lt_succ_self _)).symm.trans (heffects _ (Nat.lt_succ_self _)))
    have htransactions := hreadds.transactions
    rw [sent_effects, List.reverse_flatMap] at htransactions
    exact htransactions
  · intro hflat
    refine ⟨_, heffects, ?_, fun hash blobEntry => mem_effects⟩
    rw [sent_effects, List.reverse_flatMap]
    exact hflat

end

end

/-! ## One discarded block -/

section

def discardedHeader : Header :=
  { (default : Header) with number := 2, parentHash := .leading 1 }

attribute [local instance] keccak

@[reducible] def discardedHashing : BlockHashing := lookupHashing [(discardedHeader, .leading 2)]

attribute [local instance] discardedHashing

def discardedBlock (txs : List Transaction) : Block := ⟨discardedHeader, ⟨txs, [], none⟩⟩

def discardedTables (txs : List Transaction) : ChainTables :=
  { emptyDatabase.chain with
    headers := (∅ : Table B256 Header).insert (.leading 2) discardedHeader
    blockBodies := (∅ : Table B256 BlockBody).insert (.leading 2) ⟨txs, [], none⟩ }

theorem storedChain_discarded (txs : List Transaction) :
    StoredChain (discardedTables txs) (.leading 1) (.leading 2)
      [(.leading 2, discardedBlock txs)] := by
  have hhash : hashSlow discardedHeader = .leading 2 := rfl
  refine .next (by decide) (by decide) ?_ .stop
  have hheader : (discardedTables txs).header Faults.none (.leading 2) = some discardedHeader := rfl
  unfold ChainTables.blockByHash
  rw [Faults.part_none, hheader]
  dsimp only
  rw [hhash]
  rfl

def blobTx : Transaction := { (default : Transaction) with kind := .eip4844 9 1 1 [.leading 3] }

def oneBlob : BlobsBundleV1 := ⟨[[1]], [[2]], [[3]], rfl, rfl⟩

theorem readds_blobTx : ∃ effects, (∀ fuel, 1 < fuel →
      handleReorgsForMempool (discardedTables [blobTx]) (fun _ => some oneBlob) fuel (.leading 4)
        (.leading 2) (.leading 1) = some effects) ∧
      Readds (fun _ => some oneBlob) [(.leading 2, discardedBlock [blobTx])] effects := by
  refine (handleReorgsForMempool_readds_iff (storedChain_discarded [blobTx]) (.leading 4)).mpr ?_
  intro entry hmem
  rw [List.mem_singleton.mp hmem]
  rfl

def nonceTx (nonce : Nat) : Transaction := { (default : Transaction) with nonce }

/-- Two transactions of one block come back with the later nonce first. -/
theorem not_readds_nonceTx :
    StoredChain (discardedTables [nonceTx 0, nonceTx 1]) (.leading 1) (.leading 2)
        [(.leading 2, discardedBlock [nonceTx 0, nonceTx 1])] ∧
      ¬ ∃ effects, (∀ fuel, 1 < fuel →
        handleReorgsForMempool (discardedTables [nonceTx 0, nonceTx 1]) (fun _ => none) fuel
          (.leading 4) (.leading 2) (.leading 1) = some effects) ∧
        Readds (fun _ => none) [(.leading 2, discardedBlock [nonceTx 0, nonceTx 1])] effects := by
  refine ⟨storedChain_discarded _, ?_⟩
  rintro ⟨effects, hruns, hreadds⟩
  have heffects := (hruns 2 (by decide)).symm.trans
    (handleReorgsForMempool_of_storedChain (storedChain_discarded _) (.leading 4) 2 (by decide))
  obtain rfl := Option.some.inj heffects
  have hsent := hreadds.transactions
  rw [sent_effects] at hsent
  exact absurd hsent (by decide)

end

end Engine

end WasixEth
