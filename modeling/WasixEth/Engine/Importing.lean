import WasixEth.Engine.Ancestry
import WasixEth.Engine.PayloadProcessor

/-! # Importing payloads keeps the chain invariant

Whatever a call of `new_payload_internal` does, it only adds headers, each
built on a stored block, and leaves the canonical chain and the fork choice
alone.
-/

namespace WasixEth

open Storage

section Tables

variable [BlockHashing]

/-- Recording the transactions of a block writes two tables. -/
theorem Storage.ChainTables.exists_insertTransactions (tables : ChainTables) (blockHash : B256)
    (transactions : List Transaction) :
    ∃ stored lookup, tables.insertTransactions blockHash transactions =
      { tables with transactions := stored, transactionLookup := lookup } := by
  unfold ChainTables.insertTransactions
  induction transactions.zipIdx generalizing tables with
  | nil => exact ⟨_, _, rfl⟩
  | cons entry rest ih =>
      obtain ⟨stored, lookup, h⟩ := ih _
      exact ⟨stored, lookup, h⟩

omit [BlockHashing] in
theorem Storage.ChainTables.exists_insertReceipts (tables : ChainTables) (blockHash : B256)
    (receipts : List Receipt) :
    ∃ stored, tables.insertReceipts blockHash receipts = { tables with receipts := stored } := by
  unfold ChainTables.insertReceipts
  induction receipts.zipIdx generalizing tables with
  | nil => exact ⟨_, rfl⟩
  | cons entry rest ih =>
      obtain ⟨stored, h⟩ := ih _
      exact ⟨stored, h⟩

/-- Storing a header with its number and body, and dropping a payload. -/
structure Stores (tables tables' : ChainTables) (header : Header) (body : BlockBody) : Prop where
  headers : tables'.headers = tables.headers.insert (hashSlow header) header
  headerLog : tables'.headerLog = header :: tables.headerLog
  headerNumbers : ∀ hash, tables'.headerNumbers.get hash =
    if hash = hashSlow header then some header.number else tables.headerNumbers.get hash
  blockBodies : tables'.blockBodies = tables.blockBodies.insert (hashSlow header) body
  canonicalHeads : tables'.canonicalHeads = tables.canonicalHeads
  payloads : tables'.payloads ⊆ tables.payloads

omit [BlockHashing] in
theorem BuiltOnStored.mono {tables tables' : ChainTables} {header : Header}
    (hsub : ∀ hash header, tables.headers.get hash = some header →
      tables'.headers.get hash = some header)
    (h : BuiltOnStored tables header) : BuiltOnStored tables' header := by
  obtain ⟨parent, hparent, hnumber⟩ := h
  exact ⟨parent, hsub _ _ hparent, hnumber⟩

namespace Stores

variable {genesis : B256} {tables tables' : ChainTables} {header : Header} {body : BlockBody}

/-- A header that was there is there still: under the same hash it can only be
the same header. -/
theorem headers_sub (hs : Stores tables tables' header body)
    (h : ChainInvariant genesis tables) (hapart : HashesApart tables'.headerLog)
    (hash : B256) (old : Header) (hold : tables.headers.get hash = some old) :
    tables'.headers.get hash = some old := by
  rw [hs.headers, Table.get_insert]
  split
  next heq =>
    rw [hs.headerLog] at hapart
    have hmem : old ∈ header :: tables.headerLog := List.mem_cons_of_mem _ (h.logged hold)
    rw [hapart.injective header (by simp) old hmem (by rw [← heq, h.hash_eq hold])]
  next => exact hold

theorem invariant (hs : Stores tables tables' header body) (h : ChainInvariant genesis tables)
    (hapart : HashesApart tables'.headerLog) (hbuilt : BuiltOnStored tables header) :
    ChainInvariant genesis tables' := by
  have hsub := hs.headers_sub h hapart
  -- A stored header is the new one or an old one.
  have hcases : ∀ {hash old}, tables'.headers.get hash = some old →
      (hash = hashSlow header ∧ old = header) ∨
        (hash ≠ hashSlow header ∧ tables.headers.get hash = some old) := by
    intro hash old hold
    rw [hs.headers, Table.get_insert] at hold
    split at hold
    next heq =>
      cases hold
      exact .inl ⟨heq, rfl⟩
    next hne => exact .inr ⟨hne, hold⟩
  refine ⟨?_, ?_, hapart, ?_, ?_, ?_, ?_, ?_⟩
  · intro hash old hold
    rcases hcases hold with ⟨rfl, rfl⟩ | ⟨_, hold⟩
    · rfl
    · exact h.hash_eq hold
  · intro hash old hold
    rw [hs.headerLog]
    rcases hcases hold with ⟨rfl, rfl⟩ | ⟨_, hold⟩
    · simp
    · exact List.mem_cons_of_mem _ (h.logged hold)
  · intro hash old hold
    rw [hs.headerNumbers]
    rcases hcases hold with ⟨rfl, rfl⟩ | ⟨hne, hold⟩
    · simp
    · rw [if_neg hne]
      exact h.number_eq hold
  · intro hash
    rw [hs.headers, hs.blockBodies, Table.get_insert, Table.get_insert]
    split
    · simp
    · exact h.body_iff hash
  · obtain ⟨old, hold⟩ := Option.isSome_iff_exists.mp h.genesis_mem
    rw [hsub _ _ hold]
    rfl
  · intro hash old hold hne
    rcases hcases hold with ⟨rfl, rfl⟩ | ⟨_, hold⟩
    · exact hbuilt.mono hsub
    · exact (h.parent_mem hold hne).mono hsub
  · intro entry hentry
    rcases h.payload_mem entry (hs.payloads hentry) with hgenesis | hbuilt
    · exact .inl hgenesis
    · exact .inr (hbuilt.mono hsub)

end Stores

end Tables

namespace Engine

variable [BlockHashing]

/-- What importing may do to the chain. -/
structure Grows (genesis : B256) (before after : Engine) : Prop where
  invariant : ChainInvariant genesis after.chain
  headers : ∀ hash header, before.chain.headers.get hash = some header →
    after.chain.headers.get hash = some header
  canonicalHeads : after.chain.canonicalHeads = before.chain.canonicalHeads
  canonical : after.canonical = before.canonical

/-- As long as hashes do not collide, the chain only grows. -/
structure Extends (genesis : B256) (before after : Engine) : Prop where
  log : before.chain.headerLog ⊆ after.chain.headerLog
  grows : HashesApart after.chain.headerLog → ChainInvariant genesis before.chain →
    Grows genesis before after

variable {genesis : B256} {e e' e'' : Engine}

theorem Extends.trans (h : Extends genesis e e') (h' : Extends genesis e' e'') :
    Extends genesis e e'' where
  log := fun _ hmem => h'.log (h.log hmem)
  grows := by
    intro hapart hinv
    have hfirst := h.grows (hapart.mono h'.log) hinv
    have hsecond := h'.grows hapart hfirst.invariant
    exact ⟨hsecond.invariant, fun hash header hget => hsecond.headers _ _ (hfirst.headers _ _ hget),
      hsecond.canonicalHeads.trans hfirst.canonicalHeads,
      hsecond.canonical.trans hfirst.canonical⟩

/-- Anything that leaves the chain tables and the fork choice alone. -/
theorem Extends.of_eq (hchain : e'.chain = e.chain) (hcanonical : e'.canonical = e.canonical) :
    Extends genesis e e' where
  log := by rw [hchain]; exact List.Subset.refl _
  grows := fun _ hinv =>
    ⟨hchain ▸ hinv, fun hash header hget => by rw [hchain]; exact hget, by rw [hchain], hcanonical⟩

theorem Extends.refl : Extends genesis e e := .of_eq rfl rfl

theorem extends_removePayload (engine : Engine) (hash : B256) :
    Extends genesis engine (engine.removePayload hash) where
  log := List.Subset.refl _
  grows := by
    intro _ hinv
    refine ⟨⟨hinv.hash_eq, hinv.logged, hinv.apart, hinv.number_eq, hinv.body_iff,
      hinv.genesis_mem, hinv.parent_mem, ?_⟩, fun _ _ hget => hget, rfl, rfl⟩
    intro entry hentry
    exact hinv.payload_mem entry (List.mem_of_mem_filter hentry)

theorem stores_persistBlock (engine : Engine) (executed : ExecutedBlock) (td : U256) :
    Stores engine.chain (engine.persistBlock executed td).chain executed.block.header
      executed.block.body := by
  unfold persistBlock
  dsimp only [ChainTables.insertBlockBody]
  obtain ⟨stored, lookup, htransactions⟩ := ChainTables.exists_insertTransactions _ _ _
  rw [htransactions]
  obtain ⟨receipts, hreceipts⟩ := ChainTables.exists_insertReceipts _ _ _
  rw [hreceipts]
  refine ⟨rfl, rfl, ?_, rfl, rfl, fun _ hmem => List.mem_of_mem_filter hmem⟩
  intro hash
  simp only [ChainTables.removePayloadByBlockHash, ChainTables.insertHeaderNumber,
    ChainTables.insertHeaderTd, ChainTables.insertHeader, Table.get_insert, Block.hash]
  split <;> rfl

/-- Storing an executed block that is built on a stored one. -/
theorem extends_persistBlock (engine : Engine) (executed : ExecutedBlock) (td : U256)
    (hbuilt : BuiltOnStored engine.chain executed.block.header) :
    Extends genesis engine (engine.persistBlock executed td) := by
  have hstores := stores_persistBlock engine executed td
  refine ⟨?_, ?_⟩
  · rw [hstores.headerLog]
    exact List.subset_cons_self _ _
  · intro hapart hinv
    exact ⟨hstores.invariant hinv hapart hbuilt, hstores.headers_sub hinv hapart,
      hstores.canonicalHeads, rfl⟩

/-! ## The steps of an import -/

/-- The chain tables and the fork choice are the same. -/
def Quiet (before after : Engine) : Prop :=
  after.chain = before.chain ∧ after.canonical = before.canonical

theorem Quiet.extends (h : Quiet e e') : Extends genesis e e' := .of_eq h.1 h.2

omit [BlockHashing] in
theorem Quiet.trans (h : Quiet e e') (h' : Quiet e' e'') : Quiet e e'' :=
  ⟨h'.1.trans h.1, h'.2.trans h.2⟩

omit [BlockHashing] in
theorem Quiet.foldl {α : Type} {f : Engine → α → Engine}
    (hf : ∀ engine a, Quiet engine (f engine a))
    (engine : Engine) (items : List α) : Quiet engine (items.foldl f engine) := by
  induction items generalizing engine with
  | nil => exact ⟨rfl, rfl⟩
  | cons a rest ih => exact (hf engine a).trans (ih _)

theorem extends_rejectHard (engine : Engine) (hash parentHash : B256) (message : String) :
    Extends genesis engine (engine.rejectHard hash parentHash message).2 := by
  have hmark : Quiet engine (engine.markInvalid hash parentHash .hard) := ⟨rfl, rfl⟩
  exact hmark.extends.trans (extends_removePayload _ hash)

theorem extends_rejectSoft (engine : Engine) (hash parentHash : B256) (message : String) :
    Extends genesis engine (engine.rejectSoft hash parentHash message).2 := by
  unfold rejectSoft
  apply Extends.of_eq
  · dsimp only [invalidStatus]
    split <;> rfl
  · dsimp only [invalidStatus]
    split <;> rfl

omit [BlockHashing] in
theorem quiet_removeBlocks (engine : Engine) (removed : List B256) :
    Quiet engine (removed.foldl (fun engine hash =>
      { engine with blockTree := engine.blockTree.removeBlock hash }) engine) := by
  apply Quiet.foldl
  exact fun _ _ => ⟨rfl, rfl⟩

omit [BlockHashing] in
theorem quiet_invalidateLoop (rounds : Nat) (engine : Engine) (stack removed : List B256) :
    Quiet engine (invalidateLoop rounds engine stack removed) := by
  induction rounds generalizing engine stack removed with
  | zero => exact quiet_removeBlocks engine removed
  | succ rounds ih =>
      cases stack with
      | nil => exact quiet_removeBlocks engine removed
      | cons parentHash stack =>
          rw [invalidateLoop]
          have hdetach : Quiet engine { engine with
            blockTree := engine.blockTree.removeChildren parentHash } := ⟨rfl, rfl⟩
          apply (hdetach.trans _).trans (ih _ _ _)
          apply Quiet.foldl
          exact fun _ _ => ⟨rfl, rfl⟩

omit [BlockHashing] in
theorem quiet_invalidateDescendants (engine : Engine) (hash : B256) :
    Quiet engine (engine.invalidateDescendants hash) :=
  quiet_invalidateLoop _ _ _ _

section Steps

variable [Proofs] (node : Node) (outside : Outside)

theorem quiet_validateAncestors (steps : Nat) (engine : Engine) (current : B256) :
    Quiet engine (validateAncestors node outside steps engine current).2 := by
  induction steps generalizing current with
  | zero => exact ⟨rfl, rfl⟩
  | succ steps ih =>
      rw [validateAncestors]
      split
      · exact ⟨rfl, rfl⟩
      next header _ =>
        dsimp only
        split
        · exact Quiet.trans ⟨rfl, rfl⟩ (quiet_invalidateDescendants _ _)
        · have hcontinued : Quiet engine (if header.parentHash = B256.zero then (none, engine)
              else validateAncestors node outside steps engine header.parentHash).2 := by
            split
            · exact ⟨rfl, rfl⟩
            · exact ih _
          split
          · exact hcontinued
          · split
            · exact hcontinued
            · split
              · exact ⟨rfl, rfl⟩
              · exact ⟨rfl, rfl⟩

theorem quiet_validateParentBlock (engine : Engine) (parentHash : B256) :
    Quiet engine (engine.validateParentBlock node outside parentHash).2 := by
  unfold validateParentBlock
  split
  · exact ⟨rfl, rfl⟩
  · dsimp only
    split
    · exact ⟨rfl, rfl⟩
    · exact quiet_validateAncestors node outside _ _ _

theorem extends_storeExecuted (engine : Engine) (actualHash parentHash : B256)
    (executed : ExecutedBlock) (hbuilt : BuiltOnStored engine.chain executed.block.header) :
    Extends genesis engine (engine.storeExecuted actualHash parentHash executed).2 := by
  unfold storeExecuted
  split
  · exact extends_rejectHard _ _ _ _
  · dsimp only
    split
    · exact .refl
    · exact (extends_persistBlock engine executed _ hbuilt).trans (.of_eq rfl rfl)

/-- The block is built on its parent, and so is what execution makes of it. -/
theorem extends_executePayload (engine : Engine) (block : Block) (parent : Header)
    (hparent : engine.chain.headers.get block.header.parentHash = some parent) :
    Extends genesis engine (engine.executePayload node outside block parent).2 := by
  unfold executePayload
  split
  · exact extends_rejectHard _ _ _ _
  next hvalid =>
    split
    next message state _ =>
      have hstate : Extends genesis engine { engine with state } := .of_eq rfl rfl
      exact hstate.trans (extends_rejectHard _ _ _ _)
    next executed state hexecuted =>
      have hstate : Extends genesis engine { engine with state } := .of_eq rfl rfl
      obtain ⟨hnumber, hparentHash⟩ := node.execution.header_of_ok hexecuted
      have hbuilt : BuiltOnStored { engine with state }.chain executed.block.header := by
        refine ⟨parent, by rw [hparentHash]; exact hparent, ?_⟩
        rw [hnumber]
        exact EthConsensus.number_of_validateHeader hvalid
      exact hstate.trans (extends_storeExecuted _ _ _ _ hbuilt)

theorem extends_withoutParent (engine : Engine) (block : Block) :
    Extends genesis engine (engine.withoutParent node outside block).2 := by
  unfold withoutParent
  dsimp only
  split
  · exact .refl
  · split
    · exact .refl
    · split
      · exact .of_eq rfl rfl
      · exact .of_eq rfl rfl

omit [BlockHashing] [Proofs] in
theorem get_of_header_eq_some {tables : ChainTables} {faults : Faults} {hash : B256}
    {header : Header} (h : tables.header faults hash = some header) :
    tables.headers.get hash = some header := by
  unfold ChainTables.header at h
  split at h
  · cases h
  · exact Faults.read_eq_some h

theorem extends_importChild (engine : Engine) (block : Block) :
    Extends genesis engine (engine.importChild node outside block).2 := by
  have hquiet := quiet_validateParentBlock node outside engine block.header.parentHash
  unfold importChild
  dsimp only
  split
  next status checked hchecked =>
    rw [hchecked] at hquiet
    split
    · exact hquiet.extends.trans (.of_eq rfl rfl)
    · have hmark : Quiet checked (checked.markInvalid block.hash block.header.parentHash .hard) :=
        ⟨rfl, rfl⟩
      exact (hquiet.trans (hmark.trans (quiet_invalidateDescendants _ _))).extends
  next checked hchecked =>
    rw [hchecked] at hquiet
    split
    next parent hparent =>
      exact hquiet.extends.trans
        (extends_executePayload node outside _ _ _ (get_of_header_eq_some hparent))
    · exact hquiet.extends.trans (extends_withoutParent node outside _ _)

theorem extends_newPayloadInternalInner (engine : Engine) (block : Block)
    (expected : Option (List B256)) (beaconRoot : Option B256) :
    Extends genesis engine
      (newPayloadInternalInner node outside engine block expected beaconRoot).2 := by
  unfold newPayloadInternalInner
  dsimp only
  split
  · exact extends_rejectSoft _ _ _ _
  · split
    · unfold rejectBody
      split
      · split
        · exact .refl
        · exact extends_rejectHard _ _ _ _
      · exact extends_rejectHard _ _ _ _
    · split
      · exact extends_rejectSoft _ _ _ _
      · exact extends_importChild node outside _ _

/-- A child that is still waiting is tried, and then the others are. -/
theorem exists_revalidateChildren_cons {engine : Engine} {child : B256} {block : Block}
    (hblock : engine.blockTree.getBlock child = some block) (rest stack : List B256) :
    ∃ stack', revalidateChildren node outside engine (child :: rest) stack =
      revalidateChildren node outside (newPayloadInternalInner node outside
        { engine with blockTree := engine.blockTree.removeBlock child } block none none).2 rest
        stack' := by
  rw [revalidateChildren]
  simp only [hblock]
  split
  next himported => exact ⟨_, by rw [himported]⟩
  next himported => exact ⟨_, by rw [himported]⟩

/-- Along the children that waited, by induction on their list. -/
theorem extends_revalidateChildren (engine : Engine) (children stack : List B256) :
    Extends genesis engine (revalidateChildren node outside engine children stack).1 := by
  induction children generalizing engine stack with
  | nil => exact .refl
  | cons child rest ih =>
      cases hblock : engine.blockTree.getBlock child with
      | none =>
          rw [revalidateChildren, hblock]
          exact ih _ _
      | some block =>
          obtain ⟨stack', hrest⟩ :=
            exists_revalidateChildren_cons node outside hblock rest stack
          rw [hrest]
          have hdetach : Extends genesis engine
            { engine with blockTree := engine.blockTree.removeBlock child } := .of_eq rfl rfl
          exact (hdetach.trans
            (extends_newPayloadInternalInner node outside _ block none none)).trans (ih _ _)

theorem extends_revalidateLoop (rounds : Nat) (engine : Engine) (stack : List B256) :
    Extends genesis engine (revalidateLoop node outside rounds engine stack) := by
  induction rounds generalizing engine stack with
  | zero => exact .refl
  | succ rounds ih =>
      cases stack with
      | nil => exact .refl
      | cons parentHash stack =>
          rw [revalidateLoop]
          have hdetach : Extends genesis engine
            { engine with blockTree := engine.blockTree.removeChildren parentHash } :=
            .of_eq rfl rfl
          exact (hdetach.trans (extends_revalidateChildren node outside _ _ _)).trans (ih _ _)

/-- A call of `new_payload_internal` only makes the chain grow. -/
theorem extends_newPayloadInternal (engine : Engine) (block : Block) (expectedBlockHash : B256)
    (expected : Option (List B256)) (beaconRoot : Option B256) :
    Extends genesis engine (engine.newPayloadInternal node outside block expectedBlockHash expected
      beaconRoot).2 := by
  unfold newPayloadInternal
  dsimp only
  split
  · split
    · exact .refl
    · exact .of_eq rfl rfl
  · split
    · exact extends_rejectSoft _ _ _ _
    · exact extends_rejectSoft _ _ _ _
    · split
      · exact .refl
      · unfold importNew
        dsimp only
        split
        · exact .refl
        · split
          · exact .of_eq rfl rfl
          · exact .of_eq rfl rfl
          · have hinner : Extends genesis engine _ :=
              extends_newPayloadInternalInner node outside engine block expected beaconRoot
            split
            next status imported himported =>
              rw [himported] at hinner
              dsimp only
              split
              · exact hinner.trans (extends_revalidateLoop node outside _ _ _)
              · exact hinner
            next error imported himported =>
              rw [himported] at hinner
              exact hinner

end Steps

end Engine

end WasixEth
