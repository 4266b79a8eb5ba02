import WasixEth.Engine.Duties

/-! # Tasks do their duty

What every step of an import does to the blocks that wait, and to the duty of
its task.
-/

namespace WasixEth.Concurrent

open Storage Protocol Coroutine

section Tasks

variable [BlockHashing] {blocks : Set Block} {duty duty' : Duty} {α β : Type}

/-! ## Single steps -/

section Steps

/-- A step that leaves the block tree and the stored headers alone. -/
theorem discharges_of_same {before after : Shared}
    (htree : after.engine.blockTree = before.engine.blockTree)
    (hheaders : after.engine.chain.headers = before.engine.chain.headers)
    (htd : after.engine.chain.headerTd = before.engine.chain.headerTd)
    (hbodies : after.engine.chain.blockBodies = before.engine.chain.blockBodies)
    (hfaults : after.faults = before.faults) : Discharges blocks before duty after duty := by
  have hstored : ∀ hash, after.Stored hash ↔ before.Stored hash := by
    intro hash
    unfold Shared.Stored ChainTables.header
    rw [hheaders]
  have hjudged : ∀ hash, after.Judged hash ↔ before.Judged hash := by
    intro hash
    unfold Shared.Judged
    rw [hstored, htree]
  have hpooled : ∀ hash, after.Pooled hash ↔ before.Pooled hash := by
    intro hash
    unfold Shared.Pooled
    rw [htree]
  have hlinked : ∀ parent child, after.Linked parent child ↔ before.Linked parent child := by
    intro parent child
    unfold Shared.Linked
    rw [htree]
  refine
    { sound := ?_
      stored := fun hash => (hstored hash).mpr
      judged := fun hash => (hjudged hash).mpr
      enters := fun hash block h => .inl (htree ▸ h)
      leaves := fun hash h => .inl ((hpooled hash).mpr h)
      linked := fun parent child h => .inl ((hlinked parent child).mp h)
      unlinked := fun parent child h => .inl ((hlinked parent child).mpr h)
      stores := fun hash h => .inl ((hstored hash).mp h)
      drains := fun _ h => .inl h
      looks := fun _ h => .inl h
      links := fun _ h => .inl h
      decides := fun _ h => .inl h
      owes := fun _ h => .inl h
      knownStored := fun _ h => .inl h
      knownJudged := fun _ h => .inl h }
  intro hsound
  refine ⟨htree ▸ hsound.kept, ?_, ?_, hfaults.trans hsound.faults⟩
  · intro hash h
    rw [htd]
    exact hsound.td hash ((hstored hash).mp h)
  · intro hash h hnonzero
    rw [hbodies] at h
    exact (hstored hash).mpr (hsound.body hash h hnonzero)

/-- A read, and what is known of its answer. -/
theorem follows_look {answer : Shared → α} {Q : α → Prop}
    (h : ∀ shared, shared.Sound blocks → (∀ hash ∈ duty.stored, shared.Stored hash) →
      Q (answer shared)) :
    (dutyProtocol blocks).Follows (fun ghost value => ghost = duty ∧ Q value) duty
      (look answer) :=
  follows_access fun shared ⟨_, hsound, hstored, _⟩ =>
    ⟨duty, discharges_of_same rfl rfl rfl rfl rfl, rfl, h shared hsound hstored⟩

theorem follows_same {answer : Shared → α} {act : Shared → Shared} {point : Point}
    (htree : ∀ shared, (act shared).engine.blockTree = shared.engine.blockTree)
    (hheaders : ∀ shared, (act shared).engine.chain.headers = shared.engine.chain.headers)
    (htd : ∀ shared, (act shared).engine.chain.headerTd = shared.engine.chain.headerTd)
    (hbodies : ∀ shared,
      (act shared).engine.chain.blockBodies = shared.engine.chain.blockBodies)
    (hfaults : ∀ shared, (act shared).faults = shared.faults) :
    (dutyProtocol blocks).Follows (fun ghost _ => ghost = duty) duty
      (access ⟨none, point⟩ answer act) :=
  follows_access fun shared _ => ⟨duty, discharges_of_same (htree shared) (hheaders shared)
    (htd shared) (hbodies shared) (hfaults shared), rfl⟩

/-- A write to the block tree. -/
structure Rearranges (blocks : Set Block) (before : Shared) (duty : Duty) (after : Shared)
    (duty' : Duty) : Prop where
  kept : BlockTree.KeptFrom blocks before.engine.blockTree →
    BlockTree.KeptFrom blocks after.engine.blockTree
  judged : ∀ hash, before.Judged hash → after.Judged hash
  enters : ∀ hash block, after.engine.blockTree.getBlock hash = some block →
    before.engine.blockTree.getBlock hash = some block ∨
      duty'.links = some (block.header.parentHash, hash)
  leaves : ∀ hash, before.Pooled hash →
    after.Pooled hash ∨ after.Judged hash ∨ duty'.decides = some hash
  linked : ∀ parent child, after.Linked parent child →
    before.Linked parent child ∨ ¬ after.Stored parent
  unlinked : ∀ parent child, before.Linked parent child →
    after.Linked parent child ∨ child ∈ duty'.looks
  drains : ∀ parent ∈ duty.drains, parent ∈ duty'.drains ∨ ∀ child, ¬ after.Linked parent child
  looks : ∀ child ∈ duty.looks, child ∈ duty'.looks ∨ ¬ after.Pooled child
  links : ∀ link, duty.links = some link → duty'.links = some link ∨ after.Linked link.1 link.2
  decides : ∀ hash, duty.decides = some hash →
    duty'.decides = some hash ∨ after.Judged hash ∨ after.Pooled hash
  owes : ∀ hash ∈ duty'.owes, hash ∈ duty.owes ∨ after.Pooled hash ∨ after.Judged hash
  stored : duty'.stored = duty.stored
  knownJudged : ∀ hash ∈ duty'.judged, hash ∈ duty.judged ∨ after.Judged hash

theorem Rearranges.discharges {before : Shared} {act : BlockTree → BlockTree}
    (h : Rearranges blocks before duty (before.onTree act) duty') :
    Discharges blocks before duty (before.onTree act) duty' where
  sound hsound := ⟨h.kept hsound.kept, hsound.td, hsound.body, hsound.faults⟩
  stored _ hstored := hstored
  judged := h.judged
  enters := h.enters
  leaves := h.leaves
  linked := h.linked
  unlinked := h.unlinked
  stores _ hstored := .inl hstored
  drains := h.drains
  looks := h.looks
  links := h.links
  decides := h.decides
  owes := h.owes
  knownStored _ hmem := .inl (h.stored ▸ hmem)
  knownJudged := h.knownJudged

/-- The first write of `mark_invalid`. -/
theorem discharges_mark (before : Shared) (duty : Duty) (hash : B256)
    (mark : B256 × InvalidationReason) :
    Discharges blocks before duty (before.onTree fun tree =>
      { tree with invalidBlocks := tree.invalidBlocks.insert hash mark })
      { duty with judged := hash :: duty.judged } := by
  have hreason : ∀ other, (before.engine.blockTree.getInvalidationReason other).isSome ∨
      other = hash → (((before.engine.blockTree.invalidBlocks.insert hash mark).get other).map
        Prod.snd).isSome := by
    intro other h
    rw [Table.get_insert]
    split
    · rfl
    next hne => exact h.resolve_right hne
  apply Rearranges.discharges
  exact
    { kept := fun hkept => ⟨⟨hkept.keyed.block, hkept.keyed.child⟩, hkept.mem⟩
      judged := fun other h => h.imp id fun hmarked => hreason other (.inl hmarked)
      enters := fun _ _ h => .inl h
      leaves := fun _ h => .inl h
      linked := fun _ _ h => .inl h
      unlinked := fun _ _ h => .inl h
      drains := fun _ h => .inl h
      looks := fun _ h => .inl h
      links := fun _ h => .inl h
      decides := fun _ h => .inl h
      owes := fun _ h => .inl h
      stored := rfl
      knownJudged := fun other hmem => (List.mem_cons.mp hmem).symm.imp id fun heq =>
        .inr (hreason other (.inr heq)) }

omit [BlockHashing] in
theorem getBlock_removeBlock (tree : BlockTree) (hash other : B256) :
    (tree.removeBlock hash).getBlock other =
      if other = hash then none else tree.getBlock other := by
  rw [BlockTree.getBlock, BlockTree.removeBlock, Table.get_erase]
  rfl

/-- A block is taken out of the tree by a task that has judged it or will. -/
theorem discharges_removeBlock {before : Shared} {hash : B256}
    (hjudged : before.Pooled hash → before.Judged hash ∨ duty'.decides = some hash)
    (hdrains : duty'.drains = duty.drains) (hlinks : duty'.links = duty.links)
    (hlooks : ∀ child ∈ duty.looks, child ∈ duty'.looks ∨ child = hash)
    (hdecides : ∀ other, duty.decides = some other → duty'.decides = some other ∨
      before.Judged other)
    (howes : duty'.owes = duty.owes) (hstored : duty'.stored = duty.stored)
    (hknown : duty'.judged ⊆ duty.judged) :
    Discharges blocks before duty (before.onTree (·.removeBlock hash)) duty' := by
  have hget : ∀ other, (before.onTree (·.removeBlock hash)).engine.blockTree.getBlock other =
      if other = hash then none else before.engine.blockTree.getBlock other :=
    getBlock_removeBlock before.engine.blockTree hash
  apply Rearranges.discharges
  exact
    { kept := by
        intro hkept
        refine ⟨hkept.keyed.removeBlock hash, ?_⟩
        intro other block h
        rw [hget] at h
        split at h
        · cases h
        · exact hkept.mem h
      judged := fun _ h => h
      enters := by
        intro other block h
        rw [hget] at h
        split at h
        · cases h
        · exact .inl h
      leaves := by
        intro other h
        by_cases heq : other = hash
        · subst heq
          exact .inr (hjudged h)
        · refine .inl ?_
          unfold Shared.Pooled
          rw [hget, if_neg heq]
          exact h
      linked := fun _ _ h => .inl h
      unlinked := fun _ _ h => .inl h
      drains := fun _ h => .inl (hdrains ▸ h)
      looks := by
        intro child hmem
        refine (hlooks child hmem).imp id ?_
        rintro rfl
        unfold Shared.Pooled
        rw [hget, if_pos rfl]
        exact nofun
      links := fun _ h => .inl (hlinks.trans h)
      decides := fun other h => (hdecides other h).imp id .inl
      owes := fun _ h => .inl (howes ▸ h)
      stored := hstored
      knownJudged := fun _ hmem => .inl (hknown hmem) }

/-- The first write of `add_orphan`. -/
theorem discharges_keep (before : Shared) {block : Block} (hblock : block ∈ blocks)
    (hlinks : duty.links = none)
    (hdecides : ∀ hash, duty.decides = some hash → hash = block.hash) :
    Discharges blocks before duty (before.onTree fun tree =>
      { tree with blocks := tree.blocks.insert block.hash block })
      { duty with
        links := some (block.header.parentHash, block.hash)
        decides := none
        owes := block.hash :: duty.owes } := by
  have hget : ∀ other, (before.engine.blockTree.blocks.insert block.hash block).get other =
      if other = block.hash then some block else before.engine.blockTree.getBlock other :=
    fun other => Table.get_insert ..
  have hpooled : (before.onTree fun tree =>
      { tree with blocks := tree.blocks.insert block.hash block }).Pooled block.hash := by
    unfold Shared.Pooled Shared.onTree BlockTree.getBlock
    rw [hget, if_pos rfl]
    rfl
  apply Rearranges.discharges
  exact
    { kept := by
        intro hkept
        have hcases : ∀ hash other, (before.onTree fun tree => { tree with
            blocks := tree.blocks.insert block.hash block }).engine.blockTree.getBlock hash =
              some other →
            (other = block ∧ hash = block.hash) ∨
              before.engine.blockTree.getBlock hash = some other := by
          intro hash other hother
          rw [Shared.onTree, BlockTree.getBlock, hget] at hother
          split at hother
          next heq =>
            cases hother
            exact .inl ⟨rfl, heq⟩
          next => exact .inr hother
        refine ⟨⟨?_, hkept.keyed.child⟩, ?_⟩
        · intro hash other hother
          rcases hcases hash other hother with ⟨rfl, rfl⟩ | hold
          · exact ⟨⟨other, hblock, rfl⟩, rfl⟩
          · exact hkept.keyed.block hold
        · intro hash other hother
          rcases hcases hash other hother with ⟨rfl, -⟩ | hold
          · exact hblock
          · exact hkept.mem hold
      judged := fun _ h => h
      enters := by
        intro hash other hother
        rw [Shared.onTree, BlockTree.getBlock, hget] at hother
        split at hother
        next heq =>
          cases hother
          rw [heq]
          exact .inr rfl
        next => exact .inl hother
      leaves := by
        intro hash h
        refine .inl ?_
        unfold Shared.Pooled Shared.onTree BlockTree.getBlock
        rw [hget]
        split
        · rfl
        · exact h
      linked := fun _ _ h => .inl h
      unlinked := fun _ _ h => .inl h
      drains := fun _ h => .inl h
      looks := fun _ h => .inl h
      links := fun _ h => nomatch hlinks.symm.trans h
      decides := fun hash h => .inr (.inr (hdecides hash h ▸ hpooled))
      owes := by
        intro hash hmem
        rcases List.mem_cons.mp hmem with rfl | hold
        · exact .inr (.inl hpooled)
        · exact .inl hold
      stored := rfl
      knownJudged := fun _ hmem => .inl hmem }

/-- The second write of `add_orphan`, while the parent is not stored. -/
theorem discharges_link {before : Shared} {parent child : B256} (hparent : ¬ before.Stored parent)
    (hlinks : duty.links = some (parent, child))
    (hnames : NamesParent (· ∈ Block.header '' blocks) child parent) :
    Discharges blocks before duty (before.onTree fun tree =>
      { tree with children := tree.children ++ [(parent, child)] })
      { duty with links := none } := by
  have hlinked : ∀ p c, (before.onTree fun tree =>
      { tree with children := tree.children ++ [(parent, child)] }).Linked p c ↔
        before.Linked p c ∨ (p, c) = (parent, child) := by
    intro p c
    unfold Shared.Linked Shared.onTree
    rw [List.mem_append, List.mem_singleton]
  apply Rearranges.discharges
  exact
    { kept := by
        intro hkept
        refine ⟨⟨hkept.keyed.block, ?_⟩, hkept.mem⟩
        intro p c hmem
        rcases (hlinked p c).mp hmem with hold | hnew
        · exact hkept.keyed.child hold
        · cases hnew
          exact hnames
      judged := fun _ h => h
      enters := fun _ _ h => .inl h
      leaves := fun _ h => .inl h
      linked := by
        intro p c h
        refine ((hlinked p c).mp h).imp id ?_
        intro heq
        cases heq
        exact hparent
      unlinked := fun p c h => .inl ((hlinked p c).mpr (.inl h))
      drains := fun _ h => .inl h
      looks := fun _ h => .inl h
      links := by
        intro link h
        cases hlinks.symm.trans h
        exact .inr ((hlinked parent child).mpr (.inr rfl))
      decides := fun _ h => .inl h
      owes := fun _ h => .inl h
      stored := rfl
      knownJudged := fun _ hmem => .inl hmem }

/-- The links below a block are taken. -/
theorem discharges_removeChildren (before : Shared) {parent : B256} {drains : List B256}
    (hdrains : ∀ other ∈ duty.drains, other ∈ drains ∨ other = parent) :
    Discharges blocks before duty (before.onTree (·.removeChildren parent))
      { duty with
        drains
        looks := before.engine.blockTree.getChildren parent ++ duty.looks } := by
  have hlinked : ∀ p c, (before.onTree (·.removeChildren parent)).Linked p c ↔
      before.Linked p c ∧ p ≠ parent := by
    intro p c
    unfold Shared.Linked Shared.onTree BlockTree.removeChildren
    rw [List.mem_filter]
    simp
  apply Rearranges.discharges
  exact
    { kept := fun hkept => ⟨hkept.keyed.removeChildren parent, hkept.mem⟩
      judged := fun _ h => h
      enters := fun _ _ h => .inl h
      leaves := fun _ h => .inl h
      linked := fun p c h => .inl ((hlinked p c).mp h).1
      unlinked := by
        intro p c h
        by_cases heq : p = parent
        · subst heq
          refine .inr (List.mem_append_left _ ?_)
          exact List.mem_map.mpr ⟨(p, c), List.mem_filter.mpr ⟨h, by simp⟩, rfl⟩
        · exact .inl ((hlinked p c).mpr ⟨h, heq⟩)
      drains := by
        intro other hmem
        refine (hdrains other hmem).imp id ?_
        rintro rfl child h
        exact ((hlinked other child).mp h).2 rfl
      looks := fun _ h => .inl (List.mem_append_right _ h)
      links := fun _ h => .inl h
      decides := fun _ h => .inl h
      owes := fun _ h => .inl h
      stored := rfl
      knownJudged := fun _ hmem => .inl hmem }

/-- A stored block loses its mark. -/
theorem discharges_removeInvalid {before : Shared} {hash : B256} (hstored : before.Stored hash) :
    Discharges blocks before duty (before.onTree (·.removeInvalid hash)) duty := by
  apply Rearranges.discharges
  exact
    { kept := fun hkept => ⟨⟨hkept.keyed.block, hkept.keyed.child⟩, hkept.mem⟩
      judged := by
        intro other h
        by_cases heq : other = hash
        · exact .inl (heq ▸ hstored)
        · refine h.imp id ?_
          intro hmarked
          change (((before.engine.blockTree.invalidBlocks.erase hash).get other).map
            Prod.snd).isSome
          rw [Table.get_erase, if_neg heq]
          exact hmarked
      enters := fun _ _ h => .inl h
      leaves := fun _ h => .inl h
      linked := fun _ _ h => .inl h
      unlinked := fun _ _ h => .inl h
      drains := fun _ h => .inl h
      looks := fun _ h => .inl h
      links := fun _ h => .inl h
      decides := fun _ h => .inl h
      owes := fun _ h => .inl h
      stored := rfl
      knownJudged := fun _ hmem => .inl hmem }

theorem headerTd_persistBlock (engine : Engine) (executed : ExecutedBlock) (td : U256) :
    (engine.persistBlock executed td).chain.headerTd =
      engine.chain.headerTd.insert executed.block.hash td := by
  unfold Engine.persistBlock
  dsimp only [ChainTables.insertBlockBody]
  obtain ⟨stored, lookup, htransactions⟩ := ChainTables.exists_insertTransactions _ _ _
  rw [htransactions]
  obtain ⟨receipts, hreceipts⟩ := ChainTables.exists_insertReceipts _ _ _
  rw [hreceipts]
  rfl

/-- The block is stored, and its links will be taken. -/
theorem discharges_persist {before : Shared} {executed : ExecutedBlock} (td : U256)
    (hnonzero : executed.block.hash ≠ B256.zero)
    (hdecides : ∀ hash, duty.decides = some hash → hash = executed.block.hash) :
    Discharges blocks before duty { before with engine := before.engine.persistBlock executed td }
      { duty with
        drains := executed.block.hash :: duty.drains
        decides := none
        stored := executed.block.hash :: duty.stored } := by
  have hstores := Engine.stores_persistBlock before.engine executed td
  have hstored : ∀ hash, ({ before with
      engine := before.engine.persistBlock executed td } : Shared).Stored hash ↔
        before.Stored hash ∨ hash = executed.block.hash := by
    intro hash
    unfold Shared.Stored ChainTables.header
    dsimp only
    rw [hstores.headers, Table.get_insert]
    change (if hash = B256.zero then none else Faults.none.read (if hash = executed.block.hash then
      some executed.block.header else _)).isSome ↔ _
    by_cases heq : hash = executed.block.hash
    · rw [if_pos heq, if_neg (heq ▸ hnonzero)]
      simp [heq]
    · rw [if_neg heq]
      simp [heq]
  have hjudged : ∀ hash, before.Judged hash → ({ before with
      engine := before.engine.persistBlock executed td } : Shared).Judged hash :=
    fun hash h => h.imp (fun h => (hstored hash).mpr (.inl h)) id
  exact
    { sound := by
        intro hsound
        refine ⟨hsound.kept, ?_, ?_, hsound.faults⟩
        · intro hash h
          dsimp only
          rw [headerTd_persistBlock, Table.get_insert]
          split
          · rfl
          next hne => exact hsound.td hash (((hstored hash).mp h).resolve_right hne)
        · intro hash h hne
          dsimp only at h
          rw [hstores.blockBodies, Table.get_insert] at h
          split at h
          next heq => exact (hstored hash).mpr (.inr heq)
          next => exact (hstored hash).mpr (.inl (hsound.body hash h hne))
      stored := fun hash h => (hstored hash).mpr (.inl h)
      judged := hjudged
      enters := fun _ _ h => .inl h
      leaves := fun _ h => .inl h
      linked := fun _ _ h => .inl h
      unlinked := fun _ _ h => .inl h
      stores := by
        intro hash h
        refine ((hstored hash).mp h).imp id ?_
        rintro rfl
        exact List.mem_cons_self
      drains := fun _ h => .inl (List.mem_cons_of_mem _ h)
      looks := fun _ h => .inl h
      links := fun _ h => .inl h
      decides := fun hash h => .inr (.inl (.inl ((hstored hash).mpr (.inr (hdecides hash h)))))
      owes := fun _ h => .inl h
      knownStored := by
        intro hash hmem
        rcases List.mem_cons.mp hmem with heq | hold
        · exact .inr ((hstored hash).mpr (.inr heq))
        · exact .inl hold
      knownJudged := fun _ h => .inl h }

end Steps

/-! ## Parts that leave the duty as it is -/

section Spares

/-- The task ends with the duty it started with. -/
def Spares (blocks : Set Block) (duty : Duty) (task : Async α) : Prop :=
  (dutyProtocol blocks).Follows (fun ghost _ => ghost = duty) duty task

theorem Spares.bind {task : Async α} {rest : α → Async β} {ends : Duty → β → Prop}
    (h : Spares blocks duty task)
    (hrest : ∀ value, (dutyProtocol blocks).Follows ends duty (rest value)) :
    (dutyProtocol blocks).Follows ends duty (task >>= rest) := by
  refine Follows.bind h ?_
  rintro _ value rfl
  exact hrest value

theorem spares_pure (value : α) : Spares blocks duty (pure value : Async α) :=
  follows_pure.mpr rfl

theorem spares_look (answer : Shared → α) : Spares blocks duty (look answer) :=
  follows_same (fun _ => rfl) (fun _ => rfl) (fun _ => rfl) (fun _ => rfl) (fun _ => rfl)

theorem spares_spawn (hash : B256) : Spares blocks duty (spawn hash) :=
  follows_same (fun _ => rfl) (fun _ => rfl) (fun _ => rfl) (fun _ => rfl) (fun _ => rfl)

theorem spares_removePayload (hash : B256) : Spares blocks duty
    (change (fun _ => ()) (Shared.onDatabase (·.removePayload hash))) := by
  have hsame : ∀ shared : Shared, shared.onDatabase (·.removePayload hash) = shared ∨
      shared.onDatabase (·.removePayload hash) =
        { shared with engine := shared.engine.removePayload hash } := by
    intro shared
    unfold Shared.onDatabase
    split
    · exact .inl rfl
    · exact .inr rfl
  refine follows_access fun shared _ => ⟨duty, ?_, rfl⟩
  rcases hsame shared with heq | heq <;>
  · rw [heq]
    exact discharges_of_same rfl rfl rfl rfl rfl

/-- A block is marked, and the duties to decide it or to look at it end. -/
theorem follows_markInvalid (duty' : Duty) (hash parentHash : B256) (reason : InvalidationReason)
    (hdrains : duty'.drains = duty.drains) (hlinks : duty'.links = duty.links)
    (hlooks : ∀ child ∈ duty.looks, child ∈ duty'.looks ∨ child = hash)
    (hdecides : ∀ other, duty.decides = some other → duty'.decides = some other ∨ other = hash)
    (howes : duty'.owes = duty.owes) (hstored : duty'.stored = duty.stored)
    (hknown : duty'.judged ⊆ hash :: duty.judged) :
    (dutyProtocol blocks).Follows (fun ghost _ => ghost = duty') duty
      (markInvalid hash parentHash reason) := by
  refine Follows.bind (Q := fun ghost _ =>
    ghost = { duty with judged := hash :: duty.judged }) ?_ ?_
  · exact follows_access fun shared _ => ⟨_, discharges_mark shared duty hash _, rfl⟩
  · rintro _ _ rfl
    refine follows_access fun shared ⟨_, _, _, hjudged⟩ => ⟨duty', ?_, rfl⟩
    have hhash : shared.Judged hash := hjudged hash List.mem_cons_self
    refine discharges_removeBlock (fun _ => .inl hhash) hdrains hlinks hlooks ?_ howes hstored
      hknown
    intro other hother
    rcases hdecides other hother with hkept | rfl
    · exact .inl hkept
    · exact .inr hhash

theorem spares_markInvalid (hash parentHash : B256) (reason : InvalidationReason) :
    Spares blocks duty (markInvalid hash parentHash reason) :=
  follows_markInvalid duty hash parentHash reason rfl rfl (fun _ h => .inl h) (fun _ h => .inl h)
    rfl rfl (List.subset_cons_self _ _)

theorem composes_spares : Composes fun task => Spares blocks duty task where
  pure := spares_pure
  bind := Spares.bind
  look := spares_look
  spawn := spares_spawn
  markInvalid := spares_markInvalid

end Spares

/-! ## Trying a block -/

section Tries

/-- The block in hand is decided. -/
def Duty.settled (duty : Duty) : Duty := { duty with decides := none }

/-- The block is stored and its links are to be taken. -/
def Duty.afterStoring (duty : Duty) (hash : B256) : Duty :=
  { duty.settled with drains := hash :: duty.drains, stored := hash :: duty.stored }

/-- The block is among those that wait. -/
def Duty.afterKeeping (duty : Duty) (hash : B256) : Duty :=
  { duty.settled with owes := hash :: duty.owes }

/-- A verdict against the block, or none for now. -/
structure Refused (duty ghost : Duty) (answer : Answer) : Prop where
  ghost_eq : ghost = duty.settled
  valid : isValid answer = false
  accepted : ∀ latest, answer ≠ .ok ⟨.accepted, latest⟩

/-- The duty that an answer leaves: the links of a block that is valid are
still to be taken, one that is accepted was put among those that wait, and any
other answer is a verdict. -/
inductive Answered (duty : Duty) (hash : B256) : Duty → Answer → Prop where
  | valid (latest : Option B256) :
      Answered duty hash (duty.afterStoring hash) (.ok ⟨.valid, latest⟩)
  | kept {status : PayloadStatus} (h : status.status ≠ .valid) :
      Answered duty hash (duty.afterKeeping hash) (.ok status)
  | refused {ghost : Duty} {answer : Answer} (h : Refused duty ghost answer) :
      Answered duty hash ghost answer

/-- Execution returns the block as it was given. -/
def ReturnsAsGiven (node : Node) (block : Block) : Prop :=
  ∀ {faults database root executed state},
    node.execution.executeBlockWithStateRoot faults database block root = (.ok executed, state) →
    executed.block = block

/-- The task may try the block: it has no other in hand, and if it took the
block from those that wait then the parent is stored. -/
structure Tries (blocks : Set Block) (duty : Duty) (block : Block) : Prop where
  mem : block ∈ blocks
  links : duty.links = none
  decides : ∀ hash, duty.decides = some hash → hash = block.hash
  parent : duty.decides ≠ none → block.header.parentHash ∈ duty.stored

theorem Tries.settled {block : Block} (h : Tries blocks duty block) :
    Tries blocks duty.settled block :=
  ⟨h.mem, h.links, nofun, fun hnone => absurd rfl hnone⟩

theorem discharges_settled {shared : Shared}
    (h : ∀ hash, duty.decides = some hash → shared.Judged hash) :
    Discharges blocks shared duty shared duty.settled where
  sound := id
  stored _ := id
  judged _ := id
  enters _ _ := .inl
  leaves _ := .inl
  linked _ _ := .inl
  unlinked _ _ := .inl
  stores _ := .inl
  drains _ := .inl
  looks _ := .inl
  links _ := .inl
  decides hash hhash := .inr (.inl (h hash hhash))
  owes _ := .inl
  knownStored _ := .inl
  knownJudged _ := .inl

/-- A read that finds the block in hand judged. -/
theorem follows_look_settled {answer : Shared → Option α}
    (h : ∀ shared, shared.Sound blocks → (answer shared).isSome →
      ∀ hash, duty.decides = some hash → shared.Judged hash) :
    (dutyProtocol blocks).Follows (fun ghost value =>
      ghost = value.elim duty fun _ => duty.settled) duty (look answer) := by
  refine follows_access fun shared ⟨_, hsound, _, _⟩ => ⟨_, ?_, rfl⟩
  cases hanswer : answer shared with
  | none => exact discharges_of_same rfl rfl rfl rfl rfl
  | some value => exact discharges_settled (h shared hsound (by rw [hanswer]; rfl))

variable {block : Block}

theorem follows_invalidStatus (parentHash : B256) (message : String) :
    (dutyProtocol blocks).Follows (Refused duty) duty.settled
      (invalidStatus parentHash message) :=
  (spares_look _).bind fun _ => follows_pure.mpr ⟨rfl, rfl, nofun⟩

/-- The block in hand is marked. -/
theorem Tries.markInvalid (h : Tries blocks duty block) (parentHash : B256)
    (reason : InvalidationReason) :
    (dutyProtocol blocks).Follows (fun ghost _ => ghost = duty.settled) duty
      (markInvalid block.hash parentHash reason) :=
  follows_markInvalid duty.settled block.hash parentHash reason rfl rfl (fun _ hmem => .inl hmem)
    (fun other hother => .inr (h.decides other hother)) rfl rfl (List.subset_cons_self _ _)

theorem Tries.rejectHard (h : Tries blocks duty block) (parentHash : B256) (message : String) :
    (dutyProtocol blocks).Follows (Refused duty) duty
      (rejectHard block.hash parentHash message) := by
  refine Follows.bind (h.markInvalid parentHash .hard) ?_
  rintro _ _ rfl
  exact (spares_removePayload _).bind fun _ => follows_invalidStatus _ _

theorem Tries.judged_of_body (h : Tries blocks duty block) (hapart : HashesApart blocks)
    {shared : Shared} (hsound : shared.Sound blocks)
    (hbody : (shared.engine.chain.blockBodyByHash shared.faults block.hash).isSome) {hash : B256}
    (hhash : duty.decides = some hash) : shared.Judged hash := by
  rw [h.decides hash hhash]
  rw [hsound.faults] at hbody
  exact .inl (hsound.body _ hbody (hapart.nonzero _ h.mem))

theorem Tries.rejectSoft (h : Tries blocks duty block) (hapart : HashesApart blocks)
    (parentHash : B256) (message : String) :
    (dutyProtocol blocks).Follows (Refused duty) duty
      (rejectSoft block.hash parentHash message) := by
  refine Follows.bind (follows_look_settled ?_) ?_
  · intro shared hsound hbody hash hhash
    exact h.judged_of_body hapart hsound hbody hhash
  · rintro _ body rfl
    cases body with
    | none =>
        refine Follows.bind (h.markInvalid parentHash .soft) ?_
        rintro _ _ rfl
        exact follows_invalidStatus _ _
    | some body => exact follows_invalidStatus _ _

theorem Tries.rejectBody (h : Tries blocks duty block) (message : String) :
    (dutyProtocol blocks).Follows (Refused duty) duty (rejectBody block message) := by
  refine Follows.bind (follows_look_settled ?_) ?_
  · intro shared hsound hheader hash hhash
    rw [h.decides hash hhash]
    rw [hsound.faults] at hheader
    exact .inl hheader
  · rintro _ found rfl
    cases found with
    | none => exact h.rejectHard _ _
    | some existing =>
        dsimp only [Option.elim]
        split
        · exact follows_invalidStatus _ _
        · exact (h.settled.rejectHard _ _).mono fun _ _ hrefused =>
            ⟨hrefused.ghost_eq, hrefused.valid, hrefused.accepted⟩

/-- The block is put among those that wait. -/
theorem Tries.addOrphan (h : Tries blocks duty block) :
    (dutyProtocol blocks).Follows (fun ghost _ => ghost = duty.afterKeeping block.hash) duty
      (addOrphan block.header.parentHash block) := by
  refine Follows.bind (Q := fun ghost _ => ghost = { duty.afterKeeping block.hash with
    links := some (block.header.parentHash, block.hash) }) ?_ ?_
  · exact follows_access fun shared _ =>
      ⟨_, discharges_keep shared h.mem h.links h.decides, rfl⟩
  · rintro _ _ rfl
    refine follows_access fun shared ⟨hunstored, _⟩ =>
      ⟨_, discharges_link hunstored rfl ⟨block.header, ⟨block, h.mem, rfl⟩, rfl, rfl⟩, ?_⟩
    have hlinks := h.links
    obtain ⟨⟩ := duty
    cases hlinks
    rfl

omit [BlockHashing] in
theorem Duty.settled_eq (h : duty.decides = none) : duty.settled = duty := by
  obtain ⟨⟩ := duty
  cases h
  rfl

/-- Reading the difficulty of a parent that is stored does not fail. -/
theorem Tries.parentTd (h : Tries blocks duty block) {shared : Shared}
    (hsound : shared.Sound blocks) (hstored : ∀ hash ∈ duty.stored, shared.Stored hash)
    (hdecides : duty.decides ≠ none) : ∃ td, shared.parentTd block.header = .ok td := by
  unfold Shared.parentTd
  split
  · exact ⟨0, rfl⟩
  · rw [hsound.faults, if_neg (by decide)]
    obtain ⟨td, htd⟩ := Option.isSome_iff_exists.mp
      (hsound.td _ (hstored _ (h.parent hdecides)))
    rw [htd]
    exact ⟨td, rfl⟩

variable [Proofs]

theorem Tries.storeExecuted (h : Tries blocks duty block) (hapart : HashesApart blocks)
    (parentHash : B256) {executed : ExecutedBlock} (hsame : executed.block = block) :
    (dutyProtocol blocks).Follows (Answered duty block.hash) duty
      (storeExecuted block.hash parentHash executed) := by
  subst hsame
  unfold Concurrent.storeExecuted
  split
  · exact (h.rejectHard _ _).mono fun _ _ => .refused
  · refine Follows.bind (follows_look (Q := fun value =>
      duty.decides ≠ none → ∃ td, value = .ok td) fun _ => h.parentTd) ?_
    rintro duty td ⟨rfl, htd⟩
    split
    next error =>
      have hnone : duty.decides = none := by
        by_contra hdecides
        obtain ⟨td, htd⟩ := htd hdecides
        cases htd
      exact follows_pure.mpr (.refused ⟨(Duty.settled_eq hnone).symm, rfl, nofun⟩)
    next td =>
      refine Follows.bind (Q := fun ghost failed =>
        failed = false ∧ ghost = duty.afterStoring executed.block.hash) ?_ ?_
      · refine follows_access fun shared ⟨_, hsound, _, _⟩ => ⟨_, ?_, ?_, rfl⟩
        · have hwrites : shared.onDatabase (·.persistBlock executed
              (td + executed.block.header.difficulty)) = { shared with
                engine := shared.engine.persistBlock executed
                  (td + executed.block.header.difficulty) } := by
            unfold Shared.onDatabase
            rw [hsound.faults]
            rfl
          change Discharges blocks shared duty (shared.onDatabase _) _
          rw [hwrites]
          exact discharges_persist _ (hapart.nonzero _ h.mem) h.decides
        · rw [hsound.faults]
          rfl
      · rintro _ failed ⟨rfl, rfl⟩
        rw [if_neg (by decide)]
        refine Follows.bind (Q := fun ghost _ =>
          ghost = duty.afterStoring executed.block.hash) ?_ ?_
        · exact follows_access fun shared ⟨_, _, hstored, _⟩ =>
            ⟨_, discharges_removeInvalid (hstored _ List.mem_cons_self), rfl⟩
        · rintro _ _ rfl
          exact follows_pure.mpr (.valid _)

variable {node : Node}

omit [Proofs] in
theorem follows_execute (hreturns : ReturnsAsGiven node block) (stateRoot : B256) :
    (dutyProtocol blocks).Follows (fun ghost result => ghost = duty ∧
      ∀ executed, result = .ok executed → executed.block = block) duty
      (execute node block stateRoot) := by
  refine follows_access fun shared _ =>
    ⟨duty, discharges_of_same rfl rfl rfl rfl rfl, rfl, ?_⟩
  intro executed hexecuted
  exact hreturns (Prod.ext hexecuted rfl)

theorem Tries.executePayload (h : Tries blocks duty block) (hapart : HashesApart blocks)
    (hreturns : ReturnsAsGiven node block) (parent : Header) :
    (dutyProtocol blocks).Follows (Answered duty block.hash) duty
      (executePayload node block parent) := by
  refine (spares_look _).bind fun valid => ?_
  split
  · exact (h.rejectHard _ _).mono fun _ _ => .refused
  · refine Follows.bind (follows_execute hreturns _) ?_
    rintro _ result ⟨rfl, hresult⟩
    split
    · exact (h.rejectHard _ _).mono fun _ _ => .refused
    next executed => exact h.storeExecuted hapart _ (hresult executed rfl)

theorem Tries.withoutParent (h : Tries blocks duty block) (hdecides : duty.decides = none) :
    (dutyProtocol blocks).Follows (Answered duty block.hash) duty (withoutParent node block) := by
  have hsyncing : (dutyProtocol blocks).Follows (Answered duty block.hash) duty
      (pure (.ok ⟨.syncing, none⟩) : Async Answer) :=
    follows_pure.mpr (.refused ⟨(Duty.settled_eq hdecides).symm, rfl, nofun⟩)
  refine (spares_look _).bind fun busy => ?_
  split
  · exact hsyncing
  · refine (composes_spares.getHeaderFromAnywhere _).bind fun found => ?_
    split
    · exact hsyncing
    · refine (spares_look _).bind fun valid => ?_
      split
      · refine Follows.bind (h.markInvalid _ .hard) ?_
        rintro _ _ rfl
        exact (follows_invalidStatus _ _).mono fun _ _ => .refused
      · refine Follows.bind h.addOrphan ?_
        rintro _ _ rfl
        exact follows_pure.mpr (.kept nofun)

theorem Tries.importBelow (h : Tries blocks duty block) (hapart : HashesApart blocks)
    (hreturns : ReturnsAsGiven node block) :
    (dutyProtocol blocks).Follows (Answered duty block.hash) duty (importBelow node block) := by
  have hread : ∀ shared : Shared, shared.Sound blocks →
      (∀ hash ∈ duty.stored, shared.Stored hash) → duty.decides ≠ none →
      (shared.engine.chain.header shared.faults block.header.parentHash).isSome := by
    intro shared hsound hstored hdecides
    rw [hsound.faults]
    exact hstored _ (h.parent hdecides)
  refine Follows.bind (follows_look (Q := fun value => duty.decides ≠ none → value.isSome)
    hread) ?_
  rintro _ found ⟨rfl, hfound⟩
  split
  · exact h.executePayload hapart hreturns _
  · refine h.withoutParent ?_
    by_contra hdecides
    cases hfound hdecides

theorem Tries.importChild (h : Tries blocks duty block) (hapart : HashesApart blocks)
    (hreturns : ReturnsAsGiven node block) :
    (dutyProtocol blocks).Follows (Answered duty block.hash) duty (importChild node block) := by
  refine (composes_spares.validateParentBlock _).bind fun found => ?_
  split
  · exact h.importBelow hapart hreturns
  next status =>
    have hkeep : ∀ h' : status.status ≠ .valid, (dutyProtocol blocks).Follows
        (Answered duty block.hash) duty (do
          Concurrent.addOrphan block.header.parentHash block
          pure (.ok status) : Async Answer) := by
      intro hvalid
      refine Follows.bind h.addOrphan ?_
      rintro _ _ rfl
      exact follows_pure.mpr (.kept hvalid)
    split
    next hstatus => exact hkeep (by rw [hstatus]; exact nofun)
    next hstatus => exact hkeep (by rw [hstatus]; exact nofun)
    · exact h.importBelow hapart hreturns
    · refine Follows.bind (h.markInvalid _ .hard) ?_
      rintro _ _ rfl
      exact (spares_spawn _).bind fun _ =>
        (follows_invalidStatus _ _).mono fun _ _ => .refused

theorem Tries.newPayloadInternalInner (h : Tries blocks duty block) (hapart : HashesApart blocks)
    (hreturns : ReturnsAsGiven node block) (expected : Option (List B256))
    (beaconRoot : Option B256) :
    (dutyProtocol blocks).Follows (Answered duty block.hash) duty
      (newPayloadInternalInner node block expected beaconRoot) := by
  refine Follows.relabel (fun _ _ _ => id) (fun _ _ _ _ _ => id) ?_
  refine (spares_look _).bind fun _ => ?_
  split
  · exact (h.rejectSoft hapart _ _).mono fun _ _ => .refused
  · refine (spares_look _).bind fun body => ?_
    split
    · exact (h.rejectBody _).mono fun _ _ => .refused
    · split
      · exact (h.rejectSoft hapart _ _).mono fun _ _ => .refused
      · exact h.importChild hapart hreturns

end Tries

end Tasks

end WasixEth.Concurrent
