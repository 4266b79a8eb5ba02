import WasixEth.Engine.Attempts

/-! # Blocks that wait for an invalid one

A block that is marked `Hard` because of another block takes along the blocks
that wait for it. A block that fails a check itself does not, nor does one
whose parent is marked `Hard` when the call begins. As long as nothing waits
for those, no block in the pool has a parent that is marked `Hard`.
-/

namespace WasixEth.Engine

open Storage Relation

section Pool

variable [BlockHashing]

/-- A block in the pool is registered as a child of this one. -/
def Awaited (tree : BlockTree) (hash : B256) : Prop :=
  ∃ child ∈ tree.getChildren hash, (tree.getBlock child).isSome

/-- A block in the pool is about to be tried, or it is registered below a
parent which, if it is marked `Hard`, is on the stack. -/
def SettledBut (pending stack : List B256) (tree : BlockTree) : Prop :=
  ∀ hash block, tree.getBlock hash = some block → hash ∈ pending ∨
    (block.header.parentHash, hash) ∈ tree.children ∧
      (tree.getInvalidationReason block.header.parentHash = some .hard →
        block.header.parentHash ∈ stack)

/-- No block in the pool has a parent that is marked `Hard`. -/
def Settled (pending : List B256) (tree : BlockTree) : Prop := SettledBut pending [] tree

variable {pending stack : List B256} {tree tree' : BlockTree}

omit [BlockHashing]

theorem mem_getChildren {tree : BlockTree} {parent child : B256} :
    child ∈ tree.getChildren parent ↔ (parent, child) ∈ tree.children := by
  simp [BlockTree.getChildren]

theorem getBlock_markInvalid (tree : BlockTree) (hash parent other : B256)
    (reason : InvalidationReason) :
    (tree.markInvalid hash parent reason).getBlock other =
      if other = hash then none else tree.getBlock other := rfl

/-- Fewer blocks in the pool and fewer `Hard` marks. -/
theorem SettledBut.mono (h : SettledBut pending stack tree)
    (hblocks : ∀ hash block, tree'.getBlock hash = some block → tree.getBlock hash = some block)
    (hchildren : tree'.children = tree.children)
    (hhard : ∀ hash, tree'.getInvalidationReason hash = some .hard →
      tree.getInvalidationReason hash = some .hard) : SettledBut pending stack tree' := by
  intro hash block hblock
  rcases h hash block (hblocks hash block hblock) with hpending | ⟨hchild, hstack⟩
  · exact .inl hpending
  · exact .inr ⟨by rw [hchildren]; exact hchild, fun hmark => hstack (hhard _ hmark)⟩

theorem SettledBut.markSoft (h : SettledBut pending stack tree) (hash parent : B256) :
    SettledBut pending stack (tree.markInvalid hash parent .soft) := by
  apply h.mono
  · intro other block hblock
    rw [getBlock_markInvalid] at hblock
    split at hblock
    · cases hblock
    · exact hblock
  · rfl
  · intro other hmark
    rw [getInvalidationReason_markInvalid] at hmark
    split at hmark
    · cases hmark
    · exact hmark

/-- The children of a block that is marked `Hard` are left to be dealt with. -/
theorem SettledBut.markHard (h : SettledBut pending stack tree) (hash parent : B256) :
    SettledBut pending (hash :: stack) (tree.markInvalid hash parent .hard) := by
  intro other block hblock
  rw [getBlock_markInvalid] at hblock
  split at hblock
  · cases hblock
  · rcases h other block hblock with hpending | ⟨hchild, hstack⟩
    · exact .inl hpending
    · refine .inr ⟨hchild, ?_⟩
      rw [getInvalidationReason_markInvalid]
      split
      next heq => exact fun _ => heq ▸ List.mem_cons_self
      next => exact fun hmark => List.mem_cons_of_mem _ (hstack hmark)

/-- Nothing is left to be dealt with if nothing waits for the block. -/
theorem Settled.markHard (h : Settled pending tree) {hash : B256} (hawaited : ¬ Awaited tree hash)
    (parent : B256) : Settled pending (tree.markInvalid hash parent .hard) := by
  intro other block hblock
  rcases SettledBut.markHard h hash parent other block hblock with hpending | ⟨hchild, hstack⟩
  · exact .inl hpending
  · refine .inr ⟨hchild, ?_⟩
    intro hmark
    rw [getBlock_markInvalid] at hblock
    split at hblock
    · cases hblock
    · have heq := List.mem_singleton.mp (hstack hmark)
      refine absurd ⟨other, ?_, by rw [hblock]; rfl⟩ hawaited
      rw [mem_getChildren, ← heq]
      exact hchild

/-! ## The loop over the descendants -/

theorem blockTree_markChildren (engine : Engine) (children : List B256) (parent : B256) :
    (children.foldl (fun engine child => engine.markInvalid child parent .hard)
        engine).blockTree.children = engine.blockTree.children ∧
      ∀ hash, (children.foldl (fun engine child => engine.markInvalid child parent .hard)
          engine).blockTree.getBlock hash =
          (if hash ∈ children then none else engine.blockTree.getBlock hash) ∧
        (children.foldl (fun engine child => engine.markInvalid child parent .hard)
          engine).blockTree.getInvalidationReason hash =
          (if hash ∈ children then some .hard
            else engine.blockTree.getInvalidationReason hash) := by
  induction children generalizing engine with
  | nil => simp
  | cons child rest ih =>
      obtain ⟨hchildren, hrest⟩ := ih (engine.markInvalid child parent .hard)
      refine ⟨hchildren, ?_⟩
      intro hash
      obtain ⟨hblock, hreason⟩ := hrest hash
      rw [List.foldl_cons, hblock, hreason]
      dsimp only [Engine.markInvalid]
      rw [getBlock_markInvalid, getInvalidationReason_markInvalid]
      by_cases hmem : hash ∈ rest
      · simp [hmem]
      · simp [hmem]

/-- One round: the children of the block on the stack are marked and put on
the stack themselves. -/
theorem SettledBut.round {engine : Engine} {parent : B256}
    (h : SettledBut pending (parent :: stack) engine.blockTree) :
    SettledBut pending ((engine.blockTree.getChildren parent).reverse ++ stack)
      ((engine.blockTree.getChildren parent).foldl
        (fun (engine : Engine) child => engine.markInvalid child parent .hard)
        { engine with blockTree := engine.blockTree.removeChildren parent }).blockTree := by
  obtain ⟨hchildren, hmarked⟩ := blockTree_markChildren
    { engine with blockTree := engine.blockTree.removeChildren parent }
    (engine.blockTree.getChildren parent) parent
  intro hash block hblock
  rw [(hmarked hash).1] at hblock
  split at hblock
  · cases hblock
  next hnot =>
    rcases h hash block hblock with hpending | ⟨hchild, hstack⟩
    · exact .inl hpending
    · have hne : block.header.parentHash ≠ parent := by
        intro heq
        rw [heq] at hchild
        exact hnot (mem_getChildren.mpr hchild)
      refine .inr ⟨?_, ?_⟩
      · rw [hchildren]
        exact List.mem_filter.mpr ⟨hchild, decide_eq_true hne⟩
      · rw [(hmarked _).2]
        split
        next hmem => exact fun _ => List.mem_append_left _ (List.mem_reverse.mpr hmem)
        next =>
          intro hmark
          exact List.mem_append_right _ ((List.mem_cons.mp (hstack hmark)).resolve_left hne)

/-- The pool loses only blocks that are marked `Hard`, and marks stay. -/
structure LosesMarked (before after : BlockTree) : Prop where
  block : ∀ hash block, before.getBlock hash = some block →
    after.getBlock hash = some block ∨ after.getInvalidationReason hash = some .hard
  hard : ∀ hash, before.getInvalidationReason hash = some .hard →
    after.getInvalidationReason hash = some .hard
  marked : ∀ hash, (before.getInvalidationReason hash).isSome →
    (after.getInvalidationReason hash).isSome

theorem LosesMarked.trans {tree'' : BlockTree} (h : LosesMarked tree tree')
    (h' : LosesMarked tree' tree'') : LosesMarked tree tree'' where
  block := by
    intro hash block hblock
    rcases h.block hash block hblock with hkept | hhard
    · exact h'.block hash block hkept
    · exact .inr (h'.hard hash hhard)
  hard := fun hash hhard => h'.hard hash (h.hard hash hhard)
  marked := fun hash hmarked => h'.marked hash (h.marked hash hmarked)

theorem LosesMarked.markHard (tree : BlockTree) (hash parent : B256) :
    LosesMarked tree (tree.markInvalid hash parent .hard) where
  block := by
    intro other block hblock
    rw [getBlock_markInvalid, getInvalidationReason_markInvalid]
    split
    · exact .inr rfl
    · exact .inl hblock
  hard := fun _ hhard => hard_markInvalid hash parent hhard
  marked := by
    intro other hmarked
    rw [getInvalidationReason_markInvalid]
    split
    · rfl
    · exact hmarked

theorem losesMarked_markChildren (engine : Engine) (children : List B256) (parent : B256) :
    LosesMarked engine.blockTree (children.foldl
      (fun (engine : Engine) child => engine.markInvalid child parent .hard) engine).blockTree := by
  induction children generalizing engine with
  | nil => exact ⟨fun _ _ h => .inl h, fun _ h => h, fun _ h => h⟩
  | cons child rest ih =>
      exact (LosesMarked.markHard _ child parent).trans (ih (engine.markInvalid child parent .hard))

theorem blockTree_removeBlocks (engine : Engine) (removed : List B256) (hash : B256) :
    let after := removed.foldl (fun (engine : Engine) hash =>
      { engine with blockTree := engine.blockTree.removeBlock hash }) engine
    after.blockTree.getInvalidationReason hash = engine.blockTree.getInvalidationReason hash ∧
      after.blockTree.children = engine.blockTree.children ∧
      after.blockTree.getBlock hash =
        if hash ∈ removed then none else engine.blockTree.getBlock hash := by
  induction removed generalizing engine with
  | nil => simp
  | cons other rest ih =>
      obtain ⟨hreason, hchildren, hblock⟩ :=
        ih { engine with blockTree := engine.blockTree.removeBlock other }
      refine ⟨hreason, hchildren, ?_⟩
      rw [List.foldl_cons, hblock]
      dsimp only [BlockTree.getBlock, BlockTree.removeBlock]
      rw [Table.get_erase]
      by_cases hmem : hash ∈ rest
      · simp [hmem]
      · simp [hmem]

/-- Once the stack is empty the blocks that were marked are dropped. -/
theorem settled_removeBlocks {engine : Engine} {removed : List B256}
    (h : Settled pending engine.blockTree)
    (hremoved : ∀ hash ∈ removed,
      engine.blockTree.getInvalidationReason hash = some .hard) :
    let after := removed.foldl (fun (engine : Engine) hash =>
      { engine with blockTree := engine.blockTree.removeBlock hash }) engine
    Settled pending after.blockTree ∧ LosesMarked engine.blockTree after.blockTree := by
  have hafter := blockTree_removeBlocks engine removed
  refine ⟨?_, ?_, ?_, ?_⟩
  · apply h.mono
    · intro hash block hblock
      rw [(hafter hash).2.2] at hblock
      split at hblock
      · cases hblock
      · exact hblock
    · exact (hafter B256.zero).2.1
    · intro hash hmark
      rw [← (hafter hash).1]
      exact hmark
  · intro hash block hblock
    rw [(hafter hash).1, (hafter hash).2.2]
    split
    next hmem => exact .inr (hremoved hash hmem)
    next => exact .inl hblock
  · intro hash hhard
    rw [(hafter hash).1]
    exact hhard
  · intro hash hmarked
    rw [(hafter hash).1]
    exact hmarked

theorem length_removeChildren (tree : BlockTree) (parent : B256) :
    (tree.removeChildren parent).children.length + (tree.getChildren parent).length =
      tree.children.length := by
  simp only [BlockTree.removeChildren, BlockTree.getChildren, List.length_map]
  induction tree.children with
  | nil => rfl
  | cons link rest ih =>
      by_cases heq : link.1 = parent
      · simp [heq] at ih ⊢
        omega
      · simp [heq] at ih ⊢
        omega

/-- With enough rounds the loop settles the tree: every round takes a block
from the stack and turns pairs of the child index into blocks on it. -/
theorem settled_invalidateLoop (rounds : Nat) (engine : Engine) (stack removed : List B256)
    (hrounds : 2 * engine.blockTree.children.length + stack.length ≤ rounds)
    (h : SettledBut pending stack engine.blockTree)
    (hremoved : ∀ hash ∈ removed,
      engine.blockTree.getInvalidationReason hash = some .hard) :
    Settled pending (invalidateLoop rounds engine stack removed).blockTree ∧
      LosesMarked engine.blockTree (invalidateLoop rounds engine stack removed).blockTree := by
  induction rounds generalizing engine stack removed with
  | zero =>
      have hempty : stack = [] := List.length_eq_zero_iff.mp (by omega)
      rw [hempty] at h
      exact settled_removeBlocks h hremoved
  | succ rounds ih =>
      cases stack with
      | nil => exact settled_removeBlocks h hremoved
      | cons parent stack =>
          rw [invalidateLoop]
          have hlength := length_removeChildren engine.blockTree parent
          obtain ⟨hchildren, hmarked⟩ := blockTree_markChildren
            { engine with blockTree := engine.blockTree.removeChildren parent }
            (engine.blockTree.getChildren parent) parent
          have hmarks := losesMarked_markChildren
            { engine with blockTree := engine.blockTree.removeChildren parent }
            (engine.blockTree.getChildren parent) parent
          have hround : LosesMarked engine.blockTree _ := 
            ⟨hmarks.block, hmarks.hard, hmarks.marked⟩
          have hloop := ih _ _ (removed ++ engine.blockTree.getChildren parent) ?_ h.round ?_
          · exact ⟨hloop.1, hround.trans hloop.2⟩
          · rw [hchildren]
            simp only [List.length_append, List.length_reverse, List.length_cons] at hrounds ⊢
            omega
          · intro hash hmem
            rcases List.mem_append.mp hmem with hold | hnew
            · exact hround.hard hash (hremoved hash hold)
            · rw [(hmarked hash).2, if_pos hnew]

/-- Marking a block because of another one settles the tree. -/
theorem Settled.cascade {engine : Engine} (h : Settled pending engine.blockTree)
    (hash parent : B256) :
    Settled pending
        ((engine.markInvalid hash parent .hard).invalidateDescendants hash).blockTree ∧
      LosesMarked engine.blockTree
        ((engine.markInvalid hash parent .hard).invalidateDescendants hash).blockTree := by
  obtain ⟨hsettled, hloses⟩ := settled_invalidateLoop
    (2 * (engine.markInvalid hash parent .hard).blockTree.children.length + 2)
    (engine.markInvalid hash parent .hard) [hash] [] (by simp)
    (SettledBut.markHard h hash parent) (by simp)
  exact ⟨hsettled, (LosesMarked.markHard _ hash parent).trans hloses⟩

end Pool

/-! ## Runs -/

section Runs

variable [BlockHashing] [Proofs] (node : Node)

section Kept

variable (seen : Header → Prop) (all : List Attempt) (before : BlockTree)

/-- Nothing in the pool waits for a block that fails a check. -/
def FailsUnawaited (attempt : Attempt) : Prop :=
  ∀ hash, Fails node seen attempt hash → ¬ Awaited attempt.engine.blockTree hash

/-- A block that was in the pool is still there, is marked, or was tried. -/
def Accounted (tree : BlockTree) : Prop :=
  ∀ hash block, before.getBlock hash = some block → tree.getBlock hash = some block ∨
    (tree.getInvalidationReason hash).isSome ∨ ∃ attempt ∈ all, attempt.block.hash = hash

variable {node seen all before} {attempt : Attempt} {tree tree' : BlockTree}

omit [Proofs] in
theorem Accounted.losesMarked (h : Accounted all before tree) (hloses : LosesMarked tree tree') :
    Accounted all before tree' := by
  intro hash block hblock
  rcases h hash block hblock with hkept | hmarked | htried
  · rcases hloses.block hash block hkept with hkept' | hhard
    · exact .inl hkept'
    · exact .inr (.inl (by rw [hhard]; rfl))
  · exact .inr (.inl (hloses.marked hash hmarked))
  · exact .inr (.inr htried)

omit [Proofs] in
/-- What happens to a block that is tried is accounted for. -/
theorem Accounted.of_tried (h : Accounted all before tree) (hmem : attempt ∈ all)
    (hblock : ∀ hash, hash ≠ attempt.block.hash → tree'.getBlock hash = tree.getBlock hash)
    (hreason : ∀ hash, hash ≠ attempt.block.hash →
      tree'.getInvalidationReason hash = tree.getInvalidationReason hash) :
    Accounted all before tree' := by
  intro hash block hbefore
  by_cases heq : hash = attempt.block.hash
  · exact .inr (.inr ⟨attempt, hmem, heq.symm⟩)
  · rw [hblock hash heq, hreason hash heq]
    exact h hash block hbefore

omit [Proofs] in
theorem Accounted.markInvalid (h : Accounted all before tree) (hash parent : B256)
    (reason : InvalidationReason) : Accounted all before (tree.markInvalid hash parent reason) := by
  intro other block hblock
  rw [getBlock_markInvalid, getInvalidationReason_markInvalid]
  split
  · exact .inr (.inl rfl)
  · exact h other block hblock

/-- One act. -/
theorem Act.settled {pending : List B256} (h : Act node seen attempt tree tree')
    (hmem : attempt ∈ all) (hunawaited : FailsUnawaited node seen attempt)
    (hsettled : Settled pending tree) (haccounted : Accounted all before tree) :
    Settled pending tree' ∧ Accounted all before tree' := by
  cases h with
  | soft => exact ⟨hsettled.markSoft _ _, haccounted.markInvalid _ _ _⟩
  | failed hfails parent =>
      exact ⟨hsettled.markHard (hunawaited _ hfails) parent, haccounted.markInvalid _ _ _⟩
  | @cascade engine hash parent _ =>
      obtain ⟨hsettled', hloses⟩ := Settled.cascade hsettled hash parent
      exact ⟨hsettled', haccounted.losesMarked hloses⟩
  | orphan hseen hparent =>
      refine ⟨?_, ?_⟩
      · intro hash block hblock
        rw [BlockTree.getBlock, BlockTree.addOrphan, Table.get_insert] at hblock
        split at hblock
        next heq =>
          cases hblock
          refine .inr ⟨List.mem_append_right _ (by rw [heq]; exact List.mem_singleton_self _), ?_⟩
          intro hhard
          exact absurd (hparent.symm.trans hhard) (by simp)
        next =>
          rcases hsettled hash block hblock with hpending | ⟨hchild, hstack⟩
          · exact .inl hpending
          · exact .inr ⟨List.mem_append_left _ hchild, hstack⟩
      · apply haccounted.of_tried hmem
        · intro hash hne
          exact Table.get_insert_of_ne _ hne
        · intro hash _
          rfl
  | cleared =>
      have hreason : ∀ hash, hash ≠ attempt.block.hash →
          (tree.removeInvalid attempt.block.hash).getInvalidationReason hash =
            tree.getInvalidationReason hash := by
        intro hash hne
        rw [BlockTree.getInvalidationReason, BlockTree.removeInvalid, Table.get_erase, if_neg hne]
        rfl
      refine ⟨?_, haccounted.of_tried hmem (fun _ _ => rfl) hreason⟩
      refine SettledBut.mono hsettled (fun _ _ h => h) rfl ?_
      intro hash hhard
      by_cases heq : hash = attempt.block.hash
      · rw [BlockTree.getInvalidationReason, BlockTree.removeInvalid, Table.get_erase,
          if_pos heq] at hhard
        cases hhard
      · rw [← hreason hash heq]
        exact hhard

theorem Acts.settled {pending : List B256}
    (h : Acts node seen attempt tree tree') (hmem : attempt ∈ all)
    (hunawaited : FailsUnawaited node seen attempt) (hsettled : Settled pending tree)
    (haccounted : Accounted all before tree) :
    Settled pending tree' ∧ Accounted all before tree' := by
  induction h with
  | refl => exact ⟨hsettled, haccounted⟩
  | tail _ hact ih => exact hact.settled hmem hunawaited ih.1 ih.2

end Kept

end Runs

section Sample

attribute [local instance] keccak keccakHashing keccakProofs

end Sample

end WasixEth.Engine
