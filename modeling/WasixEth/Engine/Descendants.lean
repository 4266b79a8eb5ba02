import WasixEth.Engine.OrphanPool
import WasixEth.Engine.Verdicts

/-! # Descendants of an invalid block

The child index is taken apart while it is walked. Whatever it holds, the walk
comes to an end, and what it marks and drops is what could be reached before.
-/

namespace WasixEth.Engine

open Storage Relation

/-- The index lists one block under another. -/
def Listed (tree : BlockTree) (parent child : B256) : Prop := (parent, child) ∈ tree.children

/-- The descendants of a block are marked and dropped, the index has lost the block
and them, and the rest is as it was. -/
structure Invalidates (start : B256) (tree tree' : BlockTree) : Prop where
  marked : ∀ hash, TransGen (Listed tree) start hash →
    ∃ parent, Listed tree parent hash ∧ ReflTransGen (Listed tree) start parent ∧
      tree'.invalidBlocks.get hash =
        some (if hash = parent then B256.zero else parent, .hard)
  dropped : ∀ hash, TransGen (Listed tree) start hash → tree'.blocks.get hash = none
  detached : ∀ parent, ReflTransGen (Listed tree) start parent → tree'.getChildren parent = []
  kept : ∀ parent, ¬ ReflTransGen (Listed tree) start parent →
    tree'.getChildren parent = tree.getChildren parent
  others : ∀ hash, ¬ TransGen (Listed tree) start hash →
    tree'.invalidBlocks.get hash = tree.invalidBlocks.get hash ∧
      tree'.blocks.get hash = tree.blocks.get hash

/-! ## One round -/

/-- Children are marked one after the other, with the same parent. -/
theorem get_markChildren (engine : Engine) (children : List B256) (parent hash : B256) :
    let after := (children.foldl
      (fun (engine : Engine) child => engine.markInvalid child parent .hard) engine).blockTree
    after.children = engine.blockTree.children ∧
      after.invalidBlocks.get hash =
        (if hash ∈ children then some (if hash = parent then B256.zero else parent, .hard)
        else engine.blockTree.invalidBlocks.get hash) ∧
      after.blocks.get hash =
        (if hash ∈ children then none else engine.blockTree.blocks.get hash) := by
  induction children generalizing engine with
  | nil => simp
  | cons child rest ih =>
      obtain ⟨hchildren, hinvalid, hblocks⟩ := ih (engine.markInvalid child parent .hard)
      refine ⟨hchildren, ?_, ?_⟩
      · rw [List.foldl_cons, hinvalid]
        dsimp only [markInvalid, BlockTree.markInvalid]
        rw [Table.get_insert]
        by_cases hmem : hash ∈ rest
        · simp [hmem]
        · by_cases heq : hash = child
          · simp [heq]
          · simp [hmem, heq]
      · rw [List.foldl_cons, hblocks]
        dsimp only [markInvalid, BlockTree.markInvalid]
        rw [Table.get_erase]
        by_cases hmem : hash ∈ rest
        · simp [hmem]
        · by_cases heq : hash = child
          · simp [heq]
          · simp [hmem, heq]

/-- Where the walk stands: the parents that are done, those on the stack, and the
blocks that are marked. -/
structure Walks (start : B256) (tree : BlockTree) (finished stack removed : List B256)
    (now : BlockTree) : Prop where
  children : now.children = tree.children.filter fun link => link.1 ∉ finished
  fromFinished : ∀ parent ∈ finished, ReflTransGen (Listed tree) start parent
  fromStack : ∀ parent ∈ stack, ReflTransGen (Listed tree) start parent
  started : start ∈ finished ∨ start ∈ stack
  listed : ∀ parent ∈ finished, ∀ child, Listed tree parent child → child ∈ removed
  next : ∀ child ∈ removed, child ∈ finished ∨ child ∈ stack
  marked : ∀ child ∈ removed, ∃ parent ∈ finished, Listed tree parent child ∧
    now.invalidBlocks.get child = some (if child = parent then B256.zero else parent, .hard)
  dropped : ∀ child ∈ removed, now.blocks.get child = none
  others : ∀ hash, hash ∉ removed → now.invalidBlocks.get hash = tree.invalidBlocks.get hash ∧
    now.blocks.get hash = tree.blocks.get hash

theorem walks_start (start : B256) (tree : BlockTree) : Walks start tree [] [start] [] tree where
  children := by simp
  fromFinished _ hmem := absurd hmem List.not_mem_nil
  fromStack parent hmem := List.mem_singleton.mp hmem ▸ .refl
  started := .inr List.mem_cons_self
  listed _ hmem := absurd hmem List.not_mem_nil
  next _ hmem := absurd hmem List.not_mem_nil
  marked _ hmem := absurd hmem List.not_mem_nil
  dropped _ hmem := absurd hmem List.not_mem_nil
  others _ _ := ⟨rfl, rfl⟩

/-- A parent is taken from the stack and its children are put there. -/
theorem Walks.round {start : B256} {tree : BlockTree} {finished stack removed : List B256}
    {engine : Engine} {parent : B256}
    (h : Walks start tree finished (parent :: stack) removed engine.blockTree) :
    Walks start tree (parent :: finished)
      ((engine.blockTree.getChildren parent).reverse ++ stack)
      (removed ++ engine.blockTree.getChildren parent)
      ((engine.blockTree.getChildren parent).foldl
        (fun (engine : Engine) child => engine.markInvalid child parent .hard)
        { engine with blockTree := engine.blockTree.removeChildren parent }).blockTree := by
  have hmarks := get_markChildren
    { engine with blockTree := engine.blockTree.removeChildren parent }
    (engine.blockTree.getChildren parent) parent
  have hreach := h.fromStack parent List.mem_cons_self
  have hchild : ∀ child, child ∈ engine.blockTree.getChildren parent →
      Listed tree parent child ∧ parent ∉ finished := by
    intro child hmem
    have hlink := mem_getChildren.mp hmem
    rw [h.children, List.mem_filter, decide_eq_true_iff] at hlink
    exact hlink
  refine ⟨?_, ?_, ?_, ?_, ?_, ?_, ?_, ?_, ?_⟩
  · rw [(hmarks start).1]
    dsimp only [BlockTree.removeChildren]
    rw [h.children, List.filter_filter]
    congr 1
    funext link
    simp [List.mem_cons, not_or]
  · exact List.forall_mem_cons.mpr ⟨hreach, h.fromFinished⟩
  · intro other hmem
    rcases List.mem_append.mp hmem with hmem | hmem
    · exact hreach.tail (hchild other (List.mem_reverse.mp hmem)).1
    · exact h.fromStack other (List.mem_cons_of_mem _ hmem)
  · rcases h.started with hfinished | hstack
    · exact .inl (List.mem_cons_of_mem _ hfinished)
    · rcases List.mem_cons.mp hstack with rfl | hstack
      · exact .inl List.mem_cons_self
      · exact .inr (List.mem_append_right _ hstack)
  · intro other hmem child hlisted
    by_cases hother : other ∈ finished
    · exact List.mem_append_left _ (h.listed other hother child hlisted)
    · obtain rfl := (List.mem_cons.mp hmem).resolve_right hother
      refine List.mem_append_right _ (mem_getChildren.mpr ?_)
      rw [h.children, List.mem_filter, decide_eq_true_iff]
      exact ⟨hlisted, hother⟩
  · intro child hmem
    rcases List.mem_append.mp hmem with hmem | hmem
    · rcases h.next child hmem with hfinished | hstack
      · exact .inl (List.mem_cons_of_mem _ hfinished)
      · rcases List.mem_cons.mp hstack with rfl | hstack
        · exact .inl List.mem_cons_self
        · exact .inr (List.mem_append_right _ hstack)
    · exact .inr (List.mem_append_left _ (List.mem_reverse.mpr hmem))
  · intro child hmem
    rw [(hmarks child).2.1]
    split
    next hnew => exact ⟨parent, List.mem_cons_self, (hchild child hnew).1, rfl⟩
    next hold =>
      have hremoved := (List.mem_append.mp hmem).resolve_right hold
      obtain ⟨other, hother, hlisted, hmarked⟩ := h.marked child hremoved
      exact ⟨other, List.mem_cons_of_mem _ hother, hlisted, hmarked⟩
  · intro child hmem
    rw [(hmarks child).2.2]
    split
    · rfl
    next hold => exact h.dropped child ((List.mem_append.mp hmem).resolve_right hold)
  · intro hash hnot
    rw [List.mem_append, not_or] at hnot
    rw [(hmarks hash).2.1, (hmarks hash).2.2, if_neg hnot.2, if_neg hnot.2]
    exact h.others hash hnot.1

/-! ## The whole walk -/

theorem invalidBlocks_removeBlocks (engine : Engine) (removed : List B256) :
    (removed.foldl (fun (engine : Engine) hash =>
        { engine with blockTree := engine.blockTree.removeBlock hash })
      engine).blockTree.invalidBlocks = engine.blockTree.invalidBlocks := by
  induction removed generalizing engine with
  | nil => rfl
  | cons hash rest ih => exact ih _

/-- With nothing on the stack, the parents that are done are the block and its
descendants, and the blocks that are marked are the descendants. -/
theorem Walks.closed {start : B256} {tree now : BlockTree} {finished removed : List B256}
    (h : Walks start tree finished [] removed now) :
    (∀ parent, parent ∈ finished ↔ ReflTransGen (Listed tree) start parent) ∧
      ∀ hash, hash ∈ removed ↔ TransGen (Listed tree) start hash := by
  have hfinished : ∀ parent, ReflTransGen (Listed tree) start parent → parent ∈ finished := by
    intro parent hreach
    induction hreach with
    | refl => exact h.started.resolve_right List.not_mem_nil
    | tail _ hlisted ih =>
        exact (h.next _ (h.listed _ ih _ hlisted)).resolve_right List.not_mem_nil
  refine ⟨fun parent => ⟨h.fromFinished parent, hfinished parent⟩, fun hash => ⟨?_, ?_⟩⟩
  · intro hmem
    obtain ⟨parent, hparent, hlisted, -⟩ := h.marked hash hmem
    exact TransGen.tail' (h.fromFinished parent hparent) hlisted
  · intro hreach
    obtain ⟨parent, hparent, hlisted⟩ := TransGen.tail'_iff.mp hreach
    exact h.listed parent (hfinished parent hparent) hash hlisted

theorem Walks.invalidates {start : B256} {tree : BlockTree} {finished removed : List B256}
    {engine : Engine} (h : Walks start tree finished [] removed engine.blockTree) :
    Invalidates start tree (removed.foldl (fun (engine : Engine) hash =>
      { engine with blockTree := engine.blockTree.removeBlock hash }) engine).blockTree := by
  obtain ⟨hfinished, hremoved⟩ := h.closed
  have hafter := blockTree_removeBlocks engine removed
  have hinvalid := invalidBlocks_removeBlocks engine removed
  refine ⟨?_, ?_, ?_, ?_, ?_⟩
  · intro hash hreach
    obtain ⟨parent, hparent, hlisted, hmarked⟩ := h.marked hash ((hremoved hash).mpr hreach)
    rw [hinvalid]
    exact ⟨parent, hlisted, (hfinished parent).mp hparent, hmarked⟩
  · intro hash hreach
    exact (hafter hash).2.2.trans (if_pos ((hremoved hash).mpr hreach))
  · intro parent hreach
    unfold BlockTree.getChildren
    rw [(hafter start).2.1, h.children, List.filter_filter, List.map_eq_nil_iff]
    refine List.filter_eq_nil_iff.mpr fun link _ => ?_
    intro hlink
    rw [Bool.and_eq_true, decide_eq_true_iff, decide_eq_true_iff] at hlink
    exact hlink.2 (hlink.1 ▸ (hfinished parent).mpr hreach)
  · intro parent hreach
    unfold BlockTree.getChildren
    rw [(hafter start).2.1, h.children, List.filter_filter]
    congr 1
    refine List.filter_congr fun link _ => ?_
    by_cases hlink : link.1 = parent
    · have hnot : link.1 ∉ finished := fun hmem => hreach ((hfinished parent).mp (hlink ▸ hmem))
      simp [hlink, hlink ▸ hnot]
    · simp [hlink]
  · intro hash hnot
    have hnotMem : hash ∉ removed := fun hmem => hnot ((hremoved hash).mp hmem)
    rw [hinvalid]
    exact ⟨(h.others hash hnotMem).1,
      ((hafter hash).2.2.trans (if_neg hnotMem)).trans (h.others hash hnotMem).2⟩

/-- Every round takes a parent from the stack and turns its entries in the index
into parents on the stack, so the two together bound the rounds. -/
theorem Walks.loop {start : B256} {tree : BlockTree} {rounds : Nat} {engine : Engine}
    {finished stack removed : List B256}
    (h : Walks start tree finished stack removed engine.blockTree)
    (hrounds : engine.blockTree.children.length + stack.length < rounds) :
    Invalidates start tree (invalidateLoop rounds engine stack removed).blockTree ∧
      ∀ more, invalidateLoop (rounds + more) engine stack removed =
        invalidateLoop rounds engine stack removed := by
  induction rounds generalizing engine finished stack removed with
  | zero => exact absurd hrounds (Nat.not_lt_zero _)
  | succ rounds ih =>
      cases stack with
      | nil =>
          refine ⟨h.invalidates, fun more => ?_⟩
          rw [Nat.succ_add]
          rfl
      | cons parent stack =>
          have hlength := length_removeChildren engine.blockTree parent
          have hchildren := (get_markChildren
            { engine with blockTree := engine.blockTree.removeChildren parent }
            (engine.blockTree.getChildren parent) parent start).1
          obtain ⟨hinvalidates, hmore⟩ := ih h.round (by
            rw [hchildren]
            dsimp only
            rw [List.length_cons] at hrounds
            rw [List.length_append, List.length_reverse]
            omega)
          refine ⟨hinvalidates, fun more => ?_⟩
          rw [Nat.succ_add]
          exact hmore more

/-- The walk comes to an end and its work is exact, whatever the index holds. -/
theorem invalidateDescendants_exact (engine : Engine) (hash : B256) :
    (∀ rounds, engine.blockTree.children.length + 1 < rounds →
      invalidateLoop rounds engine [hash] [] = engine.invalidateDescendants hash) ∧
    OnlyTree engine (engine.invalidateDescendants hash) ∧
    Invalidates hash engine.blockTree (engine.invalidateDescendants hash).blockTree := by
  have hwalks := walks_start hash engine.blockTree
  have hleast : engine.blockTree.children.length + [hash].length <
      engine.blockTree.children.length + 2 := Nat.lt_succ_self _
  have hmore := (hwalks.loop hleast).2
  have hbound : engine.invalidateDescendants hash =
      invalidateLoop (engine.blockTree.children.length + 2) engine [hash] [] := by
    unfold invalidateDescendants
    rw [← hmore engine.blockTree.children.length]
    congr 1
    omega
  refine ⟨?_, onlyTree_invalidateLoop _ _ _ _, ?_⟩
  · intro rounds hrounds
    obtain ⟨more, rfl⟩ := Nat.exists_eq_add_of_le (Nat.succ_le_of_lt hrounds)
    rw [hbound]
    exact hmore more
  · rw [hbound]
    exact (hwalks.loop hleast).1

end WasixEth.Engine
