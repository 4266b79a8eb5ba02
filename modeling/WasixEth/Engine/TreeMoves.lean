import Mathlib.Logic.Relation
import WasixEth.Engine.Importing

/-! # What an import does to the block tree

Every change of the block tree in a call of `new_payload_internal` is one of a
few moves. A block gets a `Hard` mark because it failed a check, because a
block before it has one, or because the search through the blocks before it
took a `Soft` mark for one.
-/

namespace WasixEth

open Storage Relation

variable [BlockHashing]

section Keyed

variable (seen : Header → Prop)

/-- A header that was seen has this hash and names this parent. -/
def NamesParent (hash parent : B256) : Prop :=
  ∃ header, seen header ∧ hashSlow header = hash ∧ header.parentHash = parent

/-- Following the parents leads from the first block to the second. -/
def DescendsFrom : B256 → B256 → Prop := ReflTransGen (NamesParent seen)

/-- Blocks are kept under their own hash, and below the parent they name. -/
structure BlockTree.Keyed (tree : BlockTree) : Prop where
  block : ∀ {hash block}, tree.getBlock hash = some block →
    seen block.header ∧ block.hash = hash
  child : ∀ {parent child}, (parent, child) ∈ tree.children → NamesParent seen child parent

/-- Headers are kept under their own hash. -/
structure Storage.ChainTables.Keyed (tables : ChainTables) : Prop where
  header : ∀ {hash header}, tables.headers.get hash = some header →
    seen header ∧ hashSlow header = hash
  payload : ∀ entry ∈ tables.payloads, seen entry.2.block.header

end Keyed

namespace BlockTree.Keyed

variable {seen : Header → Prop} {tree : BlockTree}

theorem removeBlock (h : tree.Keyed seen) (hash : B256) : (tree.removeBlock hash).Keyed seen := by
  refine ⟨?_, h.child⟩
  intro other block hother
  rw [getBlock, BlockTree.removeBlock, Table.get_erase] at hother
  split at hother
  · cases hother
  · exact h.block hother

theorem markInvalid (h : tree.Keyed seen) (hash parent : B256) (reason : InvalidationReason) :
    (tree.markInvalid hash parent reason).Keyed seen :=
  ⟨(h.removeBlock hash).block, h.child⟩

theorem removeChildren (h : tree.Keyed seen) (parent : B256) :
    (tree.removeChildren parent).Keyed seen :=
  ⟨h.block, fun hmem => h.child (List.mem_of_mem_filter hmem)⟩

end BlockTree.Keyed

namespace Engine

/-- One run of `new_payload_internal_inner`: what it finds outside, the engine
it starts from and the block. -/
structure Attempt where
  outside : Outside
  engine : Engine
  block : Block

variable [Proofs] (node : Node) (seen : Header → Prop)

/-- A check that does not depend on the arguments of the call fails for the
block with this hash. -/
inductive Fails (attempt : Attempt) : B256 → Prop where
  | body {message : String}
      (h : EthConsensus.validateBody node.config attempt.engine.chain.headerTd attempt.block =
        .error message) : Fails attempt attempt.block.hash
  | header {header parent : Header} {message : String} (hheader : seen header)
      (hseen : seen parent) (hparent : hashSlow parent = header.parentHash)
      (h : attempt.engine.validateHeader node attempt.outside header parent = .error message) :
      Fails attempt (hashSlow header)
  | execution {parent : Header} {message : String} (hseen : seen parent)
      (hparent : hashSlow parent = attempt.block.header.parentHash)
      (h : (node.execution.executeBlockWithStateRoot Faults.none attempt.engine.database
        attempt.block (some parent.stateRoot)).1 = .error message) :
      Fails attempt attempt.block.hash
  | postExecution {parent : Header} {executed : ExecutedBlock} {message : String}
      (hseen : seen parent) (hparent : hashSlow parent = attempt.block.header.parentHash)
      (hexecuted : (node.execution.executeBlockWithStateRoot Faults.none attempt.engine.database
        attempt.block (some parent.stateRoot)).1 = .ok executed)
      (h : validateExecuted executed = .error message) : Fails attempt attempt.block.hash

/-- The first marked block that the search through the blocks before this one
meets is marked `Hard`. -/
structure SoftFree (attempt : Attempt) : Prop where
  hard : ∀ hash, attempt.engine.invalidAncestor 64 attempt.block.header.parentHash = some hash →
    attempt.engine.blockTree.getInvalidationReason hash = some .hard
  zero : attempt.engine.blockTree.getInvalidationReason B256.zero ≠ some .soft

/-- A single change of the block tree. -/
inductive Move (attempt : Attempt) : BlockTree → BlockTree → Prop where
  | soft (tree : BlockTree) : Move attempt tree
      (tree.markInvalid attempt.block.hash attempt.block.header.parentHash .soft)
  | failed {hash : B256} (hfails : Fails node seen attempt hash) (parent : B256) (tree : BlockTree) :
      Move attempt tree (tree.markInvalid hash parent .hard)
  | inherited {hash ancestor : B256} {tree : BlockTree} (hpath : DescendsFrom seen hash ancestor)
      (hhard : tree.getInvalidationReason ancestor = some .hard) (parent : B256) :
      Move attempt tree (tree.markInvalid hash parent .hard)
  | blamed (hsoft : ¬ SoftFree attempt) (hash parent : B256) (tree : BlockTree) :
      Move attempt tree (tree.markInvalid hash parent .hard)
  | orphan {block : Block} (hseen : seen block.header) (tree : BlockTree) :
      Move attempt tree (tree.addOrphan block.header.parentHash block)
  | cleared (hash : B256) (tree : BlockTree) : Move attempt tree (tree.removeInvalid hash)
  | detached (parent : B256) (tree : BlockTree) : Move attempt tree (tree.removeChildren parent)
  | dropped (hash : B256) (tree : BlockTree) : Move attempt tree (tree.removeBlock hash)

def TreeMoves (attempt : Attempt) : BlockTree → BlockTree → Prop := ReflTransGen
    (Move node seen attempt)

/-- Nothing but the block tree changes. -/
def OnlyTree (before after : Engine) : Prop :=
  after = { before with blockTree := after.blockTree }

/-! ## Marks -/

section Marks

omit [Proofs]

omit [BlockHashing] in
@[simp] theorem getInvalidationReason_markInvalid (tree : BlockTree) (hash parent other : B256)
    (reason : InvalidationReason) :
    (tree.markInvalid hash parent reason).getInvalidationReason other =
      if other = hash then some reason else tree.getInvalidationReason other := by
  unfold BlockTree.getInvalidationReason BlockTree.markInvalid
  rw [Table.get_insert]
  split <;> rfl

omit [BlockHashing] in
/-- A `Hard` mark only adds to the `Hard` ones. -/
theorem hard_markInvalid {tree : BlockTree} {other : B256} (hash parent : B256)
    (h : tree.getInvalidationReason other = some .hard) :
    (tree.markInvalid hash parent .hard).getInvalidationReason other = some .hard := by
  rw [getInvalidationReason_markInvalid]
  split
  · rfl
  · exact h

end Marks

/-! ## Keys -/

section Keys

variable {node} {seen : Header → Prop} {attempt : Attempt} {tree tree' : BlockTree}

theorem Move.keyed (h : Move node seen attempt tree tree') (hkeyed : tree.Keyed seen) :
    tree'.Keyed seen := by
  cases h with
  | soft => exact hkeyed.markInvalid _ _ _
  | failed => exact hkeyed.markInvalid _ _ _
  | inherited => exact hkeyed.markInvalid _ _ _
  | blamed => exact hkeyed.markInvalid _ _ _
  | @orphan block hseen =>
      refine ⟨?_, ?_⟩
      · intro hash other hother
        rw [BlockTree.getBlock, BlockTree.addOrphan, Table.get_insert] at hother
        split at hother
        next heq =>
          cases hother
          exact ⟨hseen, heq.symm⟩
        next => exact hkeyed.block hother
      · intro parent child hmem
        rcases List.mem_append.mp hmem with hold | hnew
        · exact hkeyed.child hold
        · cases List.mem_singleton.mp hnew
          exact ⟨block.header, hseen, rfl, rfl⟩
  | cleared => exact ⟨hkeyed.block, hkeyed.child⟩
  | detached => exact hkeyed.removeChildren _
  | dropped => exact hkeyed.removeBlock _

theorem TreeMoves.keyed (h : TreeMoves node seen attempt tree tree') (hkeyed : tree.Keyed seen) :
    tree'.Keyed seen := by
  induction h with
  | refl => exact hkeyed
  | tail _ hmove ih => exact hmove.keyed ih

omit [Proofs] in
theorem hash_of_headerOrPayload {tables : ChainTables} (hkeyed : tables.Keyed seen) {hash : B256}
    {header : Header} (h : tables.headerOrPayload Faults.none hash = some header) :
    seen header ∧ hashSlow header = hash := by
  unfold ChainTables.headerOrPayload at h
  rcases Option.or_eq_some_iff.mp h with hheader | ⟨_, hpayload⟩
  · exact hkeyed.header (get_of_header_eq_some hheader)
  · obtain ⟨payload, hfind, rfl⟩ := Option.map_eq_some_iff.mp hpayload
    refine ⟨?_, hash_of_getPayload hfind⟩
    simp only [ChainTables.getPayloadByBlockHash, Faults.part_none, Faults.read_none,
      Option.map_eq_some_iff] at hfind
    obtain ⟨entry, hentry, rfl⟩ := hfind
    exact hkeyed.payload entry (List.mem_of_find?_eq_some hentry)

omit [Proofs] in
/-- A header is known under its own hash. -/
theorem hash_of_getHeader {engine : Engine} (hchain : engine.chain.Keyed seen)
    (htree : engine.blockTree.Keyed seen) {hash : B256} {header : Header}
    (h : engine.getHeaderFromAnywhere Faults.none hash = some header) :
    seen header ∧ hashSlow header = hash := by
  unfold getHeaderFromAnywhere at h
  rcases Option.or_eq_some_iff.mp h with hchainHeader | ⟨_, htreeHeader⟩
  · exact hash_of_headerOrPayload hchain hchainHeader
  · obtain ⟨block, hblock, rfl⟩ := Option.map_eq_some_iff.mp htreeHeader
    exact htree.block hblock

omit [Proofs] in
theorem namesParent_of_getHeader {engine : Engine} (hchain : engine.chain.Keyed seen)
    (htree : engine.blockTree.Keyed seen) {hash : B256} {header : Header}
    (h : engine.getHeaderFromAnywhere Faults.none hash = some header) :
    NamesParent seen hash header.parentHash := by
  obtain ⟨hseen, hhash⟩ := hash_of_getHeader hchain htree h
  exact ⟨header, hseen, hhash, rfl⟩

end Keys

/-! ## Invalidating descendants -/

section Descendants

variable {node} {seen : Header → Prop} {attempt : Attempt}

/-- What a part of an import does: moves of the tree that keep the `Hard`
marks, and nothing else. -/
structure Marks (node : Node) (seen : Header → Prop) (attempt : Attempt)
    (before after : Engine) : Prop where
  moves : TreeMoves node seen attempt before.blockTree after.blockTree
  only : OnlyTree before after
  hard : ∀ hash, before.blockTree.getInvalidationReason hash = some .hard →
    after.blockTree.getInvalidationReason hash = some .hard

omit [BlockHashing] [Proofs] in
theorem OnlyTree.trans {e e' e'' : Engine} (h : OnlyTree e e') (h' : OnlyTree e' e'') :
    OnlyTree e e'' := by
  rw [OnlyTree, h', h]

omit [BlockHashing] [Proofs] in
theorem OnlyTree.chain_eq {e e' : Engine} (h : OnlyTree e e') : e'.chain = e.chain :=
  (congrArg Engine.chain h).trans rfl

theorem Marks.refl (engine : Engine) : Marks node seen attempt engine engine :=
  ⟨.refl, rfl, fun _ h => h⟩

theorem Marks.trans {e e' e'' : Engine} (h : Marks node seen attempt e e')
    (h' : Marks node seen attempt e' e'') : Marks node seen attempt e e'' :=
  ⟨h.moves.trans h'.moves, h.only.trans h'.only, fun hash hhard => h'.hard hash (h.hard hash hhard)⟩

theorem Marks.of_hard {engine : Engine} {hash parent : B256}
    (hmove : Move node seen attempt engine.blockTree
      (engine.blockTree.markInvalid hash parent .hard)) :
    Marks node seen attempt engine (engine.markInvalid hash parent .hard) :=
  ⟨.single hmove, rfl, fun _ h => hard_markInvalid hash parent h⟩

theorem marks_removeBlocks (engine : Engine) (removed : List B256) :
    Marks node seen attempt engine (removed.foldl (fun engine hash =>
      { engine with blockTree := engine.blockTree.removeBlock hash }) engine) := by
  induction removed generalizing engine with
  | nil => exact .refl engine
  | cons hash rest ih =>
      have hdrop : Marks node seen attempt engine
          { engine with blockTree := engine.blockTree.removeBlock hash } :=
        ⟨.single (.dropped hash _), rfl, fun _ h => h⟩
      exact hdrop.trans (ih _)

/-- The children of a `Hard` block become `Hard`. -/
theorem marks_children (engine : Engine) {parent : B256} (children : List B256)
    (hparent : engine.blockTree.getInvalidationReason parent = some .hard)
    (hchildren : ∀ child ∈ children, NamesParent seen child parent) :
    Marks node seen attempt engine
        (children.foldl (fun engine child => engine.markInvalid child parent .hard) engine) ∧
      (∀ child ∈ children, (children.foldl (fun engine child =>
        engine.markInvalid child parent .hard) engine).blockTree.getInvalidationReason child =
          some .hard) ∧
      (children.foldl (fun engine child =>
        engine.markInvalid child parent .hard) engine).blockTree.children =
          engine.blockTree.children := by
  induction children generalizing engine with
  | nil => exact ⟨.refl engine, by simp, rfl⟩
  | cons child rest ih =>
      have hmark : Marks node seen attempt engine (engine.markInvalid child parent .hard) :=
        .of_hard (.inherited (.single (hchildren child List.mem_cons_self)) hparent parent)
      obtain ⟨hrest, hall, hsame⟩ := ih (engine.markInvalid child parent .hard)
        (hmark.hard parent hparent)
        (fun other hmem => hchildren other (List.mem_cons_of_mem _ hmem))
      refine ⟨hmark.trans hrest, ?_, hsame⟩
      intro other hmem
      rcases List.mem_cons.mp hmem with rfl | htail
      · apply hrest.hard
        simp [Engine.markInvalid]
      · exact hall other htail

/-- From `Hard` blocks on the stack the loop makes `Hard` marks only. -/
theorem marks_invalidateLoop (rounds : Nat) (engine : Engine) (stack removed : List B256)
    (hchild : ∀ {parent child}, (parent, child) ∈ engine.blockTree.children →
      NamesParent seen child parent)
    (hstack : ∀ hash ∈ stack, engine.blockTree.getInvalidationReason hash = some .hard) :
    Marks node seen attempt engine (invalidateLoop rounds engine stack removed) := by
  induction rounds generalizing engine stack removed with
  | zero => exact marks_removeBlocks engine removed
  | succ rounds ih =>
      cases stack with
      | nil => exact marks_removeBlocks engine removed
      | cons parent stack =>
          rw [invalidateLoop]
          have hdetach : Marks node seen attempt engine
              { engine with blockTree := engine.blockTree.removeChildren parent } :=
            ⟨.single (.detached parent _), rfl, fun _ h => h⟩
          have hnamed : ∀ child ∈ engine.blockTree.getChildren parent,
              NamesParent seen child parent := by
            intro child hmem
            obtain ⟨link, hlink, rfl⟩ := List.mem_map.mp hmem
            obtain ⟨hmem, heq⟩ := List.mem_filter.mp hlink
            rw [← of_decide_eq_true heq]
            exact hchild hmem
          obtain ⟨hmarks, hall, hsame⟩ : Marks node seen attempt _ _ ∧ _ := marks_children
            { engine with blockTree := engine.blockTree.removeChildren parent }
            (engine.blockTree.getChildren parent) (hstack parent List.mem_cons_self) hnamed
          apply (hdetach.trans hmarks).trans
          apply ih
          · intro other child hmem
            rw [hsame] at hmem
            exact hchild (List.mem_of_mem_filter hmem)
          · intro hash hmem
            rcases List.mem_append.mp hmem with hnew | hold
            · exact hall hash (List.mem_reverse.mp hnew)
            · exact hmarks.hard hash (hstack hash (List.mem_cons_of_mem _ hold))

theorem marks_invalidateDescendants {engine : Engine} (hkeyed : engine.blockTree.Keyed seen)
    {hash : B256} (hhard : engine.blockTree.getInvalidationReason hash = some .hard) :
    Marks node seen attempt engine (engine.invalidateDescendants hash) := by
  apply marks_invalidateLoop
  · exact hkeyed.child
  · intro other hmem
    rw [List.mem_singleton.mp hmem]
    exact hhard

/-- Mark a block `Hard` and then its descendants. -/
theorem marks_invalidate {engine : Engine} (hkeyed : engine.blockTree.Keyed seen)
    {hash parent : B256}
    (hmove : Move node seen attempt engine.blockTree
      (engine.blockTree.markInvalid hash parent .hard)) :
    Marks node seen attempt engine
        ((engine.markInvalid hash parent .hard).invalidateDescendants hash) ∧
      ((engine.markInvalid hash parent .hard).invalidateDescendants
        hash).blockTree.getInvalidationReason hash = some .hard := by
  have hhard : (engine.markInvalid hash parent .hard).blockTree.getInvalidationReason hash =
      some .hard := by
    simp [Engine.markInvalid]
  have hdescendants : Marks node seen attempt (engine.markInvalid hash parent .hard)
      ((engine.markInvalid hash parent .hard).invalidateDescendants hash) :=
    marks_invalidateDescendants (hmove.keyed hkeyed) hhard
  exact ⟨(Marks.of_hard hmove).trans hdescendants, hdescendants.hard hash hhard⟩

end Descendants

/-! ## Acts -/

section Acts

variable (seen : Header → Prop)

/-- What an import does to the tree in one go. Only a block that is marked
because of another one takes the blocks that wait for it along. -/
inductive Act (attempt : Attempt) : BlockTree → BlockTree → Prop where
  | soft (tree : BlockTree) : Act attempt tree
      (tree.markInvalid attempt.block.hash attempt.block.header.parentHash .soft)
  | failed {hash : B256} (hfails : Fails node seen attempt hash) (parent : B256) :
      Act attempt attempt.engine.blockTree
        (attempt.engine.blockTree.markInvalid hash parent .hard)
  | cascade {engine : Engine} {hash parent : B256}
      (hmove : Move node seen attempt engine.blockTree
        (engine.blockTree.markInvalid hash parent .hard)) :
      Act attempt engine.blockTree
        ((engine.markInvalid hash parent .hard).invalidateDescendants hash).blockTree
  | orphan (hseen : seen attempt.block.header) {tree : BlockTree}
      (hparent : tree.getInvalidationReason attempt.block.header.parentHash = none) :
      Act attempt tree (tree.addOrphan attempt.block.header.parentHash attempt.block)
  | cleared (tree : BlockTree) : Act attempt tree (tree.removeInvalid attempt.block.hash)

def Acts (attempt : Attempt) : BlockTree → BlockTree → Prop := ReflTransGen (Act node seen attempt)

variable {node seen} {attempt : Attempt} {tree tree' : BlockTree}

theorem Act.moves (h : Act node seen attempt tree tree') (hkeyed : tree.Keyed seen) :
    TreeMoves node seen attempt tree tree' := by
  cases h with
  | soft => exact .single (.soft _)
  | failed hfails parent => exact .single (.failed hfails parent _)
  | cascade hmove => exact (marks_invalidate hkeyed hmove).1.moves
  | orphan hseen _ => exact .single (.orphan hseen _)
  | cleared => exact .single (.cleared _ _)

theorem Acts.moves (h : Acts node seen attempt tree tree') (hkeyed : tree.Keyed seen) :
    TreeMoves node seen attempt tree tree' := by
  induction h with
  | refl => exact .refl
  | tail _ hact ih => exact ih.trans (hact.moves (ih.keyed hkeyed))

end Acts

/-! ## Checking the blocks before a block -/

section Ancestors

variable {node} {seen : Header → Prop} {attempt : Attempt}

omit [Proofs] in
/-- A search that found nothing found nothing on the way either. -/
theorem invalidAncestor_eq_none {engine : Engine} {steps : Nat} {current : B256} {header : Header}
    (h : engine.invalidAncestor (steps + 1) current = none)
    (hheader : engine.getHeaderFromAnywhere Faults.none current = some header) :
    engine.blockTree.getInvalidationReason current = none ∧
      (header.parentHash = B256.zero ∨ engine.invalidAncestor steps header.parentHash = none) := by
  rw [invalidAncestor] at h
  split at h
  · cases h
  next hmark =>
    refine ⟨Option.not_isSome_iff_eq_none.mp hmark, ?_⟩
    rw [hheader] at h
    dsimp only at h
    split at h
    next hzero => exact .inl hzero
    next => exact .inr h

omit [Proofs] in
theorem getInvalidationReason_of_search {engine : Engine} {steps : Nat} {current : B256}
    (h : engine.invalidAncestor (steps + 1) current = none) :
    engine.blockTree.getInvalidationReason current = none := by
  rw [invalidAncestor] at h
  split at h
  · cases h
  next hmark => exact Option.not_isSome_iff_eq_none.mp hmark

omit [Proofs] in
/-- The search finds a marked block among the blocks before. -/
theorem descendsFrom_of_invalidAncestor {engine : Engine} (hchain : engine.chain.Keyed seen)
    (htree : engine.blockTree.Keyed seen) {steps : Nat} {current hash : B256}
    (h : engine.invalidAncestor steps current = some hash) : DescendsFrom seen current hash := by
  induction steps generalizing current with
  | zero => cases h
  | succ steps ih =>
      rw [invalidAncestor] at h
      split at h
      · cases h
        exact .refl
      next hmark =>
        split at h
        next header hheader =>
          split at h
          · cases h
          · exact .head (namesParent_of_getHeader hchain htree hheader) (ih h)
        next =>
          -- A block without a mark has no recorded parent.
          have hnone := Option.not_isSome_iff_eq_none.mp hmark
          rw [BlockTree.getInvalidationReason, Option.map_eq_none_iff] at hnone
          rw [BlockTree.getInvalidParent, hnone] at h
          cases h

/-- What the check of the ancestors leaves: it waits, a block before this one
is now marked `Hard`, or the search met a `Soft` mark. Only in the second case
has anything changed. -/
structure Checked (node : Node) (seen : Header → Prop) (attempt : Attempt) (current : B256)
    (result : Option PayloadStatus × Engine) : Prop where
  acts : Acts node seen attempt attempt.engine.blockTree result.2.blockTree
  only : OnlyTree attempt.engine result.2
  passed : result.1 = none → result.2 = attempt.engine
  status : ∀ status, result.1 = some status →
    status.status = .accepted ∧ result.2 = attempt.engine ∨
    ¬ (status.status = .syncing ∨ status.status = .accepted) ∧
      ∃ ancestor, DescendsFrom seen current ancestor ∧
        (result.2.blockTree.getInvalidationReason ancestor = some .hard ∨ ¬ SoftFree attempt)

theorem Checked.of_none (current : B256) :
    Checked node seen attempt current (none, attempt.engine) :=
  ⟨.refl, rfl, fun _ => rfl, fun _ h => nomatch h⟩

theorem Checked.of_accepted (current : B256) (latest : Option B256) :
    Checked node seen attempt current (some ⟨.accepted, latest⟩, attempt.engine) := by
  refine ⟨.refl, rfl, fun _ => rfl, ?_⟩
  intro status hstatus
  cases hstatus
  exact .inl ⟨rfl, rfl⟩

theorem Checked.head {current parent : B256} {result : Option PayloadStatus × Engine}
    (h : Checked node seen attempt parent result) (hparent : NamesParent seen current parent) :
    Checked node seen attempt current result where
  acts := h.acts
  only := h.only
  passed := h.passed
  status := by
    intro status hstatus
    rcases h.status status hstatus with haccepted | ⟨hends, ancestor, hpath, hmark⟩
    · exact .inl haccepted
    · exact .inr ⟨hends, ancestor, .head hparent hpath, hmark⟩

/-- By induction on the steps, of which the search before took more. -/
theorem checked_validateAncestors (hchain : attempt.engine.chain.Keyed seen)
    (htree : attempt.engine.blockTree.Keyed seen) (steps : Nat) {further : Nat} {current : B256}
    (hfurther : steps < further)
    (hsearch : attempt.engine.invalidAncestor further current = none) :
    Checked node seen attempt current
      (validateAncestors node attempt.outside steps attempt.engine current) := by
  induction steps generalizing further current with
  | zero => exact .of_none current
  | succ steps ih =>
      obtain ⟨further, rfl⟩ : ∃ n, further = n + 1 := ⟨further - 1, by omega⟩
      rw [validateAncestors]
      split
      · exact .of_none current
      next header hheader =>
        obtain ⟨hseen, hhash⟩ := hash_of_getHeader hchain htree hheader
        have hparent : NamesParent seen current header.parentHash := ⟨header, hseen, hhash, rfl⟩
        obtain ⟨_, hnext⟩ := invalidAncestor_eq_none hsearch hheader
        dsimp only
        split
        next hmark =>
          have hmove : Move node seen attempt attempt.engine.blockTree
              (attempt.engine.blockTree.markInvalid current header.parentHash .hard) := by
            obtain ⟨reason, hreason⟩ := Option.isSome_iff_exists.mp hmark
            cases reason with
            | hard => exact .inherited (.single hparent) hreason _
            | soft =>
                -- The search would have met the parent, unless that is zero.
                rcases hnext with hzero | hnone
                · rw [hzero] at hreason
                  exact .blamed (fun hfree => hfree.zero hreason) _ _ _
                · obtain ⟨n, rfl⟩ : ∃ n, further = n + 1 := ⟨further - 1, by omega⟩
                  rw [getInvalidationReason_of_search hnone] at hreason
                  cases hreason
          obtain ⟨hmarks, hhard⟩ := marks_invalidate htree hmove
          refine ⟨.single (.cascade hmove), hmarks.only, by simp, ?_⟩
          intro status hstatus
          cases hstatus
          exact .inr ⟨by simp, current, .refl, .inl hhard⟩
        next =>
          have hcontinued : Checked node seen attempt current
              (if header.parentHash = B256.zero then (none, attempt.engine)
                else validateAncestors node attempt.outside steps attempt.engine
                  header.parentHash) := by
            split
            · exact .of_none current
            next hzero =>
              have hnone := hnext.resolve_left hzero
              exact (ih (by omega) hnone).head hparent
          split
          · exact hcontinued
          next parent hknown =>
            split
            · exact hcontinued
            next message hinvalid =>
              split
              · have hfails : Fails node seen attempt current := by
                  obtain ⟨hseenParent, hhashParent⟩ := hash_of_getHeader hchain htree hknown
                  rw [← hhash]
                  exact .header hseen hseenParent hhashParent hinvalid
                refine ⟨.single (.failed hfails _), rfl, by simp, ?_⟩
                intro status hstatus
                cases hstatus
                refine .inr ⟨by simp, current, .refl, .inl ?_⟩
                simp [Engine.markInvalid]
              · exact .of_accepted current none

/-- Where the import goes on or waits, the parent is not marked. -/
theorem checked_validateParentBlock (hchain : attempt.engine.chain.Keyed seen)
    (htree : attempt.engine.blockTree.Keyed seen) :
    Checked node seen attempt attempt.block.header.parentHash
        (attempt.engine.validateParentBlock node attempt.outside
          attempt.block.header.parentHash) ∧
      (attempt.engine.blockTree.getInvalidationReason attempt.block.header.parentHash = none ∨
        ∃ status, (attempt.engine.validateParentBlock node attempt.outside
          attempt.block.header.parentHash).1 = some status ∧
          ¬ (status.status = .syncing ∨ status.status = .accepted)) := by
  unfold validateParentBlock
  split
  next hash hsearch =>
    refine ⟨⟨.refl, rfl, fun _ => rfl, ?_⟩, .inr ⟨_, rfl, by simp⟩⟩
    intro status hstatus
    cases hstatus
    refine .inr ⟨by simp, hash, descendsFrom_of_invalidAncestor hchain htree hsearch, ?_⟩
    by_cases hfree : SoftFree attempt
    · exact .inl (hfree.hard hash hsearch)
    · exact .inr hfree
  next hsearch =>
    refine ⟨?_, .inl (getInvalidationReason_of_search hsearch)⟩
    dsimp only
    split
    · exact .of_accepted _ none
    · exact checked_validateAncestors hchain htree 16 (by omega) hsearch

end Ancestors

/-! ## An import -/

section Import

variable {node} {seen : Header → Prop} {attempt : Attempt}

/-- What a part of an import leaves: acts on the tree, and headers under
their own hash as long as those that are stored are seen. -/
structure Imports (node : Node) (seen : Header → Prop) (attempt : Attempt) (after : Engine) :
    Prop where
  acts : Acts node seen attempt attempt.engine.blockTree after.blockTree
  keyed : (∀ header ∈ after.chain.headerLog, seen header) → attempt.engine.chain.Keyed seen →
    after.chain.Keyed seen

/-- The chain tables lose payloads at most. -/
structure Fewer (before after : ChainTables) : Prop where
  headers : after.headers = before.headers
  headerLog : after.headerLog = before.headerLog
  payloads : after.payloads ⊆ before.payloads

omit [BlockHashing] [Proofs] in
theorem Fewer.refl (tables : ChainTables) : Fewer tables tables := ⟨rfl, rfl, List.Subset.refl _⟩

theorem Imports.refl : Imports node seen attempt attempt.engine := ⟨.refl, fun _ h => h⟩

theorem Imports.of_fewer {e e' : Engine} (h : Imports node seen attempt e)
    (htree : Acts node seen attempt e.blockTree e'.blockTree) (hfewer : Fewer e.chain e'.chain) :
    Imports node seen attempt e' where
  acts := h.acts.trans htree
  keyed := by
    intro hlog hkeyed
    rw [hfewer.headerLog] at hlog
    have hbefore := h.keyed hlog hkeyed
    refine ⟨?_, fun entry hmem => hbefore.payload entry (hfewer.payloads hmem)⟩
    rw [hfewer.headers]
    exact hbefore.header

theorem imports_rejectHard {hash : B256} (hfails : Fails node seen attempt hash) (parent : B256)
    (message : String) (state : StateTables) :
    Imports node seen attempt
      ({ attempt.engine with state }.rejectHard hash parent message).2 :=
  Imports.refl.of_fewer (.single (.failed hfails parent))
    ⟨rfl, rfl, fun _ hmem => List.mem_of_mem_filter hmem⟩

theorem imports_rejectSoft (message : String) :
    Imports node seen attempt (attempt.engine.rejectSoft attempt.block.hash
      attempt.block.header.parentHash message).2 := by
  unfold rejectSoft
  dsimp only [invalidStatus]
  split
  · exact Imports.refl.of_fewer (.single (.soft _)) (.refl _)
  · exact .refl

theorem Imports.persistBlock {engine : Engine} (h : Imports node seen attempt engine)
    (executed : ExecutedBlock) (td : U256) :
    Imports node seen attempt (engine.persistBlock executed td) where
  acts := h.acts
  keyed := by
    obtain ⟨hheaders, hheaderLog, _, _, _, hpayloads⟩ := stores_persistBlock engine executed td
    intro hlog hkeyed
    rw [hheaderLog] at hlog
    have hbefore := h.keyed (fun header hmem => hlog header (List.mem_cons_of_mem _ hmem)) hkeyed
    refine ⟨?_, fun entry hmem => hbefore.payload entry (hpayloads hmem)⟩
    intro hash header hget
    rw [hheaders, Table.get_insert] at hget
    split at hget
    next heq =>
      cases hget
      exact ⟨hlog _ List.mem_cons_self, heq.symm⟩
    next => exact hbefore.header hget

theorem imports_storeExecuted {executed : ExecutedBlock} (state : StateTables)
    (hfails : ∀ message, validateExecuted executed = .error message →
      Fails node seen attempt attempt.block.hash) :
    Imports node seen attempt ({ attempt.engine with state }.storeExecuted attempt.block.hash
      attempt.block.header.parentHash executed).2 := by
  have hstate : Imports node seen attempt { attempt.engine with state } :=
    Imports.refl.of_fewer .refl (.refl _)
  unfold storeExecuted
  split
  next message hinvalid => exact imports_rejectHard (hfails message hinvalid) _ _ state
  next =>
    dsimp only
    split
    · exact hstate
    · exact (hstate.persistBlock executed _).of_fewer (.single (.cleared _)) (.refl _)

theorem imports_executePayload (hblock : seen attempt.block.header) {parent : Header}
    (hseen : seen parent) (hparent : hashSlow parent = attempt.block.header.parentHash) :
    Imports node seen attempt
      (attempt.engine.executePayload node attempt.outside attempt.block parent).2 := by
  unfold executePayload
  split
  next message hinvalid =>
    exact imports_rejectHard (.header hblock hseen hparent hinvalid) _ _ attempt.engine.state
  next =>
    split
    next message state hfailed =>
      exact imports_rejectHard (.execution hseen hparent (by rw [hfailed])) _ _ state
    next executed state hexecuted =>
      apply imports_storeExecuted state
      intro message hinvalid
      exact .postExecution hseen hparent (by rw [hexecuted]) hinvalid

theorem imports_withoutParent (hblock : seen attempt.block.header)
    (hchain : attempt.engine.chain.Keyed seen) (htree : attempt.engine.blockTree.Keyed seen)
    (hunmarked : attempt.engine.blockTree.getInvalidationReason attempt.block.header.parentHash =
      none) :
    Imports node seen attempt
      (attempt.engine.withoutParent node attempt.outside attempt.block).2 := by
  unfold withoutParent
  dsimp only
  split
  · exact .refl
  · split
    · exact .refl
    next parent hparent =>
      split
      next message hinvalid =>
        obtain ⟨hseen, hhash⟩ := hash_of_getHeader hchain htree hparent
        have hfails : Fails node seen attempt attempt.block.hash :=
          .header hblock hseen hhash hinvalid
        exact Imports.refl.of_fewer (.single (.failed hfails _)) (.refl _)
      next => exact Imports.refl.of_fewer (.single (.orphan hblock hunmarked)) (.refl _)

theorem imports_importChild (hblock : seen attempt.block.header)
    (hchain : attempt.engine.chain.Keyed seen) (htree : attempt.engine.blockTree.Keyed seen) :
    Imports node seen attempt
      (attempt.engine.importChild node attempt.outside attempt.block).2 := by
  obtain ⟨hchecked, hunmarked⟩ : Checked node seen attempt _ _ ∧ _ :=
    checked_validateParentBlock hchain htree
  unfold importChild
  dsimp only
  split
  next status engine hresult =>
    rw [hresult] at hchecked hunmarked
    rcases hchecked.status status rfl with ⟨haccepted, hsame⟩ | ⟨hends, ancestor, hpath, hmark⟩
    · rw [if_pos (.inr haccepted)]
      have hparent := hunmarked.resolve_right (by
        intro ⟨other, hother, hnot⟩
        cases hother
        exact hnot (.inr haccepted))
      rw [show engine = attempt.engine from hsame]
      exact Imports.refl.of_fewer (.single (.orphan hblock hparent)) (.refl _)
    · rw [if_neg hends]
      have hparent : NamesParent seen attempt.block.hash attempt.block.header.parentHash :=
        ⟨attempt.block.header, hblock, rfl, rfl⟩
      have hmove : Move node seen attempt engine.blockTree (engine.blockTree.markInvalid
          attempt.block.hash attempt.block.header.parentHash .hard) := by
        rcases hmark with hhard | hsoft
        · exact .inherited (.head hparent hpath) hhard _
        · exact .blamed hsoft _ _ _
      have hmarks := (marks_invalidate ((hchecked.acts.moves htree).keyed htree) hmove).1
      refine ⟨hchecked.acts.tail (.cascade hmove), ?_⟩
      intro _ hkeyed
      rw [(hchecked.only.trans hmarks.only).chain_eq]
      exact hkeyed
  next engine hresult =>
    rw [hresult] at hchecked hunmarked
    have hparent := hunmarked.resolve_right (fun ⟨_, hother, _⟩ => nomatch hother)
    rw [show engine = attempt.engine from hchecked.passed rfl]
    split
    next parent hstored =>
      obtain ⟨hseen, hhash⟩ := hchain.header (get_of_header_eq_some hstored)
      exact imports_executePayload hblock hseen hhash
    · exact imports_withoutParent hblock hchain htree hparent

/-- One run of `new_payload_internal_inner`. -/
theorem imports_newPayloadInternalInner (hblock : seen attempt.block.header)
    (hchain : attempt.engine.chain.Keyed seen) (htree : attempt.engine.blockTree.Keyed seen)
    (expected : Option (List B256)) (beaconRoot : Option B256) :
    Imports node seen attempt (newPayloadInternalInner node attempt.outside attempt.engine
      attempt.block expected beaconRoot).2 := by
  unfold newPayloadInternalInner
  dsimp only
  split
  · exact imports_rejectSoft _
  · split
    next message hinvalid =>
      have hreject : Imports node seen attempt (attempt.engine.rejectHard attempt.block.hash
          attempt.block.header.parentHash message).2 :=
        imports_rejectHard (.body hinvalid) _ _ attempt.engine.state
      unfold rejectBody
      split
      · split
        · exact .refl
        · exact hreject
      · exact hreject
    · split
      · exact imports_rejectSoft _
      · exact imports_importChild hblock hchain htree

end Import

end Engine

end WasixEth
