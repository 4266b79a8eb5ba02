import WasixEth.Engine.Accepted
import WasixEth.Engine.Interleaving

/-! # What a task owes to the blocks that wait

A block that waits for its parent is kept with a link from the parent to it.
The task that stores the parent takes the links and then the blocks, and tries
each of them. What a task has begun and not finished is its duty; the blocks
that wait are accounted for by the links and the duties of all tasks.
-/

namespace WasixEth.Concurrent

open Storage

variable [BlockHashing]

namespace Shared

variable (shared : Shared)

/-- The header is in the database, where the zero hash names no header. -/
def Stored (hash : B256) : Prop := (shared.engine.chain.header Faults.none hash).isSome

/-- The block was stored or marked invalid. -/
def Judged (hash : B256) : Prop :=
  shared.Stored hash ∨ (shared.engine.blockTree.getInvalidationReason hash).isSome

def Pooled (hash : B256) : Prop := (shared.engine.blockTree.getBlock hash).isSome

def Linked (parent child : B256) : Prop := (parent, child) ∈ shared.engine.blockTree.children

end Shared

/-- `drains` has stored blocks whose links will be taken, `looks` children
whose links were taken, `links` a block that is kept and whose link comes next,
and `decides` a block that was taken and is being tried. The rest are facts:
blocks that were kept, stored or judged. -/
structure Duty where
  drains : List B256
  looks : List B256
  links : Option (B256 × B256)
  decides : Option B256
  owes : List B256
  stored : List B256
  judged : List B256

section Protocol

/-- Headers of different blocks have different hashes, none of them zero. -/
structure HashesApart (blocks : Set Block) : Prop where
  injOn : Set.InjOn hashSlow (Block.header '' blocks)
  nonzero : ∀ block ∈ blocks, block.hash ≠ B256.zero

variable (blocks : Set Block)

/-- The blocks in the tree are among these, under their own hash. -/
structure BlockTree.KeptFrom (tree : BlockTree) : Prop where
  keyed : tree.Keyed (· ∈ Block.header '' blocks)
  mem : ∀ {hash block}, tree.getBlock hash = some block → block ∈ blocks

/-- Blocks are kept under their own hash, headers are stored with their total
difficulty and bodies with their header, and no access to the database fails. -/
structure Shared.Sound (shared : Shared) : Prop where
  kept : BlockTree.KeptFrom blocks shared.engine.blockTree
  td : ∀ hash, shared.Stored hash → (shared.engine.chain.headerTd.get hash).isSome
  body : ∀ hash, (shared.engine.chain.blockBodies.get hash).isSome → hash ≠ B256.zero →
    shared.Stored hash
  faults : shared.faults = Faults.none

/-- A block is put below a parent only while that is not stored, and a child
that is taken is not being processed. -/
def RaceFree (place : Place) (shared : Shared) : Prop :=
  match place.point with
  | .access => True
  | .claiming child => child ∉ shared.processing
  | .linking parentHash => ¬ shared.Stored parentHash

instance (place : Place) (shared : Shared) : Decidable (RaceFree place shared) :=
  match h : place.point with
  | .access => .isTrue (by rw [RaceFree, h]; trivial)
  | .claiming child => decidable_of_iff (child ∉ shared.processing) (by rw [RaceFree, h])
  | .linking parentHash => decidable_of_iff
      (¬ (shared.engine.chain.header Faults.none parentHash).isSome)
      (by rw [RaceFree, h]; exact Iff.rfl)

/-- What a step may do to the blocks that wait, and to the duty of its task. -/
structure Discharges (before : Shared) (duty : Duty) (after : Shared) (duty' : Duty) : Prop where
  sound : before.Sound blocks → after.Sound blocks
  stored : ∀ hash, before.Stored hash → after.Stored hash
  judged : ∀ hash, before.Judged hash → after.Judged hash
  enters : ∀ hash block, after.engine.blockTree.getBlock hash = some block →
    before.engine.blockTree.getBlock hash = some block ∨
      duty'.links = some (block.header.parentHash, hash)
  leaves : ∀ hash, before.Pooled hash →
    after.Pooled hash ∨ after.Judged hash ∨ duty'.decides = some hash
  linked : ∀ parent child, after.Linked parent child →
    before.Linked parent child ∨ ¬ after.Stored parent
  unlinked : ∀ parent child, before.Linked parent child →
    after.Linked parent child ∨ child ∈ duty'.looks
  stores : ∀ hash, after.Stored hash → before.Stored hash ∨ hash ∈ duty'.drains
  drains : ∀ parent ∈ duty.drains, parent ∈ duty'.drains ∨ ∀ child, ¬ after.Linked parent child
  looks : ∀ child ∈ duty.looks, child ∈ duty'.looks ∨ ¬ after.Pooled child
  links : ∀ link, duty.links = some link → duty'.links = some link ∨ after.Linked link.1 link.2
  decides : ∀ hash, duty.decides = some hash →
    duty'.decides = some hash ∨ after.Judged hash ∨ after.Pooled hash
  owes : ∀ hash ∈ duty'.owes, hash ∈ duty.owes ∨ after.Pooled hash ∨ after.Judged hash
  knownStored : ∀ hash ∈ duty'.stored, hash ∈ duty.stored ∨ after.Stored hash
  knownJudged : ∀ hash ∈ duty'.judged, hash ∈ duty.judged ∨ after.Judged hash

/-- The protocol of the tasks of a run without races. -/
def dutyProtocol : Protocol Place Shared Duty where
  Assumes place shared duty := RaceFree place shared ∧ shared.Sound blocks ∧
    (∀ hash ∈ duty.stored, shared.Stored hash) ∧ (∀ hash ∈ duty.judged, shared.Judged hash)
  Allows _ before duty after duty' := Discharges blocks before duty after duty'

end Protocol

/-! ## The blocks that wait are accounted for -/

section Accounts

variable {blocks : Set Block}

/-- Every kept block has a link or a task that will take it or link it, every
link below a stored block has a task that will take it, and every block that
was kept is still kept, was judged or is being tried. -/
structure Accounted (blocks : Set Block) (shared : Shared) (duties : List Duty) : Prop where
  sound : shared.Sound blocks
  pooled : ∀ hash block, shared.engine.blockTree.getBlock hash = some block →
    shared.Linked block.header.parentHash hash ∨ ∃ duty ∈ duties,
      hash ∈ duty.looks ∨ duty.links = some (block.header.parentHash, hash)
  linked : ∀ parent child, shared.Linked parent child → shared.Stored parent →
    ∃ duty ∈ duties, parent ∈ duty.drains
  owed : ∀ duty ∈ duties, ∀ hash ∈ duty.owes, shared.Judged hash ∨ shared.Pooled hash ∨
    ∃ other ∈ duties, other.decides = some hash
  stored : ∀ duty ∈ duties, ∀ hash ∈ duty.stored, shared.Stored hash
  judged : ∀ duty ∈ duties, ∀ hash ∈ duty.judged, shared.Judged hash

variable {before after : Shared} {duty duty' : Duty} {front back : List Duty}

theorem Accounted.advance (h : Accounted blocks before (front ++ duty :: back))
    (hstep : Discharges blocks before duty after duty') :
    Accounted blocks after (front ++ duty' :: back) := by
  refine ⟨hstep.sound h.sound, ?_, ?_, ?_, ?_, ?_⟩
  · intro hash block hblock
    rw [exists_mem_middle]
    rcases hstep.enters hash block hblock with hold | hnew
    · have hpooled : after.Pooled hash := by
        unfold Shared.Pooled
        rw [hblock]
        rfl
      have hcovered := h.pooled hash block hold
      rw [exists_mem_middle] at hcovered
      rcases hcovered with hlinked | (hlooks | hlinks) | hother
      · rcases hstep.unlinked _ _ hlinked with hkept | hlooks
        · exact .inl hkept
        · exact .inr (.inl (.inl hlooks))
      · rcases hstep.looks hash hlooks with hkept | hgone
        · exact .inr (.inl (.inl hkept))
        · exact absurd hpooled hgone
      · rcases hstep.links _ hlinks with hkept | hlinked
        · exact .inr (.inl (.inr hkept))
        · exact .inl hlinked
      · exact .inr (.inr hother)
    · exact .inr (.inl (.inr hnew))
  · intro parent child hlinked hstored
    rw [exists_mem_middle]
    have hold := (hstep.linked parent child hlinked).resolve_right (not_not.mpr hstored)
    rcases hstep.stores parent hstored with hbefore | hdrains
    · have hdrained := h.linked parent child hold hbefore
      rw [exists_mem_middle] at hdrained
      rcases hdrained with hdrains | hother
      · rcases hstep.drains parent hdrains with hkept | hnone
        · exact .inl hkept
        · exact absurd hlinked (hnone child)
      · exact .inr hother
    · exact .inl hdrains
  · have hkept : ∀ hash, (before.Judged hash ∨ before.Pooled hash ∨
        ∃ other ∈ front ++ duty :: back, other.decides = some hash) →
        after.Judged hash ∨ after.Pooled hash ∨
          ∃ other ∈ front ++ duty' :: back, other.decides = some hash := by
      intro hash howed
      rw [exists_mem_middle] at howed ⊢
      rcases howed with hjudged | hpooled | hdecides | hother
      · exact .inl (hstep.judged hash hjudged)
      · rcases hstep.leaves hash hpooled with hstill | hjudged | hdecides
        · exact .inr (.inl hstill)
        · exact .inl hjudged
        · exact .inr (.inr (.inl hdecides))
      · rcases hstep.decides hash hdecides with hstill | hjudged | hpooled
        · exact .inr (.inr (.inl hstill))
        · exact .inl hjudged
        · exact .inr (.inl hpooled)
      · exact .inr (.inr (.inr hother))
    have howed := forall_mem_middle.mp h.owed
    rw [forall_mem_middle]
    refine ⟨?_, fun d hmem hash howes => hkept hash (howed.2 d hmem hash howes)⟩
    intro hash howes
    rcases hstep.owes hash howes with hold | hpooled | hjudged
    · exact hkept hash (howed.1 hash hold)
    · exact .inr (.inl hpooled)
    · exact .inl hjudged
  · have hknown := forall_mem_middle.mp h.stored
    rw [forall_mem_middle]
    refine ⟨?_, fun d hmem hash hstored => hstep.stored hash (hknown.2 d hmem hash hstored)⟩
    intro hash hmem
    rcases hstep.knownStored hash hmem with hold | hnew
    · exact hstep.stored hash (hknown.1 hash hold)
    · exact hnew
  · have hknown := forall_mem_middle.mp h.judged
    rw [forall_mem_middle]
    refine ⟨?_, fun d hmem hash hjudged => hstep.judged hash (hknown.2 d hmem hash hjudged)⟩
    intro hash hmem
    rcases hstep.knownJudged hash hmem with hold | hnew
    · exact hstep.judged hash (hknown.1 hash hold)
    · exact hnew

end Accounts

end WasixEth.Concurrent
