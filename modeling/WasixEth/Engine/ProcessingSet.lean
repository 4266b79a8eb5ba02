import WasixEth.Engine.Calls
import WasixEth.Engine.Interleaving
import WasixEth.Engine.TreeMoves

/-! # The processing set

The set of payloads being processed is a lock for each block: a call enters the
block before it imports it and takes it out again on every way back. Nothing
but the call that entered a block takes it out.
-/

namespace WasixEth.Concurrent

open Storage

section Tasks

variable [BlockHashing]

/-- Blocks are kept in the tree under their own hash. -/
def Shared.Keyed (shared : Shared) : Prop := shared.engine.blockTree.Keyed fun _ => True

/-- A step outside `new_payload_internal_inner`, or one whose place there was
not recorded yet, that leaves the processing set alone. -/
structure Quiet (place : Place) (before after : Shared) : Prop where
  inner : place.inner = none
  processing : after.processing = before.processing
  keyed : before.Keyed → after.Keyed

/-! ## What leaves the processing set alone -/

section Quiet

open Coroutine

variable {α β : Type}

theorem quiet_look (answer : Shared → α) : (look answer).Always Quiet :=
  always_access fun _ => ⟨rfl, rfl, id⟩

theorem quiet_onTree {point : Point} {answer : Shared → α} {act : BlockTree → BlockTree}
    (h : ∀ tree : BlockTree, tree.Keyed (fun _ => True) → (act tree).Keyed fun _ => True) :
    (access ⟨none, point⟩ answer (Shared.onTree act)).Always Quiet :=
  always_access fun shared => ⟨rfl, rfl, h shared.engine.blockTree⟩

theorem quiet_onDatabase {answer : Shared → α} {act : Engine → Engine}
    (h : ∀ engine, (act engine).blockTree = engine.blockTree) :
    (change answer (Shared.onDatabase act)).Always Quiet := by
  refine always_access fun shared => ?_
  unfold Shared.onDatabase
  split
  · exact ⟨rfl, rfl, id⟩
  · refine ⟨rfl, rfl, ?_⟩
    intro hkeyed
    unfold Shared.Keyed
    rw [h]
    exact hkeyed

theorem quiet_spawn (hash : B256) : (spawn hash).Always Quiet :=
  always_access fun _ => ⟨rfl, rfl, id⟩

theorem quiet_addOrphan (block : Block) :
    (addOrphan block.header.parentHash block).Always Quiet := by
  refine .bind (quiet_onTree ?_) fun _ => quiet_onTree ?_
  · intro tree hkeyed
    refine ⟨?_, hkeyed.child⟩
    intro hash other hother
    rw [BlockTree.getBlock, Table.get_insert] at hother
    split at hother
    next heq =>
      cases hother
      exact ⟨trivial, heq.symm⟩
    next => exact hkeyed.block hother
  · intro tree hkeyed
    refine ⟨hkeyed.block, ?_⟩
    intro parent child hmem
    rcases List.mem_append.mp hmem with hold | hnew
    · exact hkeyed.child hold
    · cases List.mem_singleton.mp hnew
      exact ⟨block.header, trivial, rfl, rfl⟩

theorem quiet_removeBlock (hash : B256) : (removeBlock hash).Always Quiet :=
  quiet_onTree fun _ hkeyed => hkeyed.removeBlock hash

theorem quiet_removeChildren (parentHash : B256) : (removeChildren parentHash).Always Quiet :=
  quiet_onTree fun _ hkeyed => hkeyed.removeChildren parentHash

theorem quiet_markInvalid (hash parentHash : B256) (reason : InvalidationReason) :
    (markInvalid hash parentHash reason).Always Quiet :=
  .bind (quiet_onTree fun _ hkeyed => ⟨hkeyed.block, hkeyed.child⟩) fun _ =>
    quiet_onTree fun _ hkeyed => hkeyed.removeBlock hash

theorem composes_quiet : Composes fun task => task.Always Quiet where
  pure := always_pure
  bind := Always.bind
  look := quiet_look
  spawn := quiet_spawn
  markInvalid := quiet_markInvalid

theorem quiet_rejectHard (hash parentHash : B256) (message : String) :
    (rejectHard hash parentHash message).Always Quiet :=
  .bind (quiet_markInvalid _ _ _) fun _ =>
    .bind (quiet_onDatabase fun _ => rfl) fun _ => composes_quiet.invalidStatus _ _

theorem quiet_rejectSoft (hash parentHash : B256) (message : String) :
    (rejectSoft hash parentHash message).Always Quiet := by
  refine .bind (quiet_look _) fun body => ?_
  split
  · exact .bind (quiet_markInvalid _ _ _) fun _ => composes_quiet.invalidStatus _ _
  · exact composes_quiet.invalidStatus _ _

theorem quiet_invalidateDescendants (rounds : Nat) (hash : B256) :
    (invalidateDescendants rounds hash).Always Quiet := by
  have hmark : ∀ parentHash children, (markChildren parentHash children).Always Quiet := by
    intro parentHash children
    induction children with
    | nil => exact always_pure _
    | cons child rest ih => exact .bind (quiet_markInvalid _ _ _) fun _ => ih
  have hremove : ∀ removed, (removeBlocks removed).Always Quiet := by
    intro removed
    induction removed with
    | nil => exact always_pure _
    | cons removed rest ih => exact .bind (quiet_removeBlock _) fun _ => ih
  suffices hloop : ∀ stack removed, (invalidateLoop rounds stack removed).Always Quiet from
    hloop _ _
  induction rounds with
  | zero =>
      intro stack removed
      exact always_halted
  | succ rounds ih =>
      intro stack removed
      cases stack with
      | nil => exact hremove removed
      | cons parentHash stack =>
          exact .bind (quiet_removeChildren _) fun children =>
            .bind (hmark _ _) fun _ => ih _ _

theorem quiet_rejectBody (block : Block) (message : String) :
    (rejectBody block message).Always Quiet := by
  refine .bind (quiet_look _) fun found => ?_
  split
  · split
    · exact composes_quiet.invalidStatus _ _
    · exact quiet_rejectHard _ _ _
  · exact quiet_rejectHard _ _ _

variable [Proofs] {node : Node}

theorem quiet_storeExecuted (actualHash parentHash : B256) (executed : ExecutedBlock) :
    (storeExecuted actualHash parentHash executed).Always Quiet := by
  unfold storeExecuted
  split
  · exact quiet_rejectHard _ _ _
  · refine .bind (quiet_look _) fun td => ?_
    split
    · exact always_pure _
    · refine .bind (quiet_onDatabase fun _ => rfl) fun failed => ?_
      split
      · exact always_pure _
      · exact .bind (quiet_onTree fun _ hkeyed => ⟨hkeyed.block, hkeyed.child⟩) fun _ =>
          always_pure _

theorem quiet_executePayload (block : Block) (parent : Header) :
    (executePayload node block parent).Always Quiet := by
  refine .bind (quiet_look _) fun valid => ?_
  split
  · exact quiet_rejectHard _ _ _
  · refine .bind (always_access fun _ => ⟨rfl, rfl, id⟩) fun result => ?_
    split
    · exact quiet_rejectHard _ _ _
    · exact quiet_storeExecuted _ _ _

theorem quiet_withoutParent (block : Block) : (withoutParent node block).Always Quiet := by
  refine .bind (quiet_look _) fun busy => ?_
  split
  · exact always_pure _
  · refine .bind (composes_quiet.getHeaderFromAnywhere _) fun found => ?_
    split
    · exact always_pure _
    · refine .bind (quiet_look _) fun valid => ?_
      split
      · exact .bind (quiet_markInvalid _ _ _) fun _ => composes_quiet.invalidStatus _ _
      · exact .bind (quiet_addOrphan block) fun _ => always_pure _

theorem quiet_importBelow (block : Block) : (importBelow node block).Always Quiet := by
  refine .bind (quiet_look _) fun found => ?_
  split
  · exact quiet_executePayload _ _
  · exact quiet_withoutParent _

theorem quiet_importChild (block : Block) : (importChild node block).Always Quiet := by
  refine .bind (composes_quiet.validateParentBlock _) fun status => ?_
  split
  · exact quiet_importBelow _
  · split
    · exact .bind (quiet_addOrphan block) fun _ => always_pure _
    · exact .bind (quiet_addOrphan block) fun _ => always_pure _
    · exact quiet_importBelow _
    · exact .bind (quiet_markInvalid _ _ _) fun _ =>
        .bind (quiet_spawn _) fun _ => composes_quiet.invalidStatus _ _

end Quiet

/-! ## Who holds a block -/

section Lock

open Protocol

/-- The ghost value of a task is the block it has entered. A step inside
`new_payload_internal_inner` needs the block of that call. -/
def processingLock : Protocol Place Shared (Option B256) where
  Assumes _ shared _ := shared.Keyed
  Allows place before held after held' :=
    (∀ hash, place.inner = some hash → held = some hash) ∧
      (before.Keyed → after.Keyed) ∧
      ((held' = held ∧ after.processing = before.processing) ∨
        (∃ hash, held = none ∧ held' = some hash ∧ hash ∉ before.processing ∧
          after.processing = hash :: before.processing) ∨
        (∃ hash, held = some hash ∧ held' = none ∧
          after.processing = before.processing.erase hash))

/-- The task starts and ends with these blocks entered. -/
def Enters {α : Type} (held held' : Option B256) (task : Async α) : Prop :=
  processingLock.Follows (fun ghost _ => ghost = held') held task

variable {α β : Type} {held held' held'' : Option B256}

theorem Enters.bind {task : Async α} {rest : α → Async β} (h : Enters held held' task)
    (hrest : ∀ value, Enters held' held'' (rest value)) : Enters held held'' (task >>= rest) := by
  refine Follows.bind h ?_
  rintro _ value rfl
  exact hrest value

theorem enters_pure (value : α) : Enters held held (pure value : Async α) :=
  follows_pure.mpr rfl

theorem enters_of_quiet {task : Async α} (h : task.Always Quiet) : Enters held held task := by
  refine follows_of_always h ?_
  intro place before after _ hquiet
  refine ⟨?_, hquiet.keyed, .inl ⟨rfl, hquiet.processing⟩⟩
  intro hash hinner
  cases hquiet.inner.symm.trans hinner

theorem enters_within {task : Async α} (h : task.Always Quiet) (hash : B256) :
    Enters (some hash) (some hash) (within hash task) := by
  refine follows_of_always (R := fun place before after => place.inner = some hash ∧
    after.processing = before.processing ∧ (before.Keyed → after.Keyed)) (h.relabel ?_) ?_
  · intro place before after hquiet
    exact ⟨rfl, hquiet.processing, hquiet.keyed⟩
  · rintro place before after _ ⟨hinner, hprocessing, hkeyed⟩
    refine ⟨?_, hkeyed, .inl ⟨rfl, hprocessing⟩⟩
    intro other hother
    exact hinner.symm.trans hother

theorem enters_stopProcessing (hash : B256) : Enters (some hash) none (stopProcessing hash) :=
  follows_access fun _ _ => ⟨none, ⟨nofun, id, .inr (.inr ⟨hash, rfl, rfl, rfl⟩)⟩, rfl⟩

theorem enters_leave (hash : B256) (answer : Answer) : Enters (some hash) none
    (leave hash answer) :=
  (enters_stopProcessing hash).bind fun _ => enters_pure answer

/-- Enter the block if the lock is free, and go on accordingly. -/
theorem enters_access {point : Point} {hash : B256} {free : Shared → Bool}
    (hfree : ∀ shared, free shared = true → hash ∉ shared.processing) :
    processingLock.Follows (fun ghost entered => ghost = if entered then some hash else none) none
      (Coroutine.access ⟨none, point⟩ free fun shared =>
        if free shared then shared.onProcessing (hash :: ·) else shared) := by
  refine follows_access fun shared _ => ?_
  cases h : free shared with
  | false => exact ⟨none, ⟨nofun, id, .inl ⟨rfl, rfl⟩⟩, rfl⟩
  | true => exact ⟨some hash, ⟨nofun, id, .inr (.inl ⟨hash, rfl, rfl, hfree shared h, rfl⟩)⟩, rfl⟩

theorem enters_startProcessing (block : Block) :
    processingLock.Follows (fun ghost entered => ghost = if entered then some block.hash else none)
      none (startProcessing block) := by
  refine enters_access fun shared hfree => ?_
  intro hmem
  simp [hmem] at hfree

theorem enters_claimChild (child : B256) :
    processingLock.Follows (fun ghost entered => ghost = if entered then some child else none)
      none (claimChild child) :=
  enters_access fun _ hfree => of_decide_eq_true hfree

/-- The block that is taken out of the tree has the hash it was kept under. -/
theorem enters_removeBlock (child : B256) :
    processingLock.Follows (fun ghost found => ghost = none ∧
      ∀ block, found = some block → block.hash = child) none (removeBlock child) := by
  refine follows_access fun shared hkeyed => ?_
  refine ⟨none, ⟨nofun, fun _ => hkeyed.removeBlock child, .inl ⟨rfl, rfl⟩⟩, rfl, ?_⟩
  intro block hblock
  exact (hkeyed.block hblock).2

variable [Proofs] {node : Node}

theorem enters_newPayloadInternalInner (block : Block) (expected : Option (List B256))
    (beaconRoot : Option B256) :
    Enters (some block.hash) (some block.hash)
      (newPayloadInternalInner node block expected beaconRoot) := by
  refine enters_within ?_ _
  refine .bind (quiet_look _) fun _ => ?_
  split
  · exact quiet_rejectSoft _ _ _
  · refine .bind (quiet_look _) fun body => ?_
    split
    · exact quiet_rejectBody _ _
    · split
      · exact quiet_rejectSoft _ _ _
      · exact quiet_importChild _

theorem enters_revalidateChildren (children stack : List B256) :
    Enters none none (revalidateChildren node children stack) := by
  induction children generalizing stack with
  | nil => exact enters_pure _
  | cons child rest ih =>
      refine Follows.bind (enters_removeBlock child) ?_
      rintro _ found ⟨rfl, hfound⟩
      split
      · exact ih _
      next block =>
        refine Follows.bind (enters_claimChild child) ?_
        rintro _ entered rfl
        split
        · obtain rfl := hfound block rfl
          exact (enters_newPayloadInternalInner block none none).bind fun _ =>
            (enters_stopProcessing _).bind fun _ => ih _
        · exact ih _

theorem enters_revalidateDependentPayloads (rounds : Nat) (hash : B256) :
    Enters none none (revalidateDependentPayloads node rounds hash) := by
  suffices hloop : ∀ stack, Enters none none (revalidateLoop node rounds stack) from hloop _
  induction rounds with
  | zero =>
      intro stack
      exact follows_halted
  | succ rounds ih =>
      intro stack
      cases stack with
      | nil => exact enters_pure _
      | cons parentHash stack =>
          exact (enters_of_quiet (quiet_removeChildren _)).bind fun children =>
            (enters_revalidateChildren _ _).bind fun _ => ih _

theorem enters_importNew (rounds : Nat) (block : Block) (expected : Option (List B256))
    (beaconRoot : Option B256) :
    Enters (some block.hash) none (importNew node rounds block expected beaconRoot) := by
  refine (enters_of_quiet (quiet_look _)).bind fun reason => ?_
  split
  · exact (enters_of_quiet (composes_quiet.invalidStatus _ _)).bind fun _ => enters_leave _ _
  · refine (enters_of_quiet (quiet_look _)).bind fun parentReason => ?_
    split
    · exact (enters_of_quiet (composes_quiet.invalidStatus _ _)).bind fun _ =>
        (enters_of_quiet (quiet_markInvalid _ _ _)).bind fun _ => enters_leave _ _
    · exact (enters_of_quiet (composes_quiet.invalidStatus _ _)).bind fun _ =>
        (enters_of_quiet (quiet_markInvalid _ _ _)).bind fun _ => enters_leave _ _
    · refine (enters_newPayloadInternalInner _ _ _).bind fun answer => ?_
      refine (enters_stopProcessing _).bind fun _ => ?_
      split
      · exact (enters_revalidateDependentPayloads _ _).bind fun _ => enters_pure _
      · exact enters_pure _

theorem enters_importProcessing (rounds : Nat) (block : Block) (expected : Option (List B256))
    (beaconRoot : Option B256) :
    Enters (some block.hash) none (importProcessing node rounds block expected beaconRoot) := by
  unfold importProcessing
  split
  · exact (enters_of_quiet (quiet_rejectSoft _ _ _)).bind fun _ => enters_leave _ _
  · exact (enters_of_quiet (quiet_rejectSoft _ _ _)).bind fun _ => enters_leave _ _
  · refine (enters_of_quiet (quiet_look _)).bind fun body => ?_
    split
    · exact enters_leave _ _
    · exact enters_importNew _ _ _ _

theorem enters_newPayloadInternal (rounds : Nat) (block : Block) (expectedBlockHash : B256)
    (expected : Option (List B256)) (beaconRoot : Option B256) :
    Enters none none
      (newPayloadInternal node rounds block expectedBlockHash expected beaconRoot) := by
  refine (enters_of_quiet (quiet_look _)).bind fun _ => ?_
  split
  · refine (enters_of_quiet (quiet_look _)).bind fun body => ?_
    split
    · exact enters_pure _
    · exact (enters_of_quiet (quiet_markInvalid _ _ _)).bind fun _ => enters_pure _
  · refine Follows.bind (enters_startProcessing block) ?_
    rintro _ entered rfl
    split
    · exact enters_importProcessing _ _ _ _
    · exact enters_pure _

theorem enters_program (call : Call) : Enters none none (program node call) := by
  cases call with
  | newPayloadInternal => exact (enters_newPayloadInternal _ _ _ _ _).bind fun _ => enters_pure _
  | revalidateDependentPayloads =>
      exact (enters_revalidateDependentPayloads _ _).bind fun _ => enters_pure _
  | invalidateDescendants =>
      exact (enters_of_quiet (quiet_invalidateDescendants _ _)).bind fun _ => enters_pure _

end Lock

/-! ## Every interleaving -/

section Interleavings

open Protocol

/-- Every call of the payload processor, while the rest of the node may do to
the engine what it wants, as long as blocks stay under their own hash. -/
def interleavings [Proofs] (node : Node) : Setting Place Shared Reply Call where
  program := program node
  Starts := Starts
  Elsewhere before after := after.processing = before.processing ∧ (before.Keyed → after.Keyed)
  Permits _ _ := True

/-- A call that returns has left the processing set. -/
def HasLeft (_ : Call) (held : Option B256) (_ : Reply) : Prop := held = none

/-- The processing set has the blocks that the tasks have entered. -/
structure Locked (shared : Shared) (held : List (Option B256)) : Prop where
  keyed : shared.Keyed
  nodup : shared.processing.Nodup
  perm : shared.processing.Perm (held.filterMap id)

theorem Locked.advance {place : Place} {before after : Shared} {held held' : Option B256}
    {front back : List (Option B256)} (h : Locked before (front ++ held :: back))
    (hallows : processingLock.Allows place before held after held') :
    Locked after (front ++ held' :: back) := by
  obtain ⟨-, hkeyed, hkept | ⟨hash, rfl, rfl, hnot, hentered⟩ | ⟨hash, rfl, rfl, hleft⟩⟩ := hallows
  · obtain ⟨rfl, hprocessing⟩ := hkept
    refine ⟨hkeyed h.keyed, ?_, ?_⟩
    · rw [hprocessing]
      exact h.nodup
    · rw [hprocessing]
      exact h.perm
  · have hperm := h.perm
    simp only [List.filterMap_append, List.filterMap_cons, id] at hperm
    refine ⟨hkeyed h.keyed, ?_, ?_⟩
    · rw [hentered]
      exact List.nodup_cons.mpr ⟨hnot, h.nodup⟩
    · rw [hentered]
      simp only [List.filterMap_append, List.filterMap_cons, id]
      exact (hperm.cons hash).trans List.perm_middle.symm
  · have hperm := h.perm
    simp only [List.filterMap_append, List.filterMap_cons, id] at hperm
    refine ⟨hkeyed h.keyed, ?_, ?_⟩
    · rw [hleft]
      exact h.nodup.erase hash
    · rw [hleft]
      simp only [List.filterMap_append, List.filterMap_cons, id]
      have herase := (hperm.trans List.perm_middle).erase hash
      rwa [List.erase_cons_head] at herase

/-- The block whose import the task is inside of. -/
def innerOf (task : Call × Async Reply) : Option B256 := task.2.place?.bind (·.inner)

def Returned (task : Call × Async Reply) : Prop := ∃ reply, task.2 = .done reply

instance : DecidablePred Returned
  | (_, .done reply) => .isTrue ⟨reply, rfl⟩
  | (_, .halted) => .isFalse nofun
  | (_, .step _ _ _) => .isFalse nofun

theorem held_of_innerOf {task : Call × Async Reply} {held : Option B256} {shared : Shared}
    {ends : Option B256 → Reply → Prop} {hash : B256} (hkeyed : shared.Keyed)
    (h : processingLock.Follows ends held task.2) (hinner : innerOf task = some hash) :
    held = some hash := by
  obtain ⟨call, task⟩ := task
  cases task with
  | done => cases hinner
  | halted => cases hinner
  | step place act next =>
      obtain ⟨held', hallows, -⟩ := follows_step.mp h shared hkeyed
      exact hallows.1 hash hinner

theorem sublist_innerOf {tasks : List (Call × Async Reply)} {held : List (Option B256)}
    {shared : Shared} (hkeyed : shared.Keyed)
    (h : List.Forall₂ (fun task held => processingLock.Follows (HasLeft task.1) held task.2)
      tasks held) :
    (tasks.filterMap innerOf).Sublist (held.filterMap id) := by
  induction h with
  | nil => exact .slnil
  | @cons task held tasks rest htask _ ih =>
      cases hinner : innerOf task with
      | none =>
          rw [List.filterMap_cons_none hinner]
          exact ih.trans ((List.sublist_cons_self held rest).filterMap id)
      | some hash =>
          obtain rfl := held_of_innerOf hkeyed htask hinner
          rw [List.filterMap_cons_some hinner]
          exact ih.cons_cons hash

theorem held_of_returned {tasks : List (Call × Async Reply)} {held : List (Option B256)}
    (h : List.Forall₂ (fun task held => processingLock.Follows (HasLeft task.1) held task.2)
      tasks held)
    (hreturned : ∀ task ∈ tasks, Returned task) : held.filterMap id = [] := by
  induction h with
  | nil => rfl
  | @cons task held tasks rest htask _ ih =>
      obtain ⟨reply, hreply⟩ := hreturned task List.mem_cons_self
      rw [hreply] at htask
      have hleft : HasLeft task.1 held reply := follows_done.mp htask
      rw [hleft]
      exact ih fun task hmem => hreturned task (List.mem_cons_of_mem _ hmem)

variable [Proofs] {node : Node}

theorem keeps_locked :
    processingLock.Keeps (interleavings node) HasLeft Locked where
  assumes h _ _ := h.keyed
  start := by
    intro call shared shared' held hstarts h
    refine ⟨none, ?_, enters_program call⟩
    have hsame : shared'.processing = shared.processing ∧ shared'.engine = shared.engine := by
      cases hstarts with
      | newPayloadInternal => exact ⟨rfl, rfl⟩
      | revalidateDependentPayloads => exact ⟨rfl, rfl⟩
      | invalidateDescendants => exact ⟨rfl, rfl⟩
    refine ⟨?_, ?_, ?_⟩
    · unfold Shared.Keyed
      rw [hsame.2]
      exact h.keyed
    · rw [hsame.1]
      exact h.nodup
    · rw [hsame.1]
      simpa using h.perm
  advance h _ hallows := h.advance hallows
  elsewhere := by
    intro shared shared' held ⟨hprocessing, hkeyed⟩ h
    refine ⟨hkeyed h.keyed, ?_, ?_⟩
    · rw [hprocessing]
      exact h.nodup
    · rw [hprocessing]
      exact h.perm

/-- At most one task is inside the import of a block, and when all calls have
returned the processing set is empty. -/
theorem importsOnce {shared : Shared} (hkeyed : shared.Keyed) (hempty : shared.processing = [])
    {pool : Pool Place Shared Reply Call}
    (hreaches : (interleavings node).Reaches ⟨shared, []⟩ pool) :
    (pool.tasks.filterMap innerOf).Nodup ∧
      ((∀ task ∈ pool.tasks, Returned task) → pool.state.processing = []) := by
  have hinit : processingLock.Guards HasLeft Locked
      (⟨shared, []⟩ : Pool Place Shared Reply Call) := by
    refine ⟨[], .nil, hkeyed, ?_, ?_⟩
    · rw [hempty]
      exact List.nodup_nil
    · rw [hempty]
      exact .nil
  obtain ⟨held, hfollows, hlocked⟩ := keeps_locked.guards_reaches hreaches hinit
  constructor
  · have hnodup : (held.filterMap id).Nodup := hlocked.perm.nodup_iff.mp hlocked.nodup
    exact hnodup.sublist (sublist_innerOf hlocked.keyed hfollows)
  · intro hreturned
    have hperm := hlocked.perm
    rw [held_of_returned hfollows hreturned] at hperm
    exact hperm.eq_nil

end Interleavings

/-! ## Two imports of one block -/

section Sample

attribute [local instance] keccak keccakProofs

def sampleShared : Shared := ⟨Engine.sampleEngine, [], [], Engine.sampleOutside, Faults.none⟩

/-- Import an empty block with this header. -/
def importTask (header : Header) (hash : B256) : Call :=
  .newPayloadInternal 3 (emptyBlock header) hash none none

/-- Calls that have not taken a step yet. -/
def startAll (calls : List Call) : Pool Place Shared Reply Call :=
  ⟨sampleShared, calls.map fun call => (call, program Engine.sampleNode call)⟩

/-- Two imports of the same block, the second while the first is inside
`new_payload_internal_inner`. -/
def importTwice : Pool Place Shared Reply Call :=
  ([0, 0, 0, 0, 0, 0, 1, 1] ++ List.replicate 40 0).foldl Pool.advance
    (startAll [importTask firstHeader firstHash, importTask firstHeader firstHash])

end Sample

end Tasks

attribute [local instance] keccak keccakHashing keccakProofs in
theorem importsOnce_importTwice :
    (∀ task ∈ importTwice.tasks, Returned task) ∧ importTwice.state.processing = [] := by
  have hstart : (interleavings Engine.sampleNode).Reaches ⟨sampleShared, []⟩
      (startAll [importTask firstHeader firstHash, importTask firstHeader firstHash]) := by
    apply Setting.reaches_startAll
    intro call hmem
    simp only [List.mem_cons, List.not_mem_nil, or_false, or_self] at hmem
    rw [hmem]
    exact .newPayloadInternal _ _ _ _ _ _
  have hreaches : (interleavings Engine.sampleNode).Reaches ⟨sampleShared, []⟩ importTwice := by
    unfold importTwice
    exact hstart.trans (Setting.reaches_schedule _ _
      (Pool.admits_of_forall (fun _ _ => trivial) _ _))
  have hreturned : ∀ task ∈ importTwice.tasks, Returned task := by
    rw [← sampleHashing_eq]
    decide +kernel
  have hkeyed : sampleShared.Keyed := ⟨nofun, nofun⟩
  exact ⟨hreturned, (importsOnce hkeyed rfl hreaches).2 hreturned⟩

end WasixEth.Concurrent
