import WasixEth.Engine.ProcessingSet
import WasixEth.Engine.Waiting

/-! # No child is forgotten without a race

Two races lose a block that waits for its parent. The parent may be stored and
its children tried between the moment an import finds the parent unknown and
the moment it puts the block among those that wait. And a child that is taken
out of the tree while another call processes it is dropped. In a run with
neither, every block that was accepted is tried once its parent is stored.
-/

namespace WasixEth.Concurrent

open Storage Protocol Coroutine

section Tasks

variable [BlockHashing] {blocks : Set Block} {duty : Duty}

/-! ## Taking links and blocks -/

/-- The links below a block are taken; each names a block below it. -/
theorem follows_removeChildren (parent : B256) {drains : List B256}
    (hdrains : ∀ other ∈ duty.drains, other ∈ drains ∨ other = parent) :
    (dutyProtocol blocks).Follows (fun ghost children =>
      ghost = { duty with drains, looks := children ++ duty.looks } ∧
        ∀ child ∈ children, NamesParent (· ∈ Block.header '' blocks) child parent) duty
      (removeChildren parent) := by
  refine follows_access fun shared ⟨_, hsound, _, _⟩ =>
    ⟨_, discharges_removeChildren shared hdrains, rfl, ?_⟩
  intro child hmem
  obtain ⟨link, hlink, rfl⟩ := List.mem_map.mp hmem
  obtain ⟨hlink, hparent⟩ := List.mem_filter.mp hlink
  have hnames : NamesParent _ link.2 link.1 := hsound.kept.keyed.child hlink
  rwa [of_decide_eq_true hparent] at hnames

/-- A waiting block is taken and has to be decided. -/
theorem follows_removeBlock {child : B256} {rest : List B256} (hdecides : duty.decides = none)
    (hlooks : duty.looks = child :: rest) :
    (dutyProtocol blocks).Follows (fun ghost found =>
      (ghost = { duty with looks := rest, decides := found.map fun _ => child }) ∧
        ∀ block, found = some block → block ∈ blocks ∧ block.hash = child) duty
      (removeBlock child) := by
  refine follows_access fun shared ⟨_, hsound, _, _⟩ => ⟨_, ?_, rfl, ?_⟩
  · refine discharges_removeBlock ?_ rfl rfl ?_ ?_ rfl rfl (List.Subset.refl _)
    · intro hpooled
      obtain ⟨block, hblock⟩ := Option.isSome_iff_exists.mp hpooled
      refine .inr ?_
      change Option.map _ (shared.engine.blockTree.getBlock child) = _
      rw [hblock]
      rfl
    · intro other hmem
      rw [hlooks] at hmem
      exact (List.mem_cons.mp hmem).symm
    · intro other hother
      cases hdecides.symm.trans hother
  · intro block hblock
    exact ⟨hsound.kept.mem hblock, (hsound.kept.keyed.block hblock).2⟩

/-! ## `invalidate_descendants` -/

theorem follows_markChildren (parent : B256) (children : List B256)
    (hlooks : duty.looks = children) :
    (dutyProtocol blocks).Follows (fun ghost _ =>
      ghost = { duty with looks := [], judged := children.reverse ++ duty.judged }) duty
      (markChildren parent children) := by
  induction children generalizing duty with
  | nil =>
      refine follows_pure.mpr ?_
      obtain ⟨⟩ := duty
      cases hlooks
      rfl
  | cons child rest ih =>
      refine Follows.bind (follows_markInvalid
        { duty with looks := rest, judged := child :: duty.judged } child parent .hard
        rfl rfl ?_ (fun _ h => .inl h) rfl rfl (List.Subset.refl _)) ?_
      · intro other hmem
        rw [hlooks] at hmem
        exact (List.mem_cons.mp hmem).symm
      · rintro _ _ rfl
        refine (ih rfl).mono ?_
        rintro _ _ rfl
        simp

theorem spares_removeBlocks (removed : List B256) (h : removed ⊆ duty.judged) :
    Spares blocks duty (removeBlocks removed) := by
  induction removed with
  | nil => exact spares_pure _
  | cons hash rest ih =>
      refine Spares.bind ?_ fun _ => ih fun other hmem => h (List.mem_cons_of_mem _ hmem)
      refine follows_access fun shared ⟨_, _, _, hjudged⟩ => ⟨duty, ?_, rfl⟩
      have hhash : shared.Judged hash := hjudged hash (h List.mem_cons_self)
      exact discharges_removeBlock (fun _ => .inl hhash) rfl rfl (fun _ h => .inl h)
        (fun _ h => .inl h) rfl rfl (List.Subset.refl _)

theorem follows_invalidateLoop (rounds : Nat) (stack removed : List B256)
    (hlooks : duty.looks = []) (hremoved : removed ⊆ duty.judged) :
    (dutyProtocol blocks).Follows (fun ghost _ => ∃ judged, ghost = { duty with judged }) duty
      (invalidateLoop rounds stack removed) := by
  induction rounds generalizing duty stack removed with
  | zero => exact follows_halted
  | succ rounds ih =>
      cases stack with
      | nil => exact (spares_removeBlocks removed hremoved).mono fun _ _ h => ⟨duty.judged, h⟩
      | cons parent stack =>
          refine Follows.bind (follows_removeChildren parent (fun _ h => .inl h)) ?_
          rintro _ children ⟨rfl, -⟩
          refine Follows.bind (follows_markChildren parent children ?_) ?_
          · rw [hlooks]
            exact List.append_nil children
          · rintro _ _ rfl
            refine (ih _ _ rfl ?_).mono ?_
            · intro hash hmem
              rcases List.mem_append.mp hmem with hold | hnew
              · exact List.mem_append_right _ (hremoved hold)
              · exact List.mem_append_left _ (List.mem_reverse.mpr hnew)
            · rintro _ _ ⟨judged, rfl⟩
              refine ⟨judged, ?_⟩
              obtain ⟨⟩ := duty
              cases hlooks
              rfl

/-! ## `revalidate_dependent_payloads` -/

variable [Proofs] {node : Node}

/-- A task that is about to take the links of the blocks on its stack. -/
structure Draining (duty : Duty) (stack : List B256) : Prop where
  drains : duty.drains = stack
  links : duty.links = none
  decides : duty.decides = none
  stored : stack ⊆ duty.stored

omit [Proofs] in
/-- A child is in the processing set only if another call processes it, which
a run without races does not meet here. -/
theorem follows_claimChild (child : B256) :
    (dutyProtocol blocks).Follows (fun ghost entered => ghost = duty ∧ entered = true) duty
      (claimChild child) := by
  refine follows_access fun shared ⟨hfree, _⟩ => ⟨duty, ?_, rfl, decide_eq_true hfree⟩
  dsimp only
  split
  · exact discharges_of_same rfl rfl rfl rfl rfl
  · exact discharges_of_same rfl rfl rfl rfl rfl

omit [Proofs] in
theorem spares_stopProcessing (hash : B256) : Spares blocks duty (stopProcessing hash) :=
  follows_same (fun _ => rfl) (fun _ => rfl) (fun _ => rfl) (fun _ => rfl) (fun _ => rfl)

omit [Proofs] in
/-- The block that was kept below a parent names that parent. -/
theorem parentHash_of_names (hapart : HashesApart blocks) {block : Block} {child parent : B256}
    (hmem : block ∈ blocks) (hhash : block.hash = child)
    (hnames : NamesParent (· ∈ Block.header '' blocks) child parent) :
    block.header.parentHash = parent := by
  obtain ⟨header, hheader, hchild, rfl⟩ := hnames
  have heq := hapart.injOn ⟨block, hmem, rfl⟩ hheader (hhash.trans hchild.symm)
  rw [heq]

theorem follows_revalidateChildren (hapart : HashesApart blocks)
    (hreturns : ∀ block ∈ blocks, ReturnsAsGiven node block) {parent : B256} {owes : List B256}
    (children stack : List B256) (hdraining : Draining duty stack) (hlooks : duty.looks = children)
    (hparent : parent ∈ duty.stored) (howes : owes ⊆ duty.owes)
    (hnames : ∀ child ∈ children, NamesParent (· ∈ Block.header '' blocks) child parent) :
    (dutyProtocol blocks).Follows (fun ghost stack =>
      Draining ghost stack ∧ ghost.looks = [] ∧ owes ⊆ ghost.owes) duty
      (revalidateChildren node children stack) := by
  induction children generalizing duty stack with
  | nil => exact follows_pure.mpr ⟨hdraining, hlooks, howes⟩
  | cons child rest ih =>
      have hrest : ∀ child ∈ rest, NamesParent (· ∈ Block.header '' blocks) child parent :=
        fun other hmem => hnames other (List.mem_cons_of_mem _ hmem)
      have hsettled : Draining { duty with looks := rest, decides := none } stack :=
        ⟨hdraining.drains, hdraining.links, rfl, hdraining.stored⟩
      refine Follows.bind (follows_removeBlock hdraining.decides hlooks) ?_
      rintro _ found ⟨rfl, hfound⟩
      cases found with
      | none => exact ih stack hsettled rfl hparent howes hrest
      | some block =>
          obtain ⟨hmem, hhash⟩ := hfound block rfl
          refine Follows.bind (follows_claimChild child) ?_
          rintro ghost entered ⟨rfl, rfl⟩
          rw [if_pos rfl]
          have htries : Tries blocks { duty with looks := rest, decides := some child } block := by
            refine ⟨hmem, hdraining.links, ?_, ?_⟩
            · intro hash hsome
              exact (Option.some.inj hsome).symm.trans hhash.symm
            · intro _
              rw [parentHash_of_names hapart hmem hhash (hnames child List.mem_cons_self)]
              exact hparent
          refine Follows.bind (htries.newPayloadInternalInner hapart (hreturns block hmem) _ _) ?_
          intro ghost answer hanswer
          refine (spares_stopProcessing child).bind fun _ => ?_
          cases hanswer with
          | valid latest =>
              rw [hhash]
              refine ih (child :: stack) ⟨?_, ?_, ?_, ?_⟩ ?_ ?_ ?_ hrest
              · exact congrArg (child :: ·) hdraining.drains
              · exact hdraining.links
              · rfl
              · exact List.cons_subset_cons _ hdraining.stored
              · rfl
              · exact List.mem_cons_of_mem _ hparent
              · exact howes
          | @kept status hvalid =>
              rw [show isValid (.ok status) = false from decide_eq_false hvalid,
                if_neg (by decide)]
              refine ih stack ⟨?_, ?_, ?_, ?_⟩ ?_ ?_ ?_ hrest
              · exact hdraining.drains
              · exact hdraining.links
              · rfl
              · exact hdraining.stored
              · rfl
              · exact hparent
              · exact fun hash hmem => List.mem_cons_of_mem _ (howes hmem)
          | refused hrefused =>
              rw [hrefused.ghost_eq, hrefused.valid, if_neg (by decide)]
              exact ih stack hsettled rfl hparent howes hrest

theorem follows_revalidateLoop (hapart : HashesApart blocks)
    (hreturns : ∀ block ∈ blocks, ReturnsAsGiven node block) {owes : List B256} (rounds : Nat)
    (stack : List B256) (hdraining : Draining duty stack) (hlooks : duty.looks = [])
    (howes : owes ⊆ duty.owes) :
    (dutyProtocol blocks).Follows (fun ghost _ =>
      Draining ghost [] ∧ ghost.looks = [] ∧ owes ⊆ ghost.owes) duty
      (revalidateLoop node rounds stack) := by
  induction rounds generalizing duty stack with
  | zero => exact follows_halted
  | succ rounds ih =>
      cases stack with
      | nil => exact follows_pure.mpr ⟨hdraining, hlooks, howes⟩
      | cons parent stack =>
          have hdrains : ∀ other ∈ duty.drains, other ∈ stack ∨ other = parent := by
            intro other hmem
            rw [hdraining.drains] at hmem
            exact (List.mem_cons.mp hmem).symm
          refine Follows.bind (follows_removeChildren parent hdrains) ?_
          rintro _ children ⟨rfl, hnames⟩
          have hrest : Draining
              { duty with drains := stack, looks := children ++ duty.looks } stack := by
            refine ⟨rfl, hdraining.links, hdraining.decides, ?_⟩
            exact fun hash hmem => hdraining.stored (List.mem_cons_of_mem _ hmem)
          have hchildren : children ++ duty.looks = children := by
            rw [hlooks]
            exact List.append_nil children
          refine Follows.bind (follows_revalidateChildren hapart hreturns children stack hrest
            hchildren (hdraining.stored List.mem_cons_self) howes hnames) ?_
          rintro ghost stack' ⟨hdrained, hnone, howes'⟩
          exact ih stack' hdrained hnone howes'

/-! ## `new_payload_internal` -/

def Duty.idle : Duty := ⟨[], [], none, none, [], [], []⟩

/-- Nothing is left to do, and a block that was accepted was kept. -/
structure Finished (hash : B256) (duty : Duty) (answer : Answer) : Prop where
  draining : Draining duty []
  looks : duty.looks = []
  accepted : ∀ latest, answer = .ok ⟨.accepted, latest⟩ → hash ∈ duty.owes

omit [BlockHashing] [Proofs] in
theorem finished_idle {hash : B256} {answer : Answer}
    (h : ∀ latest, answer ≠ .ok ⟨.accepted, latest⟩) : Finished hash .idle answer :=
  ⟨⟨rfl, rfl, rfl, List.nil_subset _⟩, rfl, fun latest heq => absurd heq (h latest)⟩

omit [BlockHashing] [Proofs] in
theorem Refused.finished {ghost : Duty} {answer : Answer} (h : Refused .idle ghost answer)
    (hash : B256) : Finished hash ghost answer := by
  rw [h.ghost_eq]
  exact finished_idle h.accepted

omit [Proofs] in
theorem tries_idle {block : Block} (h : block ∈ blocks) : Tries blocks .idle block :=
  ⟨h, rfl, nofun, fun hnone => absurd rfl hnone⟩

omit [Proofs] in
/-- Leave the processing set with an answer that refuses the block. -/
theorem follows_leave {task : Async Answer} {hash : B256}
    (h : (dutyProtocol blocks).Follows (Refused .idle) .idle task) :
    (dutyProtocol blocks).Follows (Finished hash) .idle (do
      let answer ← task
      leave hash answer) := by
  refine Follows.bind h ?_
  intro ghost answer hrefused
  exact (spares_stopProcessing hash).bind fun _ => follows_pure.mpr (hrefused.finished hash)

omit [Proofs] in
/-- The block is refused and marked on account of its parent. -/
theorem follows_markAndLeave (hash parentHash : B256) (message : String)
    (reason : InvalidationReason) :
    (dutyProtocol blocks).Follows (Finished hash) .idle (do
      let answer ← invalidStatus parentHash message
      markInvalid hash parentHash reason
      leave hash answer) := by
  have hstatus : (dutyProtocol blocks).Follows (Refused .idle) .idle
      (invalidStatus parentHash message) := follows_invalidStatus parentHash message
  refine Follows.bind hstatus ?_
  intro ghost answer hrefused
  exact (spares_markInvalid _ _ _).bind fun _ => (spares_stopProcessing _).bind fun _ =>
    follows_pure.mpr (hrefused.finished hash)

section Calls

variable (hapart : HashesApart blocks) (hreturns : ∀ block ∈ blocks, ReturnsAsGiven node block)
  {block : Block} (hmem : block ∈ blocks)

include hapart hreturns hmem

theorem follows_importNew (rounds : Nat) (expected : Option (List B256))
    (beaconRoot : Option B256) :
    (dutyProtocol blocks).Follows (Finished block.hash) .idle
      (importNew node rounds block expected beaconRoot) := by
  refine (spares_look _).bind fun reason => ?_
  split
  · exact follows_leave (follows_invalidStatus _ _)
  · refine (spares_look _).bind fun parentReason => ?_
    split
    · exact follows_markAndLeave _ _ _ _
    · exact follows_markAndLeave _ _ _ _
    · refine Follows.bind ((tries_idle hmem).newPayloadInternalInner hapart (hreturns block hmem)
        _ _) ?_
      intro ghost answer hanswer
      refine (spares_stopProcessing _).bind fun _ => ?_
      cases hanswer with
      | valid latest =>
          rw [if_pos (show isValid (.ok ⟨.valid, latest⟩) = true from rfl)]
          refine Follows.bind (follows_revalidateLoop hapart hreturns rounds [block.hash]
            ⟨rfl, rfl, rfl, List.Subset.refl _⟩ rfl (List.nil_subset _)) ?_
          rintro ghost _ ⟨hdraining, hlooks, -⟩
          exact follows_pure.mpr ⟨hdraining, hlooks, nofun⟩
      | @kept status hvalid =>
          rw [show isValid (.ok status) = false from decide_eq_false hvalid, if_neg (by decide)]
          exact follows_pure.mpr ⟨⟨rfl, rfl, rfl, List.nil_subset _⟩, rfl,
            fun _ _ => List.mem_cons_self⟩
      | refused hrefused =>
          rw [hrefused.valid, if_neg (by decide)]
          exact follows_pure.mpr (hrefused.finished _)

theorem follows_importProcessing (rounds : Nat) (expected : Option (List B256))
    (beaconRoot : Option B256) :
    (dutyProtocol blocks).Follows (Finished block.hash) .idle
      (importProcessing node rounds block expected beaconRoot) := by
  unfold importProcessing
  split
  · exact follows_leave ((tries_idle hmem).rejectSoft hapart _ _)
  · exact follows_leave ((tries_idle hmem).rejectSoft hapart _ _)
  · refine (spares_look _).bind fun body => ?_
    split
    · exact (spares_stopProcessing _).bind fun _ => follows_pure.mpr (finished_idle nofun)
    · exact follows_importNew hapart hreturns hmem _ _ _

theorem follows_newPayloadInternal (rounds : Nat) (expectedBlockHash : B256)
    (expected : Option (List B256)) (beaconRoot : Option B256) :
    (dutyProtocol blocks).Follows (Finished block.hash) .idle
      (newPayloadInternal node rounds block expectedBlockHash expected beaconRoot) := by
  refine (spares_look _).bind fun _ => ?_
  split
  · refine (spares_look _).bind fun body => ?_
    split
    · exact follows_pure.mpr (finished_idle nofun)
    · exact (spares_markInvalid _ _ _).bind fun _ => follows_pure.mpr (finished_idle nofun)
  · refine Spares.bind ?_ fun entered => ?_
    · refine follows_access fun shared _ => ⟨_, ?_, rfl⟩
      dsimp only
      split
      · exact discharges_of_same rfl rfl rfl rfl rfl
      · exact discharges_of_same rfl rfl rfl rfl rfl
    · split
      · exact follows_importProcessing hapart hreturns hmem _ _ _
      · exact follows_pure.mpr (finished_idle nofun)

end Calls

/-! ## Runs of imports -/

/-- Imports of these blocks and the tasks they spawn, while time passes and the
database does not fail. -/
def imports (node : Node) (blocks : Set Block) (permits : Place → Shared → Prop) :
    Setting Place Shared Reply Call where
  program := program node
  Starts call before after := Starts call before after ∧
    match call with
    | .newPayloadInternal _ block _ _ _ => block ∈ blocks
    | .revalidateDependentPayloads _ _ => False
    | .invalidateDescendants _ _ => True
  Elsewhere before after := ∃ outside, after = { before with outside }
  Permits := permits

/-- What a call has done when it returns. -/
def HasFinished (blocks : Set Block) (call : Call) (duty : Duty) (reply : Reply) : Prop :=
  match call, reply with
  | .newPayloadInternal _ block _ _ _, some answer =>
      block ∈ blocks ∧ Finished block.hash duty answer
  | .newPayloadInternal _ _ _ _ _, none => False
  | _, _ => Draining duty [] ∧ duty.looks = []

theorem follows_program (hapart : HashesApart blocks)
    (hreturns : ∀ block ∈ blocks, ReturnsAsGiven node block) {call : Call} {before after : Shared}
    {permits : Place → Shared → Prop} (h : (imports node blocks permits).Starts call before after) :
    (dutyProtocol blocks).Follows (HasFinished blocks call) .idle (program node call) := by
  cases call with
  | newPayloadInternal rounds block expectedBlockHash expected beaconRoot =>
      refine Follows.bind (follows_newPayloadInternal hapart hreturns h.2 _ _ _ _) ?_
      intro ghost answer hfinished
      exact follows_pure.mpr ⟨h.2, hfinished⟩
  | revalidateDependentPayloads rounds hash => exact h.2.elim
  | invalidateDescendants rounds hash =>
      refine Follows.bind (follows_invalidateLoop rounds [hash] [] rfl (List.nil_subset _)) ?_
      rintro _ _ ⟨judged, rfl⟩
      exact follows_pure.mpr ⟨⟨rfl, rfl, rfl, List.nil_subset _⟩, rfl⟩

omit [Proofs] in
theorem Accounted.of_same {before after : Shared} {duties : List Duty}
    (h : Accounted blocks before duties) (hengine : after.engine = before.engine)
    (hfaults : after.faults = before.faults) : Accounted blocks after duties := by
  obtain ⟨engine, processing, spawned, outside, faults⟩ := before
  obtain ⟨engine', processing', spawned', outside', faults'⟩ := after
  cases hengine
  cases hfaults
  exact ⟨⟨h.sound.kept, h.sound.td, h.sound.body, h.sound.faults⟩, h.pooled, h.linked, h.owed,
    h.stored, h.judged⟩

omit [Proofs] in
/-- A task that starts owes nothing. -/
theorem Accounted.start {shared : Shared} {duties : List Duty}
    (h : Accounted blocks shared duties) :
    Accounted blocks shared (duties ++ [.idle]) := by
  have hmore : ∀ {P : Duty → Prop}, (∃ duty ∈ duties, P duty) →
      ∃ duty ∈ duties ++ [.idle], P duty := by
    rintro P ⟨duty, hmem, hduty⟩
    exact ⟨duty, List.mem_append_left _ hmem, hduty⟩
  have hall : ∀ {P : Duty → Prop}, (∀ duty ∈ duties, P duty) → P .idle →
      ∀ duty ∈ duties ++ [.idle], P duty := by
    intro P hold hidle duty hmem
    rcases List.mem_append.mp hmem with hmem | hnew
    · exact hold duty hmem
    · rw [List.mem_singleton.mp hnew]
      exact hidle
  refine ⟨h.sound, ?_, ?_, ?_, ?_, ?_⟩
  · intro hash block hblock
    exact (h.pooled hash block hblock).imp id hmore
  · intro parent child hlinked hstored
    exact hmore (h.linked parent child hlinked hstored)
  · refine hall ?_ nofun
    intro duty hmem hash howes
    exact (h.owed duty hmem hash howes).imp id fun h => h.imp id hmore
  · exact hall h.stored nofun
  · exact hall h.judged nofun

theorem keeps_accounted (hapart : HashesApart blocks)
    (hreturns : ∀ block ∈ blocks, ReturnsAsGiven node block) :
    (dutyProtocol blocks).Keeps (imports node blocks RaceFree) (HasFinished blocks)
      (Accounted blocks) where
  assumes h hmem hpermits := ⟨hpermits, h.sound, h.stored _ hmem, h.judged _ hmem⟩
  start := by
    intro call before after duties hstarts h
    refine ⟨.idle, ?_, follows_program hapart hreturns hstarts⟩
    have hsame : after.engine = before.engine ∧ after.faults = before.faults := by
      cases hstarts.1 with
      | newPayloadInternal => exact ⟨rfl, rfl⟩
      | revalidateDependentPayloads => exact ⟨rfl, rfl⟩
      | invalidateDescendants => exact ⟨rfl, rfl⟩
    exact (h.of_same hsame.1 hsame.2).start
  advance h _ hallows := h.advance hallows
  elsewhere := by
    rintro before _ duties ⟨outside, rfl⟩ h
    exact h.of_same rfl rfl

/-- Once a block is stored, no child of it waits, and each child that was
accepted was stored or marked. -/
def NoneForgotten (pool : Pool Place Shared Reply Call) : Prop :=
  ∀ parent, pool.state.Stored parent →
    (∀ hash block, pool.state.engine.blockTree.getBlock hash = some block →
      block.header.parentHash ≠ parent) ∧
    ∀ rounds block expectedBlockHash expected beaconRoot latest,
      (Call.newPayloadInternal rounds block expectedBlockHash expected beaconRoot,
        Coroutine.done (some (.ok ⟨.accepted, latest⟩))) ∈ pool.tasks →
      block.header.parentHash = parent → pool.state.Judged block.hash

omit [Proofs] in
theorem HasFinished.idle {call : Call} {reply : Reply} (h : HasFinished blocks call duty reply) :
    Draining duty [] ∧ duty.looks = [] := by
  cases call with
  | newPayloadInternal =>
      cases reply with
      | none => exact h.elim
      | some answer => exact ⟨h.2.draining, h.2.looks⟩
  | revalidateDependentPayloads => exact h
  | invalidateDescendants => exact h

omit [Proofs] in
theorem Accounted.noneForgotten (hapart : HashesApart blocks)
    {pool : Pool Place Shared Reply Call} {duties : List Duty}
    (h : Accounted blocks pool.state duties)
    (hfollows : List.Forall₂ (fun task duty =>
      (dutyProtocol blocks).Follows (HasFinished blocks task.1) duty task.2) pool.tasks duties)
    (hreturned : ∀ task ∈ pool.tasks, Returned task) : NoneForgotten pool := by
  have hidle : ∀ duty ∈ duties, Draining duty [] ∧ duty.looks = [] := by
    intro duty hmem
    obtain ⟨task, htask, hduty⟩ := exists_of_mem_forall₂ hfollows.flip hmem
    obtain ⟨reply, hreply⟩ := hreturned task htask
    rw [hreply] at hduty
    exact (follows_done.mp hduty).idle
  intro parent hstored
  have hnone : ∀ hash block, pool.state.engine.blockTree.getBlock hash = some block →
      block.header.parentHash ≠ parent := by
    rintro hash block hblock rfl
    rcases h.pooled hash block hblock with hlinked | ⟨duty, hmem, hlooks | hlinks⟩
    · obtain ⟨duty, hmem, hdrains⟩ := h.linked _ _ hlinked hstored
      rw [(hidle duty hmem).1.drains] at hdrains
      cases hdrains
    · rw [(hidle duty hmem).2] at hlooks
      cases hlooks
    · cases (hidle duty hmem).1.links.symm.trans hlinks
  refine ⟨hnone, ?_⟩
  rintro rounds block expectedBlockHash expected beaconRoot latest htask rfl
  obtain ⟨duty, hmem, hduty⟩ := exists_of_mem_forall₂ hfollows htask
  obtain ⟨hblock, hfinished⟩ := follows_done.mp hduty
  rcases h.owed duty hmem _ (hfinished.accepted latest rfl) with
    hjudged | hpooled | ⟨other, hother, hdecides⟩
  · exact hjudged
  · obtain ⟨kept, hkept⟩ := Option.isSome_iff_exists.mp hpooled
    have hheader := hapart.injOn ⟨kept, h.sound.kept.mem hkept, rfl⟩ ⟨block, hblock, rfl⟩
      (h.sound.kept.keyed.block hkept).2
    exact absurd (by rw [hheader]) (hnone _ kept hkept)
  · cases (hidle other hother).1.decides.symm.trans hdecides

end Tasks

/-! ## The node -/

section Eth

variable [Keccak256] [BlockHashing] [Proofs] [Evm] {provider : EthExecutionProvider}
  {generate : B256 → PayloadAttributes → PayloadId}

open EthExecutionProvider

theorem returnsAsGiven_of_filled {block : Block} (hfilled : Engine.Filled block) :
    ReturnsAsGiven (ethNode provider generate) block := by
  intro faults database root executed state h
  change provider.executeBlockWithStateRoot faults database block root = (.ok executed, state) at h
  unfold executeBlockWithStateRoot at h
  split at h
  · cases h
  · dsimp only at h
    split at h
    · cases h
    next hresult =>
      split at h
      · cases h
      · cases h
        obtain ⟨_, computed, -, hcomputed, hfinal, -⟩ := exists_computed hresult
        exact Engine.executed_of_filled hfilled (gas_compute rfl hcomputed).1
          (transactions_compute hcomputed) hfinal

/-- In every run of imports without the two races, none is forgotten once all
calls have returned. -/
theorem noneForgotten_of_raceFree (provider : EthExecutionProvider)
    (generate : B256 → PayloadAttributes → PayloadId) {blocks : Set Block}
    (hapart : HashesApart blocks) (hfilled : ∀ block ∈ blocks, Engine.Filled block)
    {shared : Shared} (hsound : shared.Sound blocks)
    (hempty : shared.engine.blockTree = BlockTree.empty) {pool : Pool Place Shared Reply Call}
    (hreaches : (imports (ethNode provider generate) blocks RaceFree).Reaches ⟨shared, []⟩ pool)
    (hreturned : ∀ task ∈ pool.tasks, Returned task) : NoneForgotten pool := by
  have hreturns : ∀ block ∈ blocks, ReturnsAsGiven (ethNode provider generate) block :=
    fun block hmem => returnsAsGiven_of_filled (hfilled block hmem)
  have hinit : Accounted blocks shared [] := by
    refine ⟨hsound, ?_, ?_, nofun, nofun, nofun⟩
    · intro hash block hblock
      rw [hempty] at hblock
      cases hblock
    · intro parent child hlinked
      unfold Shared.Linked at hlinked
      rw [hempty] at hlinked
      cases hlinked
  obtain ⟨duties, hfollows, haccounted⟩ :=
    (keeps_accounted hapart hreturns).guards_reaches hreaches ⟨[], .nil, hinit⟩
  exact haccounted.noneForgotten hapart hfollows hreturned

end Eth

/-! ## A child and its parent -/

section Sample

attribute [local instance] keccak keccakProofs

variable [BlockHashing]

def familyCalls : List Call :=
  [importTask secondHeader secondHash, importTask firstHeader firstHash]

def family : Set Block := {emptyBlock firstHeader, emptyBlock secondHeader}

/-- The child finds its parent unknown, then the parent is imported, then the
child is put among the blocks that wait. -/
def crossing : Pool Place Shared Reply Call :=
  (List.replicate 16 0 ++ List.replicate 40 1 ++ List.replicate 5 0).foldl Pool.advance
    (startAll familyCalls)

/-- The import of the child returns before that of the parent begins. -/
def inTurn : Pool Place Shared Reply Call :=
  (List.replicate 20 0 ++ List.replicate 90 1).foldl Pool.advance (startAll familyCalls)

theorem reaches_family (permits : Place → Shared → Prop) :
    (imports Engine.sampleNode family permits).Reaches ⟨sampleShared, []⟩
      (startAll familyCalls) := by
  apply Setting.reaches_startAll
  intro call hmem
  rcases List.mem_cons.mp hmem with rfl | hmem
  · exact ⟨.newPayloadInternal _ _ _ _ _ _, .inr rfl⟩
  · obtain rfl := List.mem_singleton.mp hmem
    exact ⟨.newPayloadInternal _ _ _ _ _ _, .inl rfl⟩

end Sample

section Witness

attribute [local instance] keccak keccakHashing keccakProofs idleEvm

/-- The child waits on although its parent is stored and all calls have
returned. -/
theorem forgotten_crossing :
    ∃ pool, (imports Engine.sampleNode family fun _ _ => True).Reaches ⟨sampleShared, []⟩ pool ∧
      (∀ task ∈ pool.tasks, Returned task) ∧ ¬ NoneForgotten pool := by
  refine ⟨crossing, ?_, ?_, ?_⟩
  · unfold crossing
    exact (reaches_family _).trans (Setting.reaches_schedule _ _
      (Pool.admits_of_forall (fun _ _ => trivial) _ _))
  · rw [← sampleHashing_eq]
    decide +kernel
  · intro hnone
    have hstored : crossing.state.Stored firstHash := by
      unfold Shared.Stored
      rw [← sampleHashing_eq]
      decide +kernel
    have hkept : crossing.state.engine.blockTree.getBlock secondHash =
        some (emptyBlock secondHeader) := by
      rw [← sampleHashing_eq]
      decide +kernel
    exact (hnone firstHash hstored).1 _ _ hkept rfl

theorem hashesApart_family : HashesApart family := by
  have hfirst : (emptyBlock firstHeader).hash ≠ B256.zero := by
    rw [← sampleHashing_eq]
    decide +kernel
  have hsecond : (emptyBlock secondHeader).hash ≠ B256.zero := by
    rw [← sampleHashing_eq]
    decide +kernel
  have hapart : hashSlow firstHeader ≠ hashSlow secondHeader := by
    rw [← sampleHashing_eq]
    decide +kernel
  constructor
  · rintro _ ⟨block, rfl | rfl, rfl⟩ _ ⟨other, rfl | rfl, rfl⟩ hhash
    · rfl
    · exact absurd hhash hapart
    · exact absurd hhash.symm hapart
    · rfl
  · rintro block (rfl | rfl)
    · exact hfirst
    · exact hsecond

theorem sound_sampleShared : sampleShared.Sound family := by
  have hget : ∀ (α : Type) (value : α) (hash : B256),
      ((∅ : Table B256 α).insert (emptyBlock genesisHeader).hash value).get hash =
        if hash = (emptyBlock genesisHeader).hash then some value else none :=
    fun α value hash => Table.get_insert ..
  refine ⟨⟨⟨nofun, nofun⟩, nofun⟩, ?_, ?_, rfl⟩
  · intro hash hstored
    unfold Shared.Stored ChainTables.header at hstored
    split at hstored
    · cases hstored
    · change ((Table.insert _ _ _).get hash).isSome at hstored ⊢
      rw [hget] at hstored ⊢
      split at hstored
      next heq =>
        rw [if_pos heq]
        rfl
      next => cases hstored
  · intro hash hbody hne
    unfold Shared.Stored ChainTables.header
    rw [if_neg hne]
    change ((Table.insert _ _ _).get hash).isSome at hbody ⊢
    rw [hget] at hbody ⊢
    split at hbody
    next heq =>
      rw [if_pos heq]
      rfl
    next => cases hbody

theorem noneForgotten_inTurn :
    (∀ task ∈ inTurn.tasks, Returned task) ∧ NoneForgotten inTurn := by
  have hreturned : ∀ task ∈ inTurn.tasks, Returned task := by
    rw [← sampleHashing_eq]
    decide +kernel
  have hadmits : (startAll familyCalls).Admits RaceFree
      (List.replicate 20 0 ++ List.replicate 90 1) := by
    rw [← sampleHashing_eq]
    decide +kernel
  have hreaches : (imports Engine.sampleNode family RaceFree).Reaches ⟨sampleShared, []⟩
      inTurn := by
    unfold inTurn
    exact (reaches_family _).trans (Setting.reaches_schedule _ _ hadmits)
  have hfilled : ∀ block ∈ family, Engine.Filled block := by
    rintro block (rfl | rfl)
    · exact ⟨by decide, .inr rfl⟩
    · exact ⟨by decide, .inr rfl⟩
  exact ⟨hreturned, noneForgotten_of_raceFree ⟨sampleConfig, .inOrder⟩ (fun _ _ => 1)
    hashesApart_family hfilled sound_sampleShared rfl
    hreaches hreturned⟩

end Witness

end WasixEth.Concurrent
