import WasixEth.Engine.Calls
import WasixEth.Engine.TreeMoves

/-! # The attempts of a run

The attempts of a call are the runs of `new_payload_internal_inner` that it
makes, for the block itself and for the blocks that waited for it. What every
attempt and every other change of the block tree keeps is kept by the whole
run.
-/

namespace WasixEth.Engine

open Storage

variable [BlockHashing] [Proofs] (node : Node)

section Attempts

variable (outside : Outside)

/-- The runs that `revalidateChildren` makes. -/
def childAttempts : Engine → List B256 → List Attempt
  | _, [] => []
  | engine, child :: rest =>
      match engine.blockTree.getBlock child with
      | none => childAttempts engine rest
      | some block =>
          let detached := { engine with blockTree := engine.blockTree.removeBlock child }
          ⟨outside, detached, block⟩ ::
            childAttempts (newPayloadInternalInner node outside detached block none none).2 rest

/-- The runs that `revalidateLoop` makes. -/
def loopAttempts : Nat → Engine → List B256 → List Attempt
  | 0, _, _ => []
  | _ + 1, _, [] => []
  | rounds + 1, engine, parentHash :: stack =>
      let children := engine.blockTree.getChildren parentHash
      let detached := { engine with blockTree := engine.blockTree.removeChildren parentHash }
      let (engine, stack) := revalidateChildren node outside detached children stack
      childAttempts node outside detached children ++ loopAttempts rounds engine stack

end Attempts

/-- The arguments of a call of `new_payload_internal`. -/
structure NewPayload where
  outside : Outside
  block : Block
  expectedBlockHash : B256
  expectedBlobVersionedHashes : Option (List B256)
  parentBeaconBlockRoot : Option B256

def NewPayload.call (payload : NewPayload) : Call :=
  .newPayload payload.outside payload.block payload.expectedBlockHash
    payload.expectedBlobVersionedHashes payload.parentBeaconBlockRoot

/-- A block without transactions and what the caller says its hash is. -/
def samplePayload (header : Header) (expectedBlockHash : B256) : NewPayload :=
  ⟨sampleOutside, emptyBlock header, expectedBlockHash, none, none⟩

/-- The block is new, and the arguments of the call fit it. -/
def reachesImport (engine : Engine) (payload : NewPayload) : Bool :=
  let block := payload.block
  let isCancun :=
    (Hardfork.getActiveFork node.config block.header.number block.header.timestamp).isCancunActive
  let cancun : Except String Unit :=
    if isCancun then EthConsensus.validateCancun block payload.expectedBlobVersionedHashes
    else .ok ()
  let beaconRoot : Except String Unit :=
    if isCancun then
      EthConsensus.validateParentBeaconBlockRoot block.header payload.parentBeaconBlockRoot
    else .ok ()
  block.hash = payload.expectedBlockHash && cancun.toBool && beaconRoot.toBool &&
    (engine.chain.blockBodies.get block.hash).isNone

/-- The runs that `importNew` makes. -/
def importAttempts (engine : Engine) (payload : NewPayload) : List Attempt :=
  if engine.blockTree.getInvalidationReason payload.block.hash = some .hard then []
  else match engine.blockTree.getInvalidationReason payload.block.header.parentHash with
    | some _ => []
    | none =>
        ⟨payload.outside, engine, payload.block⟩ ::
          match newPayloadInternalInner node payload.outside engine payload.block
              payload.expectedBlobVersionedHashes payload.parentBeaconBlockRoot with
          | (.ok status, engine) =>
              if status.status = .valid then
                loopAttempts node payload.outside (engine.blockTree.children.length + 1) engine
                  [payload.block.hash]
              else []
          | (.error _, _) => []

/-- The runs that a call makes. -/
def attempts (engine : Engine) (payload : NewPayload) : List Attempt :=
  if engine.reachesImport node payload then engine.importAttempts node payload else []

/-- The attempts of the calls of a run. -/
def runAttempts : Engine → List NewPayload → List Attempt
  | _, [] => []
  | engine, payload :: rest =>
      engine.attempts node payload ++ runAttempts (step node engine payload.call) rest

/-- The engine before each call of a run. -/
def runStates : Engine → List NewPayload → List (Engine × NewPayload)
  | _, [] => []
  | engine, payload :: rest =>
      (engine, payload) :: runStates (step node engine payload.call) rest

theorem log_runPayloads (engine : Engine) (payloads : List NewPayload) :
    engine.chain.headerLog ⊆ (run node engine (payloads.map NewPayload.call)).chain.headerLog := by
  induction payloads generalizing engine with
  | nil => exact List.Subset.refl _
  | cons payload rest ih =>
      have hstep : Extends B256.zero engine (step node engine payload.call) :=
        extends_newPayloadInternal node payload.outside engine payload.block _ _ _
      exact List.Subset.trans hstep.log (ih _)

omit [Proofs] in
theorem keyed_initGenesis {seen : Header → Prop} (genesis : Block) (state : StateTables)
    (hgenesis : seen genesis.header) :
    (initGenesis genesis state).chain.Keyed seen ∧
      (initGenesis genesis state).blockTree.Keyed seen := by
  refine ⟨⟨?_, ?_⟩, ⟨?_, ?_⟩⟩
  · intro hash header hget
    rw [initGenesis, Table.get_insert] at hget
    split at hget
    next heq =>
      cases hget
      exact ⟨hgenesis, heq.symm⟩
    next => cases hget
  · intro entry hmem
    rw [List.mem_singleton.mp hmem]
    exact hgenesis
  · intro hash block hget
    cases hget
  · intro parent child hmem
    cases hmem

/-! ## A call up to the import -/

section Call

variable {node} {engine : Engine} {payload : NewPayload}

theorem step_of_reachesImport (h : engine.reachesImport node payload = true) :
    step node engine payload.call = (engine.importNew node payload.outside payload.block
      payload.expectedBlobVersionedHashes payload.parentBeaconBlockRoot).2 := by
  simp only [reachesImport, Bool.and_eq_true, decide_eq_true_eq, Option.isNone_iff_eq_none] at h
  obtain ⟨⟨⟨hhash, hcancun⟩, hroot⟩, hstored⟩ := h
  dsimp only [step, NewPayload.call, newPayloadInternal]
  rw [if_neg (not_not.mpr hhash)]
  split
  next herror =>
    rw [herror] at hcancun
    cases hcancun
  next herror =>
    rw [herror] at hroot
    cases hroot
  next => simp [hstored]

/-- A call that does not reach the import makes a `Soft` mark at most. -/
theorem step_of_not_reachesImport (h : engine.reachesImport node payload = false) :
    step node engine payload.call = engine ∨
      step node engine payload.call =
        engine.markInvalid payload.block.hash payload.block.header.parentHash .soft := by
  simp only [step, NewPayload.call, newPayloadInternal]
  split
  · split
    · exact .inl rfl
    · exact .inr rfl
  next hhash =>
    have hsoft : ∀ message, (engine.rejectSoft payload.block.hash payload.block.header.parentHash
        message).2 = engine ∨
        (engine.rejectSoft payload.block.hash payload.block.header.parentHash message).2 =
          engine.markInvalid payload.block.hash payload.block.header.parentHash .soft := by
      intro message
      unfold rejectSoft
      dsimp only [invalidStatus]
      split
      · exact .inr rfl
      · exact .inl rfl
    split
    · exact hsoft _
    · exact hsoft _
    next hcancun hroot =>
      split
      · exact .inl rfl
      next hstored =>
        rw [not_not] at hhash
        rw [Option.not_isSome_iff_eq_none] at hstored
        simp only [reachesImport, hcancun, hroot, hhash] at h hstored
        simp [hstored, Except.toBool] at h

end Call

/-! ## What a run keeps -/

/-- A property that every change of an import keeps. The list holds the
children that were taken from the child index and are not tried yet. -/
structure Kept (seen : Header → Prop) (allowed : Attempt → Prop)
    (allowedCall : Engine → NewPayload → Prop) (P : List B256 → Engine → Prop) : Prop where
  inner : ∀ {pending : List B256} {outside : Outside} {engine : Engine} {block : Block},
    P pending engine → allowed ⟨outside, engine, block⟩ → seen block.header →
    ∀ (expected : Option (List B256)) (beaconRoot : Option B256),
      (∀ header ∈ (newPayloadInternalInner node outside engine block expected
        beaconRoot).2.chain.headerLog, seen header) →
      P pending (newPayloadInternalInner node outside engine block expected beaconRoot).2
  skip : ∀ {child : B256} {rest : List B256} {engine : Engine}, P (child :: rest) engine →
    engine.blockTree.getBlock child = none → P rest engine
  take : ∀ {child : B256} {rest : List B256} {outside : Outside} {engine : Engine} {block : Block},
    P (child :: rest) engine → engine.blockTree.getBlock child = some block →
    allowed ⟨outside, { engine with blockTree := engine.blockTree.removeBlock child }, block⟩ →
    seen block.header ∧ P rest { engine with blockTree := engine.blockTree.removeBlock child }
  detach : ∀ {engine : Engine} (parent : B256), P [] engine →
    P (engine.blockTree.getChildren parent)
      { engine with blockTree := engine.blockTree.removeChildren parent }
  soft : ∀ {engine : Engine} (hash parent : B256), P [] engine →
    P [] (engine.markInvalid hash parent .soft)
  inherit : ∀ {engine : Engine} {payload : NewPayload}, P [] engine →
    seen payload.block.header → allowedCall engine payload →
    engine.reachesImport node payload = true →
    engine.blockTree.getInvalidationReason payload.block.header.parentHash = some .hard →
    P [] (engine.markInvalid payload.block.hash payload.block.header.parentHash .hard)

namespace Kept

variable {node} {seen : Header → Prop} {allowed : Attempt → Prop}
  {allowedCall : Engine → NewPayload → Prop} {P : List B256 → Engine → Prop} {engine : Engine}

/-- Along the children that waited, by induction on their list. -/
theorem revalidateChildren (hkept : Kept node seen allowed allowedCall P) {outside : Outside}
    (children stack : List B256) (h : P children engine)
    (hallowed : ∀ attempt ∈ childAttempts node outside engine children, allowed attempt)
    (hlog : ∀ header ∈ (revalidateChildren node outside engine children stack).1.chain.headerLog,
      seen header) :
    P [] (Engine.revalidateChildren node outside engine children stack).1 := by
  induction children generalizing engine stack with
  | nil => exact h
  | cons child rest ih =>
      rw [childAttempts] at hallowed
      cases hblock : engine.blockTree.getBlock child with
      | none =>
          rw [Engine.revalidateChildren, hblock] at hlog ⊢
          rw [hblock] at hallowed
          exact ih _ (hkept.skip h hblock) hallowed hlog
      | some block =>
          obtain ⟨stack', hrest⟩ :=
            exists_revalidateChildren_cons node outside hblock rest stack
          rw [hrest] at hlog ⊢
          rw [hblock] at hallowed
          obtain ⟨hseen, htaken⟩ := hkept.take h hblock (hallowed _ List.mem_cons_self)
          have hgrows : Extends B256.zero _ _ := extends_revalidateChildren node outside
            (newPayloadInternalInner node outside
              { engine with blockTree := engine.blockTree.removeBlock child } block none none).2
            rest stack'
          apply ih _ _ (fun attempt hattempt => hallowed attempt (List.mem_cons_of_mem _ hattempt))
            hlog
          exact hkept.inner htaken (hallowed _ List.mem_cons_self) hseen none none
            (fun header hheader => hlog header (hgrows.log hheader))

theorem revalidateLoop (hkept : Kept node seen allowed allowedCall P) {outside : Outside}
    (rounds : Nat) (stack : List B256) (h : P [] engine)
    (hallowed : ∀ attempt ∈ loopAttempts node outside rounds engine stack, allowed attempt)
    (hlog : ∀ header ∈ (revalidateLoop node outside rounds engine stack).chain.headerLog,
      seen header) :
    P [] (Engine.revalidateLoop node outside rounds engine stack) := by
  induction rounds generalizing engine stack with
  | zero => exact h
  | succ rounds ih =>
      cases stack with
      | nil => exact h
      | cons parentHash stack =>
          rw [Engine.revalidateLoop] at hlog ⊢
          rw [loopAttempts] at hallowed
          have hgrows : Extends B256.zero _ _ := extends_revalidateLoop node outside rounds
            (Engine.revalidateChildren node outside
              { engine with blockTree := engine.blockTree.removeChildren parentHash }
              (engine.blockTree.getChildren parentHash) stack).1
            (Engine.revalidateChildren node outside
              { engine with blockTree := engine.blockTree.removeChildren parentHash }
              (engine.blockTree.getChildren parentHash) stack).2
          apply ih _ _ (fun attempt hattempt => hallowed attempt (List.mem_append_right _ hattempt))
            hlog
          exact hkept.revalidateChildren _ _ (hkept.detach parentHash h)
            (fun attempt hattempt => hallowed attempt (List.mem_append_left _ hattempt))
            (fun header hheader => hlog header (hgrows.log hheader))

/-- The part of a call behind its first checks. -/
theorem importNew (hkept : Kept node seen allowed allowedCall P) (payload : NewPayload)
    (h : P [] engine) (hblock : seen payload.block.header) (hcall : allowedCall engine payload)
    (hreaches : engine.reachesImport node payload = true)
    (hallowed : ∀ attempt ∈ engine.importAttempts node payload, allowed attempt)
    (hlog : ∀ header ∈ (engine.importNew node payload.outside payload.block
      payload.expectedBlobVersionedHashes payload.parentBeaconBlockRoot).2.chain.headerLog,
      seen header) :
    P [] (engine.importNew node payload.outside payload.block
      payload.expectedBlobVersionedHashes payload.parentBeaconBlockRoot).2 := by
  unfold Engine.importNew at hlog ⊢
  unfold importAttempts at hallowed
  dsimp only at hlog ⊢
  split
  · exact h
  next hself =>
    rw [if_neg hself] at hlog hallowed
    cases hparent : engine.blockTree.getInvalidationReason payload.block.header.parentHash with
    | some reason =>
        cases reason with
        | hard => exact hkept.inherit h hblock hcall hreaches hparent
        | soft => exact hkept.soft _ _ h
    | none =>
        simp only [hparent] at hlog hallowed ⊢
        have hinner := hkept.inner h (hallowed _ List.mem_cons_self) hblock
          payload.expectedBlobVersionedHashes payload.parentBeaconBlockRoot
        have hrest := fun attempt hattempt =>
          hallowed attempt (List.mem_cons_of_mem _ hattempt)
        cases himported : newPayloadInternalInner node payload.outside engine payload.block
          payload.expectedBlobVersionedHashes payload.parentBeaconBlockRoot with
        | mk result imported =>
            rw [himported] at hinner hlog hrest
            cases result with
            | error => exact hinner hlog
            | ok status =>
                dsimp only at hinner hlog hrest ⊢
                split
                next hvalid =>
                  rw [if_pos hvalid] at hlog hrest
                  have hgrows : Extends B256.zero _ _ :=
                    extends_revalidateLoop node payload.outside
                      (imported.blockTree.children.length + 1) imported [payload.block.hash]
                  apply hkept.revalidateLoop _ _ _ hrest hlog
                  exact hinner fun header hheader => hlog header (hgrows.log hheader)
                next hvalid =>
                  rw [if_neg hvalid] at hlog
                  exact hinner hlog

/-- One call of `new_payload_internal`. -/
theorem step (hkept : Kept node seen allowed allowedCall P) (payload : NewPayload)
    (h : P [] engine) (hblock : seen payload.block.header) (hcall : allowedCall engine payload)
    (hallowed : ∀ attempt ∈ engine.attempts node payload, allowed attempt)
    (hlog : ∀ header ∈ (step node engine payload.call).chain.headerLog, seen header) :
    P [] (Engine.step node engine payload.call) := by
  unfold attempts at hallowed
  cases hreaches : engine.reachesImport node payload with
  | true =>
      rw [step_of_reachesImport hreaches] at hlog ⊢
      rw [if_pos hreaches] at hallowed
      exact hkept.importNew payload h hblock hcall hreaches hallowed hlog
  | false =>
      rcases step_of_not_reachesImport hreaches with hsame | hmarked
      · rw [hsame]
        exact h
      · rw [hmarked]
        exact hkept.soft _ _ h

end Kept

/-- A run of calls, by induction on them. -/
theorem Kept.run {node : Node} {seen : Header → Prop} {allowed : Attempt → Prop}
    {allowedCall : Engine → NewPayload → Prop} {P : List B256 → Engine → Prop} {engine : Engine}
    (hkept : Kept node seen allowed allowedCall P) (payloads : List NewPayload) (h : P [] engine)
    (hblocks : ∀ payload ∈ payloads, seen payload.block.header)
    (hcalls : ∀ entry ∈ runStates node engine payloads, allowedCall entry.1 entry.2)
    (hallowed : ∀ attempt ∈ runAttempts node engine payloads, allowed attempt)
    (hlog : ∀ header ∈ (run node engine (payloads.map NewPayload.call)).chain.headerLog,
      seen header) :
    P [] (Engine.run node engine (payloads.map NewPayload.call)) := by
  induction payloads generalizing engine with
  | nil => exact h
  | cons payload rest ih =>
      have hstep : P [] (Engine.step node engine payload.call) := by
        apply hkept.step payload h (hblocks payload List.mem_cons_self)
        · exact hcalls _ List.mem_cons_self
        · exact fun attempt hattempt => hallowed attempt (List.mem_append_left _ hattempt)
        · exact fun header hheader => hlog header (log_runPayloads node _ rest hheader)
      apply ih hstep
      · exact fun other hmem => hblocks other (List.mem_cons_of_mem _ hmem)
      · exact fun entry hentry => hcalls entry (List.mem_cons_of_mem _ hentry)
      · exact fun attempt hattempt => hallowed attempt (List.mem_append_right _ hattempt)
      · exact hlog

end WasixEth.Engine
