import WasixEth.Engine.Attempts

/-! # Verdicts on a payload

What becomes of one block on its way through `new_payload_internal_inner`: it
is turned away before it is executed, or it is executed and committed and then
rejected, left without a total difficulty, or stored.
-/

namespace WasixEth.Engine

open Storage

section Tree

theorem OnlyTree.foldl {α : Type} {f : Engine → α → Engine}
    (hf : ∀ engine a, OnlyTree engine (f engine a)) (engine : Engine) (items : List α) :
    OnlyTree engine (items.foldl f engine) := by
  induction items generalizing engine with
  | nil => exact rfl
  | cons a rest ih => exact (hf engine a).trans (ih _)

theorem onlyTree_removeBlocks (engine : Engine) (removed : List B256) :
    OnlyTree engine (removed.foldl (fun engine hash =>
      { engine with blockTree := engine.blockTree.removeBlock hash }) engine) := by
  apply OnlyTree.foldl
  exact fun _ _ => rfl

theorem onlyTree_invalidateLoop (rounds : Nat) (engine : Engine) (stack removed : List B256) :
    OnlyTree engine (invalidateLoop rounds engine stack removed) := by
  induction rounds generalizing engine stack removed with
  | zero => exact onlyTree_removeBlocks engine removed
  | succ rounds ih =>
      cases stack with
      | nil => exact onlyTree_removeBlocks engine removed
      | cons parentHash stack =>
          rw [invalidateLoop]
          have hdetached : OnlyTree engine { engine with
              blockTree := engine.blockTree.removeChildren parentHash } := rfl
          have hmarked := OnlyTree.foldl (fun engine child =>
            (rfl : OnlyTree engine (engine.markInvalid child parentHash .hard)))
            { engine with blockTree := engine.blockTree.removeChildren parentHash }
            (engine.blockTree.getChildren parentHash)
          exact (hdetached.trans hmarked).trans (ih _ _ _)

variable [BlockHashing] [Proofs] (node : Node) (outside : Outside)

/-- The answer of the checks on the ancestors of a block: they pass and change
nothing, or turn the block away. -/
structure TurnsAway (engine : Engine) (answer : Option PayloadStatus × Engine) : Prop where
  only : OnlyTree engine answer.2
  passed : answer.1 = none → answer.2 = engine
  status : ∀ status, answer.1 = some status → status.status ≠ .valid

omit [BlockHashing] [Proofs] in
theorem TurnsAway.pass (engine : Engine) : TurnsAway engine (none, engine) :=
  ⟨rfl, fun _ => rfl, nofun⟩

omit [BlockHashing] [Proofs] in
theorem TurnsAway.stop {engine after : Engine} {status : PayloadStatus}
    (honly : OnlyTree engine after) (hstatus : status.status ≠ .valid) :
    TurnsAway engine (some status, after) := by
  refine ⟨honly, nofun, ?_⟩
  rintro _ ⟨⟩
  exact hstatus

theorem turnsAway_validateAncestors (steps : Nat) (engine : Engine) (current : B256) :
    TurnsAway engine (validateAncestors node outside steps engine current) := by
  induction steps generalizing current with
  | zero => exact .pass engine
  | succ steps ih =>
      rw [validateAncestors]
      split
      · exact .pass engine
      next header _ =>
        dsimp only
        split
        · have hmarked : OnlyTree engine (engine.markInvalid current header.parentHash .hard) := rfl
          exact .stop (hmarked.trans (onlyTree_invalidateLoop _ _ _ _)) (by simp)
        · have hcontinued : TurnsAway engine (if header.parentHash = B256.zero then (none, engine)
              else validateAncestors node outside steps engine header.parentHash) := by
            split
            · exact .pass engine
            · exact ih _
          split
          · exact hcontinued
          · split
            · exact hcontinued
            · split
              · exact .stop rfl (by simp)
              · exact .stop rfl (by simp)

theorem turnsAway_validateParentBlock (engine : Engine) (parentHash : B256) :
    TurnsAway engine (engine.validateParentBlock node outside parentHash) := by
  unfold validateParentBlock
  split
  · exact .stop rfl nofun
  · dsimp only
    split
    · exact .stop rfl nofun
    · exact turnsAway_validateAncestors node outside 16 engine parentHash

end Tree

/-! ## The ways of a block -/

section Verdicts

variable [BlockHashing] [Proofs] (node : Node) (outside : Outside) (engine : Engine)
  (block : Block)

/-- Nothing of the database has changed but the payloads. -/
structure Untouched (before after : Engine) : Prop where
  state : after.state = before.state
  canonical : after.canonical = before.canonical
  chain : after.chain = { before.chain with payloads := after.chain.payloads }

omit [BlockHashing] [Proofs] in
theorem OnlyTree.untouched {before after : Engine} (h : OnlyTree before after) :
    Untouched before after := by
  rw [h]
  exact ⟨rfl, rfl, rfl⟩

omit [BlockHashing] [Proofs] in
theorem Untouched.trans {e e' e'' : Engine} (h : Untouched e e') (h' : Untouched e' e'') :
    Untouched e e'' where
  state := h'.state.trans h.state
  canonical := h'.canonical.trans h.canonical
  chain := by
    rw [h'.chain, h.chain]

/-- The block passed every check up to its execution, which returned. -/
structure Executes (parent : Header) (executed : ExecutedBlock) (state : StateTables) : Prop where
  ancestors : (engine.validateParentBlock node outside block.header.parentHash).1 = none
  parent_eq : engine.chain.header Faults.none block.header.parentHash = some parent
  header : engine.validateHeader node outside block.header parent = .ok ()
  body : EthConsensus.validateBody node.config engine.chain.headerTd block = .ok ()
  result : node.execution.executeBlockWithStateRoot Faults.none engine.database block
    (some parent.stateRoot) = (.ok executed, state)

/-- The total difficulty of the parent, as it is looked up for storing. -/
def parentTd (header : Header) : Option U256 :=
  if header.number = 0 then some 0 else engine.chain.headerTd.get header.parentHash

/-- The state of the engine and the answer, by what happened to the block. -/
inductive Verdict : Except RpcError PayloadStatus → Engine → Prop where
  | turnedAway {status : PayloadStatus} {after : Engine} :
      status.status ≠ .valid → Untouched engine after → Verdict (.ok status) after
  | mismatched {parent : Header} {executed : ExecutedBlock} {state : StateTables}
      {message : String} {status : PayloadStatus} {after : Engine} :
      Executes node outside engine block parent executed state →
      validateExecuted executed = .error message → status.status ≠ .valid →
      Untouched { engine with state } after → Verdict (.ok status) after
  | withoutTd {parent : Header} {executed : ExecutedBlock} {state : StateTables}
      {error : RpcError} {after : Engine} :
      Executes node outside engine block parent executed state →
      validateExecuted executed = .ok () → engine.parentTd executed.block.header = none →
      Untouched { engine with state } after → Verdict (.error error) after
  | stored {parent : Header} {executed : ExecutedBlock} {state : StateTables} {td : U256}
      {after : Engine} :
      Executes node outside engine block parent executed state →
      validateExecuted executed = .ok () → engine.parentTd executed.block.header = some td →
      OnlyTree ({ engine with state }.persistBlock executed (td + executed.block.header.difficulty))
        after →
      Verdict (.ok ⟨.valid, some block.hash⟩) after

omit [Proofs] in
theorem untouched_rejectHard (hash parentHash : B256) (message : String) :
    Untouched engine (engine.rejectHard hash parentHash message).2 := ⟨rfl, rfl, rfl⟩

omit [Proofs] in
theorem untouched_rejectSoft (hash parentHash : B256) (message : String) :
    Untouched engine (engine.rejectSoft hash parentHash message).2 := by
  unfold rejectSoft
  dsimp only [invalidStatus]
  split <;> exact ⟨rfl, rfl, rfl⟩

omit [Proofs] in
theorem untouched_rejectBody (message : String) :
    Untouched engine (engine.rejectBody block message).2 ∧
      ∃ status, (engine.rejectBody block message).1 = .ok status ∧ status.status ≠ .valid := by
  unfold rejectBody
  split
  · split
    · exact ⟨⟨rfl, rfl, rfl⟩, _, rfl, nofun⟩
    · exact ⟨⟨rfl, rfl, rfl⟩, _, rfl, nofun⟩
  · exact ⟨⟨rfl, rfl, rfl⟩, _, rfl, nofun⟩

variable {node outside engine block}

theorem verdict_executePayload {parent : Header}
    (hancestors : (engine.validateParentBlock node outside block.header.parentHash).1 = none)
    (hparent : engine.chain.header Faults.none block.header.parentHash = some parent)
    (hbody : EthConsensus.validateBody node.config engine.chain.headerTd block = .ok ()) :
    Verdict node outside engine block (engine.executePayload node outside block parent).1
      (engine.executePayload node outside block parent).2 := by
  unfold executePayload
  split
  · exact .turnedAway nofun (untouched_rejectHard _ _ _ _)
  next hheader =>
    split
    next message state hfailed =>
      have hstate : state = engine.state := node.execution.state_of_error hfailed
      rw [hstate]
      exact .turnedAway nofun (untouched_rejectHard _ _ _ _)
    next executed state hexecuted =>
      have hexecutes : Executes node outside engine block parent executed state :=
        ⟨hancestors, hparent, hheader, hbody, hexecuted⟩
      unfold storeExecuted
      split
      next message hmismatch =>
        exact .mismatched hexecutes hmismatch nofun (untouched_rejectHard _ _ _ _)
      next hmatches =>
        dsimp only
        split
        next htd => exact .withoutTd hexecutes hmatches htd ⟨rfl, rfl, rfl⟩
        next td htd => exact .stored hexecutes hmatches htd rfl

theorem verdict_withoutParent :
    Verdict node outside engine block (engine.withoutParent node outside block).1
      (engine.withoutParent node outside block).2 := by
  unfold withoutParent
  dsimp only
  split
  · exact .turnedAway nofun ⟨rfl, rfl, rfl⟩
  · split
    · exact .turnedAway nofun ⟨rfl, rfl, rfl⟩
    · split
      · exact .turnedAway nofun ⟨rfl, rfl, rfl⟩
      · exact .turnedAway nofun ⟨rfl, rfl, rfl⟩

theorem verdict_importChild
    (hbody : EthConsensus.validateBody node.config engine.chain.headerTd block = .ok ()) :
    Verdict node outside engine block (engine.importChild node outside block).1
      (engine.importChild node outside block).2 := by
  have haway := turnsAway_validateParentBlock node outside engine block.header.parentHash
  unfold importChild
  dsimp only
  split
  next status checked hchecked =>
    rw [hchecked] at haway
    have hstatus := haway.status status rfl
    split
    · exact .turnedAway hstatus (haway.only.untouched.trans ⟨rfl, rfl, rfl⟩)
    · have hmarked : OnlyTree checked
          (checked.markInvalid block.hash block.header.parentHash .hard) := rfl
      exact .turnedAway hstatus (haway.only.untouched.trans
        (hmarked.trans (onlyTree_invalidateLoop _ _ _ _)).untouched)
  next checked hchecked =>
    rw [hchecked] at haway
    obtain rfl : checked = engine := haway.passed rfl
    have hancestors := congrArg Prod.fst hchecked
    split
    next parent hparent => exact verdict_executePayload hancestors hparent hbody
    next => exact verdict_withoutParent

/-- Every block takes one of the ways. -/
theorem verdict_newPayloadInternalInner (node : Node) (outside : Outside) (engine : Engine)
    (block : Block) (expected : Option (List B256)) (beaconRoot : Option B256) :
    Verdict node outside engine block
      (newPayloadInternalInner node outside engine block expected beaconRoot).1
      (newPayloadInternalInner node outside engine block expected beaconRoot).2 := by
  unfold newPayloadInternalInner
  dsimp only
  split
  · exact .turnedAway nofun (untouched_rejectSoft _ _ _ _)
  · split
    next message _ =>
      obtain ⟨huntouched, status, hstatus, hinvalid⟩ :=
        untouched_rejectBody engine block message
      rw [hstatus]
      exact .turnedAway hinvalid huntouched
    next hbody =>
      split
      · exact .turnedAway nofun (untouched_rejectSoft _ _ _ _)
      · exact verdict_importChild hbody

/-! ## The whole call -/

variable (node) in
/-- The block of a call is tried: it is new, and neither it nor its parent is
marked in a way that ends the call. -/
def triesBlock (engine : Engine) (payload : NewPayload) : Bool :=
  engine.reachesImport node payload &&
    engine.blockTree.getInvalidationReason payload.block.hash ≠ some .hard &&
    (engine.blockTree.getInvalidationReason payload.block.header.parentHash).isNone

/-- The answer of a call and the engine after it. -/
def answer (node : Node) (engine : Engine) (payload : NewPayload) :
    Except RpcError PayloadStatus × Engine :=
  engine.newPayloadInternal node payload.outside payload.block payload.expectedBlockHash
    payload.expectedBlobVersionedHashes payload.parentBeaconBlockRoot

/-- What a call makes of the outcome of its block. -/
def finish (node : Node) (payload : NewPayload) :
    Except RpcError PayloadStatus × Engine → Except RpcError PayloadStatus × Engine
  | (.ok status, engine) => (.ok status, if status.status = .valid then
      engine.revalidateDependentPayloads node payload.outside payload.block.hash else engine)
  | (.error error, engine) => (.error error, engine)

variable {payload : NewPayload}

theorem answer_of_triesBlock (h : engine.triesBlock node payload = true) :
    answer node engine payload = finish node payload (newPayloadInternalInner node payload.outside
      engine payload.block payload.expectedBlobVersionedHashes payload.parentBeaconBlockRoot) := by
  simp only [triesBlock, reachesImport, Bool.and_eq_true, decide_eq_true_eq,
    Option.isNone_iff_eq_none] at h
  obtain ⟨⟨⟨⟨⟨hhash, hcancun⟩, hroot⟩, hstored⟩, hself⟩, hparent⟩ := h
  unfold answer newPayloadInternal
  dsimp only
  rw [if_neg (not_not.mpr hhash)]
  split
  next herror =>
    rw [herror] at hcancun
    cases hcancun
  next herror =>
    rw [herror] at hroot
    cases hroot
  next =>
    rw [hstored, if_neg (by simp), importNew, if_neg hself, hparent]
    dsimp only
    generalize newPayloadInternalInner node payload.outside engine payload.block
      payload.expectedBlobVersionedHashes payload.parentBeaconBlockRoot = outcome
    obtain ⟨result, after⟩ := outcome
    cases result <;> rfl

/-- A block that passes the checks and executes gets as far as being stored. -/
theorem inner_of_executes (hreaches : engine.reachesImport node payload = true)
    {parent : Header} {executed : ExecutedBlock} {state : StateTables}
    (h : Executes node payload.outside engine payload.block parent executed state) :
    newPayloadInternalInner node payload.outside engine payload.block
        payload.expectedBlobVersionedHashes payload.parentBeaconBlockRoot =
      { engine with state }.storeExecuted payload.block.hash payload.block.header.parentHash
        executed := by
  simp only [reachesImport, Bool.and_eq_true] at hreaches
  obtain ⟨⟨⟨-, hcancun⟩, hroot⟩, -⟩ := hreaches
  have hchecked : engine.validateParentBlock node payload.outside
      payload.block.header.parentHash = (none, engine) := by
    have haway := turnsAway_validateParentBlock node payload.outside engine
      payload.block.header.parentHash
    exact Prod.ext h.ancestors (haway.passed h.ancestors)
  have himport : engine.importChild node payload.outside payload.block =
      { engine with state }.storeExecuted payload.block.hash payload.block.header.parentHash
        executed := by
    unfold importChild
    dsimp only
    rw [hchecked]
    dsimp only
    rw [h.parent_eq]
    dsimp only
    unfold executePayload
    rw [h.header]
    dsimp only
    rw [h.result]
  unfold newPayloadInternalInner
  dsimp only
  split
  next herror =>
    rw [herror] at hcancun
    cases hcancun
  next =>
    rw [h.body]
    dsimp only
    split
    next herror =>
      rw [herror] at hroot
      cases hroot
    next => exact himport

/-- A block that is not tried leaves the database as it is, and is answered
`VALID` only where it is stored. -/
theorem answer_of_not_triesBlock (h : engine.triesBlock node payload = false) :
    Untouched engine (answer node engine payload).2 := by
  have hanswer : (answer node engine payload).2 = step node engine payload.call := by
    unfold answer NewPayload.call step
    rfl
  rw [hanswer]
  cases hreaches : engine.reachesImport node payload with
  | false =>
      rcases step_of_not_reachesImport hreaches with hsame | hmarked
      · rw [hsame]
        exact ⟨rfl, rfl, rfl⟩
      · rw [hmarked]
        exact ⟨rfl, rfl, rfl⟩
  | true =>
      rw [step_of_reachesImport hreaches]
      unfold importNew
      dsimp only
      split
      · exact ⟨rfl, rfl, rfl⟩
      next hself =>
        split
        · exact ⟨rfl, rfl, rfl⟩
        · exact ⟨rfl, rfl, rfl⟩
        next hparent => simp [triesBlock, hreaches, hself, hparent] at h

end Verdicts

end WasixEth.Engine
