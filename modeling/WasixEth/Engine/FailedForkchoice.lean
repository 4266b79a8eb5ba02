import WasixEth.Engine.Calls

/-! # Failed fork choices

The new fork choice is stored before the canonical chain follows it, and only
one of the ways to fail afterwards restores the old one. So a failed call
changes nothing exactly when the call cannot both get past its checks and name
a new head that is known.
-/

namespace WasixEth.Engine

open Storage

/-- The answers that say the fork choice was not taken. -/
def Failed : Except RpcError ForkchoiceUpdated → Prop
  | .error (.internal _) => True
  | .error (.invalidForkchoiceState _) => True
  | .error (.invalidPayloadAttributes _) => False
  | .error (.unsupportedFork _) => False
  | .ok updated => updated.payloadStatus.status ≠ .valid

/-- The fork choice, the canonical chain and the latest state are the same. -/
structure Unchanged (before after : Engine) : Prop where
  canonical : after.canonical = before.canonical
  forkchoice : after.chain.forkchoice = before.chain.forkchoice
  canonicalHeads : after.chain.canonicalHeads = before.chain.canonicalHeads
  accounts : after.state.accounts = before.state.accounts
  storages : after.state.storages = before.state.storages

theorem Unchanged.refl (engine : Engine) : Unchanged engine engine := ⟨rfl, rfl, rfl, rfl, rfl⟩

/-! ## Storing a fork choice -/

section UpdateState

variable (engine : Engine) (faults : Faults) (state : ForkchoiceState) (number : Nat)

@[simp] theorem updateState_canonical :
    (engine.updateState faults state number).canonical = ⟨state, number⟩ := by
  unfold updateState
  split
  next h => exact h
  next => rfl

/-- Only the fork choice table is written. -/
theorem updateState_chain :
    (engine.updateState faults state number).chain =
      { engine.chain with
        forkchoice := (engine.updateState faults state number).chain.forkchoice } := by
  unfold updateState writeForkchoice
  split
  · rfl
  · dsimp only
    split <;> rfl

@[simp] theorem updateState_headers :
    (engine.updateState faults state number).chain.headers = engine.chain.headers := by
  rw [updateState_chain]

@[simp] theorem updateState_payloads :
    (engine.updateState faults state number).chain.payloads = engine.chain.payloads := by
  rw [updateState_chain]

end UpdateState

section Outcome

variable [BlockHashing] (node : Node) (outside : Outside)

omit [BlockHashing] in
theorem header_eq_none {tables : ChainTables} (faults : Faults) {hash : B256}
    (h : tables.headers.get hash = none) : tables.header faults hash = none := by
  unfold ChainTables.header Faults.read
  rw [h]
  simp

theorem headerOrPayload_eq_none {tables : ChainTables} (faults : Faults) {hash : B256}
    (hheader : tables.headers.get hash = none)
    (hpayload : tables.getPayloadByBlockHash Faults.none hash = none) :
    tables.headerOrPayload faults hash = none := by
  have hread : tables.getPayloadByBlockHash (faults.part 1) hash = none := by
    rw [ChainTables.getPayloadByBlockHash, Faults.read_none] at hpayload
    rw [ChainTables.getPayloadByBlockHash, hpayload]
    simp [Faults.read]
  rw [ChainTables.headerOrPayload, header_eq_none _ hheader, hread]
  rfl

theorem exists_headerOrPayload {tables : ChainTables} {hash : B256} (hzero : hash ≠ B256.zero)
    (h : (tables.headers.get hash).isSome ∨
      (tables.getPayloadByBlockHash Faults.none hash).isSome) :
    ∃ header, tables.headerOrPayload Faults.none hash = some header := by
  rw [← Option.isSome_iff_exists]
  simpa [ChainTables.headerOrPayload, ChainTables.header, hzero] using h

/-- Once the head is in place the call does not fail any more. -/
theorem not_failed_finish (faults : Faults) (engine : Engine) (head : B256)
    {status : PayloadStatus} (hstatus : status.status = .valid)
    (attributes : Option PayloadAttributes) (version : Nat) :
    ¬ Failed (engine.finishForkchoice node outside faults head status attributes version).1 := by
  unfold finishForkchoice
  cases attributes with
  | none => simp [Failed, hstatus]
  | some attributes =>
      have hfork : ∀ error, forkValidation node version attributes = .error error →
          ¬ Failed (.error error) := by
        intro error herror
        unfold forkValidation at herror
        simp only at herror
        split_ifs at herror <;> · cases herror; simp [Failed]
      dsimp only
      cases hcheck : engine.checkAttributes node (faults.part 0) head version attributes with
      | ok _ => simp [Failed, hstatus]
      | error error =>
          simp only
          unfold checkAttributes at hcheck
          split at hcheck
          · split at hcheck
            · cases hcheck
              simp [Failed]
            · exact hfork error hcheck
          · exact hfork error hcheck

/-- A branch with no new blocks is adopted without any access. -/
theorem adoptBranch_nil (faults : Faults) (engine : Engine) :
    engine.adoptBranch node faults [] = (.ok (), engine) := rfl

/-- There is nothing to resolve for the zero hash and for the current head. -/
theorem resolveReorg_trivial (tables : ChainTables) (faults : Faults) {oldHead newHead : B256}
    (h : newHead = B256.zero ∨ newHead = oldHead) :
    ∃ common, tables.resolveReorg faults oldHead newHead = .ok ⟨common, [], false⟩ := by
  unfold ChainTables.resolveReorg ChainTables.walkBound
  by_cases hzero : newHead = B256.zero
  · subst hzero
    simp [ChainTables.walkBack]
  · obtain rfl : newHead = oldHead := h.resolve_left hzero
    simp [ChainTables.walkBack, hzero]

theorem switchBranch_trivial (faults : Faults) (engine : Engine) {old : CanonicalState}
    {newHead : B256} (h : newHead = B256.zero ∨ newHead = old.state.headBlockHash) :
    engine.switchBranch node faults old newHead = (.ok (), engine) := by
  obtain ⟨common, hresolve⟩ := resolveReorg_trivial engine.chain (faults.part 0) h
  rw [switchBranch, hresolve]
  simp [andThen, revertFor, adoptBranch_nil]

/-! ## What a failed call leaves behind -/

/-- Some pattern of failing reads lets the call get past its checks. -/
def PassesChecks (engine : Engine) (state : ForkchoiceState) : Prop :=
  ∃ faults : Faults,
    (engine.headStatus (faults.part 0) state.headBlockHash).status = .valid ∧
      ∃ number, engine.checkForkchoice (faults.part 1) state = .ok number

/-- The head is not the current one, and its header or a payload is stored. -/
structure NamesNewHead (engine : Engine) (state : ForkchoiceState) : Prop where
  ne_zero : state.headBlockHash ≠ B256.zero
  ne_head : state.headBlockHash ≠ engine.canonical.state.headBlockHash
  known : (engine.chain.headers.get state.headBlockHash).isSome ∨
    (engine.chain.getPayloadByBlockHash Faults.none state.headBlockHash).isSome

theorem not_failed_apply (faults : Faults) (engine : Engine) {state : ForkchoiceState}
    {status : PayloadStatus} (hstatus : status.status = .valid) (number : Nat)
    (attributes : Option PayloadAttributes) (version : Nat)
    (h : ¬ engine.NamesNewHead state) :
    ¬ Failed (engine.applyForkchoice node outside faults state status number attributes
      version).1 := by
  unfold applyForkchoice
  dsimp only
  split
  · exact not_failed_finish node outside _ _ _ hstatus _ _
  next header hheader =>
    have htrivial : state.headBlockHash = B256.zero ∨
        state.headBlockHash = engine.canonical.state.headBlockHash := by
      by_contra hne
      rw [not_or] at hne
      refine h ⟨hne.1, hne.2, ?_⟩
      by_contra hunknown
      rw [not_or, Option.not_isSome_iff_eq_none, Option.not_isSome_iff_eq_none] at hunknown
      rw [headerOrPayload_eq_none] at hheader
      · cases hheader
      · simpa using hunknown.1
      · simpa [ChainTables.getPayloadByBlockHash] using hunknown.2
    rw [switchBranch_trivial node _ _ htrivial]
    exact not_failed_finish node outside _ _ _ hstatus _ _

/-- The walk fails when the data of a stored block cannot be read. -/
theorem resolveReorg_stored (tables : ChainTables) {oldHead newHead : B256} {header : Header}
    (hzero : newHead ≠ B256.zero) (hne : newHead ≠ oldHead)
    (hheader : tables.headers.get newHead = some header) :
    ∃ (faults : Faults) (message : String),
      tables.resolveReorg faults oldHead newHead = .error message := by
  -- The number and the block data cannot be read, the header can.
  refine ⟨Faults.join fun | 1 => Faults.none | _ => Faults.all,
    s!"Block data missing for hash {newHead} during reorg walk-back", ?_⟩
  simp [ChainTables.resolveReorg, ChainTables.walkBound, ChainTables.walkBack, hzero, hne,
    ChainTables.isCanonical, ChainTables.blockNumber, ChainTables.header, hheader,
    ChainTables.blockOrPayload, ChainTables.blockByHash, ChainTables.getPayloadByBlockHash]

/-- A payload is found as the only new block when nothing behind it can be
read. -/
theorem resolveReorg_payload (tables : ChainTables) {oldHead newHead : B256} {payload : Payload}
    (hzero : newHead ≠ B256.zero) (hne : newHead ≠ oldHead)
    (hheader : tables.headers.get newHead = none)
    (hpayload : tables.getPayloadByBlockHash Faults.none newHead = some payload) :
    ∃ (faults : Faults) (common : B256),
      tables.resolveReorg faults oldHead newHead = .ok ⟨common, [payload.block], false⟩ := by
  have hwalk : ∀ fuel, ∃ common found,
      tables.walkBack oldHead (fuel + 1) Faults.all payload.block.header.parentHash =
        .ok ⟨common, found, []⟩ ∧ (found = true → common = oldHead) := by
    intro fuel
    by_cases hparentZero : payload.block.header.parentHash = B256.zero
    · exact ⟨B256.zero, false, by simp [ChainTables.walkBack, hparentZero], by simp⟩
    · by_cases hparentOld : payload.block.header.parentHash = oldHead
      · refine ⟨oldHead, true, ?_, by simp⟩
        rw [hparentOld] at hparentZero
        simp [ChainTables.walkBack, hparentOld, hparentZero]
      · refine ⟨B256.zero, false, ?_, by simp⟩
        simp [ChainTables.walkBack, hparentZero, hparentOld, ChainTables.isCanonical,
          ChainTables.blockNumber, ChainTables.header, ChainTables.getPayloadByBlockHash]
  obtain ⟨common, found, hrest, hfound⟩ :=
    hwalk ((tables.headerOrPayload Faults.none newHead).map (·.number) |>.getD 0)
  refine ⟨Faults.join fun | 4 => Faults.none | _ => Faults.all, common, ?_⟩
  have hstep : tables.walkBack oldHead (tables.walkBound newHead)
      (Faults.join fun | 4 => Faults.none | _ => Faults.all) newHead =
        .ok ⟨common, found, [payload.block]⟩ := by
    rw [ChainTables.walkBound, ChainTables.walkBack]
    simp only [hzero, hne, Faults.part_join, hpayload, hrest, header_eq_none _ hheader,
      ChainTables.isCanonical, ChainTables.blockNumber, Faults.part_all, Faults.read_all,
      if_false, Bool.false_eq_true]
  rw [ChainTables.resolveReorg, hstep]
  cases found with
  | false => simp
  | true =>
      obtain rfl := hfound rfl
      simp [Ne.symm hne]

/-- A block that is only among the payloads cannot be adopted when no batch can
be begun. -/
theorem adoptBranch_all (engine : Engine) (block : Block) (rest : List Block) :
    ∃ (message : String) (final : Engine),
      engine.adoptBranch node Faults.all (block :: rest) = (.error message, final) ∧
        final.canonical = engine.canonical := by
  have hbegin : Faults.all.now = true := rfl
  obtain ⟨message, hexecute⟩ := @ExecutionProvider.error_of_now _ node.execution Faults.all
    engine.database block none hbegin
  cases hrun : node.execution.executeBlockWithStateRoot Faults.all engine.database block none with
  | mk result state =>
      rw [hrun] at hexecute
      simp only at hexecute
      subst hexecute
      refine ⟨s!"Failed to execute block from payload during promotion: {message}",
        { engine with state }, ?_, rfl⟩
      simp [adoptBranch, executeMissing, ChainTables.blockBodyByHash,
        ExecutionProvider.executeBlockWithCommit, hrun, andThen]

/-- Past its checks, a call for a new head can fail after the fork choice has
been stored. -/
theorem exists_failed_apply (engine : Engine) {state : ForkchoiceState} (status : PayloadStatus)
    (number : Nat) (attributes : Option PayloadAttributes) (version : Nat)
    (h : engine.NamesNewHead state) :
    ∃ faults : Faults,
      Failed (engine.applyForkchoice node outside faults state status number attributes
        version).1 ∧
      (engine.applyForkchoice node outside faults state status number attributes
        version).2.canonical.state = state := by
  set updated := engine.updateState Faults.none state
    (engine.headNumberOf Faults.none state.headBlockHash number) with hupdated
  -- It is enough that moving the chain fails without touching the fork choice.
  suffices hswitch : ∃ (faults : Faults) (message : String) (final : Engine),
      updated.switchBranch node faults engine.canonical state.headBlockHash =
        (.error message, final) ∧ final.canonical.state = state by
    obtain ⟨faults, message, final, hswitch, hfinal⟩ := hswitch
    obtain ⟨header, hheader⟩ : ∃ header,
        updated.chain.headerOrPayload Faults.none state.headBlockHash = some header := by
      apply exists_headerOrPayload h.ne_zero
      simpa [hupdated, ChainTables.getPayloadByBlockHash] using h.known
    refine ⟨Faults.join fun | 4 => faults | _ => Faults.none, ?_⟩
    simp only [applyForkchoice, Faults.part_join, ← hupdated, hheader, hswitch]
    exact ⟨trivial, hfinal⟩
  cases hheader : engine.chain.headers.get state.headBlockHash with
  | some header =>
      obtain ⟨faults, message, hresolve⟩ := resolveReorg_stored updated.chain h.ne_zero h.ne_head
        (by rw [hupdated, updateState_headers, hheader])
      refine ⟨Faults.join fun | 0 => faults | _ => Faults.none,
        s!"Reorg resolution failed: {message}", updated, ?_, by simp [hupdated]⟩
      simp only [switchBranch, Faults.part_join, hresolve]
  | none =>
      obtain ⟨payload, hpayload⟩ := Option.isSome_iff_exists.mp
        (h.known.resolve_left (by simp [hheader]))
      obtain ⟨faults, common, hresolve⟩ := resolveReorg_payload updated.chain h.ne_zero h.ne_head
        (by rw [hupdated, updateState_headers, hheader])
        (by simpa [hupdated, ChainTables.getPayloadByBlockHash] using hpayload)
      obtain ⟨message, final, hadopt, hfinal⟩ :=
        adoptBranch_all node updated payload.block []
      refine ⟨Faults.join fun | 0 => faults | _ => Faults.all, message, final, ?_,
        by simp [hfinal, hupdated]⟩
      simp only [switchBranch, Faults.part_join, hresolve]
      simpa [andThen, revertFor] using hadopt

/-- A failed fork choice changes nothing, whatever accesses fail, if and only
if the call cannot get past its checks or does not name a new head. -/
theorem unchanged_of_failed_iff (engine : Engine) (state : ForkchoiceState)
    (attributes : Option PayloadAttributes) (version : Nat) :
    (∀ faults,
      Failed (engine.forkchoiceUpdated node outside faults state attributes version).1 →
      Unchanged engine (engine.forkchoiceUpdated node outside faults state attributes version).2) ↔
      ¬ engine.PassesChecks state ∨ ¬ engine.NamesNewHead state := by
  constructor
  · intro hunchanged
    by_contra h
    rw [not_or, not_not, not_not] at h
    obtain ⟨⟨checks, hstatus, number, hnumber⟩, hnew⟩ := h
    obtain ⟨faults, hfailed, hfinal⟩ := exists_failed_apply node outside engine
      (engine.headStatus (checks.part 0) state.headBlockHash) number attributes version hnew
    have hrun : engine.forkchoiceUpdated node outside
        (Faults.join fun | 0 => checks.part 0 | 1 => checks.part 1 | _ => faults) state attributes
        version = engine.applyForkchoice node outside faults state
          (engine.headStatus (checks.part 0) state.headBlockHash) number attributes version := by
      simp [forkchoiceUpdated, hstatus, hnumber]
    have hsame := hunchanged _ (by rw [hrun]; exact hfailed)
    rw [hrun] at hsame
    apply hnew.ne_head
    rw [← hsame.canonical, hfinal]
  · intro h faults hfailed
    unfold forkchoiceUpdated at hfailed ⊢
    dsimp only at hfailed ⊢
    split at hfailed
    next hstatus =>
      rw [if_pos hstatus]
      exact Unchanged.refl engine
    next hstatus =>
      rw [ne_eq, not_not] at hstatus
      rw [if_neg (by simp [hstatus])]
      cases hcheck : engine.checkForkchoice (faults.part 1) state with
      | error error => exact Unchanged.refl engine
      | ok number =>
          rw [hcheck] at hfailed
          have hnew := h.resolve_left (not_not.mpr ⟨faults, hstatus, number, hcheck⟩)
          exact absurd hfailed
            (not_failed_apply node outside _ engine hstatus number attributes version hnew)

end Outcome

section Sample

attribute [local instance] keccak keccakHashing keccakProofs

/-- The write that marks the new head canonical fails, and the head is in
memory all the same. -/
theorem failed_mark_changes_head :
    Failed ((run sampleNode sampleEngine [importBlock firstHeader]).forkchoiceUpdated sampleNode
        sampleOutside (fun path => path = [2, 4, 2, 1, 0, 1])
        ⟨firstHash, B256.zero, B256.zero⟩ none 1).1 ∧
      ¬ Unchanged (run sampleNode sampleEngine [importBlock firstHeader])
        ((run sampleNode sampleEngine [importBlock firstHeader]).forkchoiceUpdated sampleNode
          sampleOutside (fun path => path = [2, 4, 2, 1, 0, 1])
          ⟨firstHash, B256.zero, B256.zero⟩ none 1).2 := by
  have hresult : ((run sampleNode sampleEngine [importBlock firstHeader]).forkchoiceUpdated
      sampleNode sampleOutside (fun path => path = [2, 4, 2, 1, 0, 1])
      ⟨firstHash, B256.zero, B256.zero⟩ none 1).1 =
        .error (.internal "Canonical marking failed: Storage write failed") ∧
      ((run sampleNode sampleEngine [importBlock firstHeader]).forkchoiceUpdated
        sampleNode sampleOutside (fun path => path = [2, 4, 2, 1, 0, 1])
        ⟨firstHash, B256.zero, B256.zero⟩ none 1).2.canonical.headNumber ≠
        (run sampleNode sampleEngine [importBlock firstHeader]).canonical.headNumber := by
    rw [← sampleHashing_eq]
    decide +kernel
  refine ⟨?_, ?_⟩
  · rw [hresult.1]
    trivial
  · intro hsame
    exact hresult.2 (congrArg CanonicalState.headNumber hsame.canonical)

end Sample

end WasixEth.Engine
