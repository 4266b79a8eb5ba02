import WasixEth.Engine.Runs

/-! # The canonical chain along a run

Every call keeps the canonical chain that of the head, as long as each fork
choice that is accepted moves forward.
-/

namespace WasixEth.Engine

open Storage ChainTables

section Follow

variable [BlockHashing] [Proofs] {node : Node} {genesis : B256}

/-! ## An accepted fork choice -/

section Accepted

variable {engine : Engine} {state : ForkchoiceState}

omit [Proofs] in
theorem invalidHead_ne_valid (faults : Faults) (hash : B256) (message : String)
    (reason : InvalidationReason) :
    (engine.invalidHead faults hash message reason).status ≠ .valid := by
  cases reason <;> simp [invalidHead]

omit [Proofs] in
/-- Only the first look at the head answers `VALID`. -/
theorem determinePayloadStatus_of_headStatus {head : B256}
    (h : (engine.headStatus Faults.none head).status = .valid) :
    (engine.determinePayloadStatus Faults.none head).status = .valid := by
  by_contra hne
  simp only [headStatus, Faults.part_none, hne, if_false] at h
  split at h
  · exact invalidHead_ne_valid _ _ _ _ h
  · split at h
    · exact hne h
    · split at h
      · exact hne h
      · exact invalidHead_ne_valid _ _ _ _ h

omit [Proofs] in
/-- The head of an accepted fork choice is stored or among the payloads. -/
theorem exists_header_of_accepts (hinv : ChainInvariant genesis engine.chain)
    (haccepts : engine.Accepts state) (hzero : state.headBlockHash ≠ B256.zero) :
    ∃ header, engine.chain.headerOrPayload Faults.none state.headBlockHash = some header := by
  have hstatus := determinePayloadStatus_of_headStatus haccepts.1
  by_cases hbody : (engine.chain.blockBodies.get state.headBlockHash).isSome
  · rw [hinv.body_iff] at hbody
    exact exists_headerOrPayload hzero (.inl hbody)
  · by_contra hnone
    rw [← Option.isSome_iff_exists] at hnone
    simp only [determinePayloadStatus, blockBodyByHash, Faults.part_none, Faults.read_none, hbody,
      chainPayloadStatus, hnone, Bool.false_eq_true, if_false] at hstatus
    split at hstatus
    · cases hstatus
    · cases hstatus

omit [Proofs] in
/-- A payload that is not stored has a number above zero. -/
theorem number_pos_of_payloadOnly {hash : B256} {header : Header}
    (hinv : ChainInvariant genesis engine.chain) (hstored : engine.chain.headers.get hash = none)
    (hheader : engine.chain.headerOrPayload Faults.none hash = some header) :
    0 < header.number := by
  rw [headerOrPayload, header_eq_none _ hstored] at hheader
  simp only [Option.none_or, Option.map_eq_some_iff] at hheader
  obtain ⟨payload, hpayload, rfl⟩ := hheader
  have honly : PayloadOnly engine.chain hash payload := ⟨hstored, hpayload⟩
  obtain ⟨parent, _, hnumber⟩ := honly.built hinv
  omega

omit [Proofs] in
/-- The number that is stored with the head is that of its header. -/
theorem headNumberOf_of_check {header : Header} {number : Nat}
    (hinv : ChainInvariant genesis engine.chain) (hzero : state.headBlockHash ≠ B256.zero)
    (hheader : engine.chain.headerOrPayload Faults.none state.headBlockHash = some header)
    (hcheck : engine.checkForkchoice Faults.none state = .ok number) :
    engine.headNumberOf Faults.none state.headBlockHash number = header.number := by
  have hnumber : number = header.number := by
    have hknown : engine.chain.knownHeader Faults.none state.headBlockHash = some header := by
      rw [knownHeader, hheader]
      rfl
    simp only [checkForkchoice, hzero, if_false, Faults.part_none, hknown] at hcheck
    split at hcheck
    · cases hcheck
    · split at hcheck
      · cases hcheck
      · cases hcheck
        rfl
  rw [headNumberOf, ← hnumber]
  split
  next h =>
    cases hstored : engine.chain.headers.get state.headBlockHash with
    | none =>
        have := number_pos_of_payloadOnly hinv hstored hheader
        omega
    | some stored =>
        rw [headerOrPayload, Faults.part_none, hinv.header_eq hstored] at hheader
        simp only [Option.some_or, Option.some.injEq] at hheader
        rw [blockNumber, Faults.read_none, hinv.number_eq hstored, hheader, hnumber]
        rfl
  next => rfl

omit [Proofs] in
/-- A stored head need not be executed. -/
theorem Forward.of_stored {header : Header} (hzero : state.headBlockHash ≠ B256.zero)
    (hstored : engine.chain.headers.get state.headBlockHash = some header)
    (hle : engine.canonical.headNumber ≤ header.number) : engine.Forward node state where
  ne_zero := hzero
  not_lower := by
    intro found hfound
    rw [headerOrPayload, ChainTables.header, if_neg hzero, Faults.part_none, Faults.read_none,
      hstored, Option.some_or, Option.some.injEq] at hfound
    rw [← hfound]
    exact hle
  promotes := by
    intro found _ context payload _ hpayload
    have hnone := hpayload.header_eq
    rw [updateState_headers, hstored] at hnone
    cases hnone

end Accepted

/-! ## One fork choice -/

section Move

variable {outside : Outside} {engine : Engine} {state : ForkchoiceState}

/-- The canonical chain has moved to the head of the fork choice. -/
def Moves (genesis : B256) (state : ForkchoiceState) (after : Engine) : Prop :=
  HashesApart after.chain.headerLog → Invariant genesis after ∧ after.canonical.state = state

omit [Proofs] in
/-- The fork choice table plays no part in the chain. -/
theorem invariant_updateState (hinv : ChainInvariant genesis engine.chain) (number : Nat) :
    ChainInvariant genesis (engine.updateState Faults.none state number).chain := by
  rw [updateState_chain]
  exact ⟨hinv.hash_eq, hinv.logged, hinv.apart, hinv.number_eq, hinv.body_iff, hinv.genesis_mem,
    hinv.parent_mem, hinv.payload_mem⟩

omit [BlockHashing] [Proofs] in
theorem canonicalChain_updateState {head : B256} (hchain : CanonicalChain engine.chain head)
    (number : Nat) : CanonicalChain (engine.updateState Faults.none state number).chain head := by
  rw [updateState_chain]
  exact ⟨hchain.head_mem, hchain.heads_iff⟩

omit [Proofs] in
theorem headerLog_maybeRebuildPayload (id : PayloadId) :
    (engine.maybeRebuildPayload node outside Faults.none id).chain.headerLog =
      engine.chain.headerLog := by
  unfold maybeRebuildPayload
  dsimp only
  repeat' split
  all_goals rfl

omit [Proofs] in
theorem headerLog_buildEmptyPayload (head : B256) (attributes : PayloadAttributes)
    (id : PayloadId) :
    (engine.buildEmptyPayload node Faults.none head attributes id).2.chain.headerLog =
      engine.chain.headerLog := by
  unfold buildEmptyPayload
  repeat' split
  all_goals rfl

omit [Proofs] in
theorem headerLog_buildNewPayload (head : B256) (attributes : PayloadAttributes) :
    (engine.buildNewPayload node outside Faults.none head attributes).2.chain.headerLog =
      engine.chain.headerLog := by
  have hempty : (engine.buildEmptyPayload node Faults.none head attributes
      (node.generatePayloadId head attributes)).2.chain.headerLog = engine.chain.headerLog :=
    headerLog_buildEmptyPayload head attributes _
  unfold buildNewPayload
  dsimp only
  split
  · rfl
  · split
    · rfl
    · split
      · rfl
      · split
        next h =>
          rw [Faults.part_none] at h
          rwa [h] at hempty
        next h =>
          rw [Faults.part_none] at h
          rw [h] at hempty
          exact (headerLog_maybeRebuildPayload _).trans hempty

omit [Proofs] in
theorem headerLog_finishForkchoice (head : B256) (status : PayloadStatus)
    (attributes : Option PayloadAttributes) (version : Nat) :
    (engine.finishForkchoice node outside Faults.none head status attributes
      version).2.chain.headerLog = engine.chain.headerLog := by
  unfold finishForkchoice
  split
  · rfl
  · split
    · rfl
    · exact headerLog_buildNewPayload head _

omit [Proofs] in
/-- Payloads are built on the head, which is stored by then. -/
theorem builds_finishForkchoice {head : B256} {header : Header}
    (hinv : ChainInvariant genesis engine.chain)
    (hheader : engine.chain.headers.get head = some header) (status : PayloadStatus)
    (attributes : Option PayloadAttributes) (version : Nat) :
    Builds genesis engine
      (engine.finishForkchoice node outside Faults.none head status attributes version).2 := by
  unfold finishForkchoice
  split
  · exact .refl engine
  · split
    · exact .refl engine
    · exact builds_buildNewPayload node outside _ hinv hheader

omit [Proofs] in
theorem Builds.canonicalChain {before after : Engine} {head : B256}
    (h : Builds genesis before after) (hchain : CanonicalChain before.chain head) :
    CanonicalChain after.chain head := by
  have hlinks : after.chain.links = before.chain.links := by
    funext hash
    rw [links, links, h.headers]
  refine ⟨by rw [h.headers]; exact hchain.head_mem, ?_⟩
  intro n hash
  rw [h.canonicalHeads, AncestorAt, hlinks]
  exact hchain.heads_iff n hash

omit [Proofs] in
/-- The end of the call, once the branch of the head is adopted. -/
theorem moves_finish {adopted : Engine} {header : Header}
    (hadopts : Adopts genesis state.headBlockHash header adopted) (status : PayloadStatus)
    (attributes : Option PayloadAttributes) (version : Nat) :
    Moves genesis state
      ((adopted.updateState Faults.none state header.number).finishForkchoice node outside
        Faults.none state.headBlockHash status attributes version).2 := by
  have hlog : ((adopted.updateState Faults.none state header.number).finishForkchoice node outside
      Faults.none state.headBlockHash status attributes version).2.chain.headerLog =
        adopted.chain.headerLog := by
    rw [headerLog_finishForkchoice, updateState_chain]
  intro hapart
  rw [hlog] at hapart
  obtain ⟨hinv, hchain, hheader⟩ := hadopts hapart
  have hinv' : ChainInvariant genesis
      (adopted.updateState Faults.none state header.number).chain :=
    invariant_updateState hinv header.number
  have hbuilds : Builds genesis (adopted.updateState Faults.none state header.number)
      ((adopted.updateState Faults.none state header.number).finishForkchoice node outside
        Faults.none state.headBlockHash status attributes version).2 :=
    builds_finishForkchoice hinv' (by rw [updateState_headers]; exact hheader) _ _ _
  have hcanonical := hbuilds.canonical
  rw [updateState_canonical] at hcanonical
  refine ⟨⟨hbuilds.invariant hinv', ?_, ?_⟩, by rw [hcanonical]⟩
  · rw [hcanonical]
    exact hbuilds.canonicalChain (canonicalChain_updateState hchain _)
  · rw [hcanonical, hbuilds.headers, updateState_headers, hheader]
    intro _ h
    rw [← Option.some.inj h]

omit [Proofs] in
/-- An accepted fork choice that moves forward. -/
theorem moves_applyForkchoice (hinv : Invariant genesis engine)
    (haccepts : engine.Accepts state) (hforward : engine.Forward node state)
    {number : Nat} (hcheck : engine.checkForkchoice Faults.none state = .ok number)
    (status : PayloadStatus) (attributes : Option PayloadAttributes) (version : Nat) :
    Moves genesis state (engine.applyForkchoice node outside Faults.none state status number
      attributes version).2 := by
  obtain ⟨header, hheader⟩ := exists_header_of_accepts hinv.chain haccepts hforward.ne_zero
  have hnumber := headNumberOf_of_check hinv.chain hforward.ne_zero hheader hcheck
  have hread : (engine.updateState Faults.none state header.number).chain.headerOrPayload
      Faults.none state.headBlockHash = some header := by
    rw [updateState_chain]
    exact hheader
  have happlies : Applies genesis (engine.updateState Faults.none state header.number)
      engine.canonical state.headBlockHash header := by
    refine ⟨invariant_updateState hinv.chain _, canonicalChain_updateState hinv.canonical _,
      hforward.ne_zero, hread, by rw [updateState_canonical], ?_⟩
    intro oldHeader hold
    rw [updateState_headers] at hold
    rw [← hinv.number_eq oldHeader hold]
    exact hforward.not_lower header hheader
  obtain ⟨adopted, hswitch, hadopts⟩ :=
    switchBranch_none happlies (hforward.promotes header hheader)
  simp only [applyForkchoice, Faults.part_none, hnumber, hread, hswitch]
  exact moves_finish hadopts status attributes version

end Move

/-! ## The headers of a run

Headers are only added, so hashes that do not collide at the end of a run never
did before. -/

section Log

variable {outside : Outside} (engine : Engine)

omit [Proofs] in
theorem log_promotePayload (hash : B256) :
    ∃ after, engine.promotePayload Faults.none hash = (.ok (), after) ∧
      engine.chain.headerLog ⊆ after.chain.headerLog := by
  cases hbody : engine.chain.blockBodies.get hash with
  | some body =>
      exact ⟨engine, promotePayload_stored (by rw [hbody]; rfl), List.Subset.refl _⟩
  | none =>
      cases hpayload : engine.chain.getPayloadByBlockHash Faults.none hash with
      | none =>
          refine ⟨engine, ?_, List.Subset.refl _⟩
          simp [promotePayload, blockBodyByHash, hbody, hpayload]
      | some payload =>
          obtain ⟨after, hafter, _, hstores⟩ :=
            promotePayload_payload hbody hpayload (hash_of_getPayload hpayload)
          refine ⟨after, hafter, ?_⟩
          rw [hstores.headerLog]
          exact List.subset_cons_self _ _

omit [Proofs] in
theorem log_markAll (blocks : List Block) :
    engine.chain.headerLog ⊆ (markAll Faults.none engine blocks).2.chain.headerLog := by
  induction blocks generalizing engine with
  | nil => exact List.Subset.refl _
  | cons block rest ih =>
      obtain ⟨promoted, hpromoted, hlog⟩ := log_promotePayload engine block.hash
      obtain ⟨after, hafter, hmarked⟩ := markCanonical_none hpromoted
      rw [markAll, Faults.part_none, hafter, andThen_ok]
      rw [← hmarked.headerLog] at hlog
      exact List.Subset.trans hlog (ih after)

omit [Proofs] in
theorem chain_executeMissing (blocks : List Block) :
    (executeMissing node Faults.none engine blocks).2.chain = engine.chain := by
  induction blocks generalizing engine with
  | nil => rfl
  | cons block rest ih =>
      rw [executeMissing]
      split
      · exact ih engine
      · split
        · rfl
        · exact ih _

omit [Proofs] in
theorem log_adoptBranch (blocks : List Block) :
    engine.chain.headerLog ⊆ (engine.adoptBranch node Faults.none blocks).2.chain.headerLog := by
  have hexecuted : (executeMissing node Faults.none engine blocks).2.chain = engine.chain :=
    chain_executeMissing engine blocks
  rw [← hexecuted, adoptBranch]
  simp only [Faults.part_none, andThen]
  split
  next message executed hmissing =>
    rw [hmissing]
    exact List.Subset.refl _
  next executed hmissing =>
    rw [hmissing]
    have hmark := log_markAll executed blocks.reverse
    rw [← markBranchCanonical] at hmark
    split
    next h => rwa [h] at hmark
    next h => rwa [h] at hmark

omit [BlockHashing] [Proofs] in
theorem log_revertToHeight (height : Nat) :
    (engine.revertToHeight Faults.none height).2.chain.headerLog = engine.chain.headerLog := by
  obtain ⟨state, hdown⟩ := revertDown_none height engine engine.canonical.headNumber
  rw [revertToHeight, Faults.part_none, hdown, andThen_ok, Faults.part_none, reading_none]
  split
  · rfl
  next hash _ =>
    obtain ⟨forkchoice, canonical, hhead⟩ := updateHead_none { engine with
      chain := withHeads engine.chain
        (eraseBetween engine.chain.canonicalHeads height engine.canonical.headNumber)
      state } hash height
    rw [Faults.part_none, hhead]
    rfl

omit [BlockHashing] [Proofs] in
theorem log_updateState (state : ForkchoiceState) (number : Nat) :
    (engine.updateState Faults.none state number).chain.headerLog = engine.chain.headerLog := by
  rw [updateState_chain]

omit [BlockHashing] [Proofs] in
theorem log_revertFor (old : CanonicalState) (context : ReorgContext) :
    (engine.revertFor Faults.none old context).2.chain.headerLog = engine.chain.headerLog := by
  unfold revertFor
  split
  · unfold revertToCommon
    simp only [Faults.part_none]
    have hlog := log_revertToHeight engine
      (((engine.chain.header Faults.none context.commonAncestorHash).map (·.number)).getD 0)
    split
    next h => rwa [h] at hlog
    next h =>
      rw [h] at hlog
      exact (log_updateState _ _ _).trans hlog
  · rfl

omit [Proofs] in
theorem log_switchBranch (old : CanonicalState) (newHead : B256) :
    engine.chain.headerLog ⊆
      (engine.switchBranch node Faults.none old newHead).2.chain.headerLog := by
  unfold switchBranch
  split
  · exact List.Subset.refl _
  next context _ =>
    rw [← log_revertFor engine old context]
    simp only [Faults.part_none, andThen]
    split
    next h =>
      rw [h]
      exact List.Subset.refl _
    next h =>
      rw [h]
      exact log_adoptBranch _ _

omit [Proofs] in
theorem log_forkchoiceUpdated (state : ForkchoiceState) (attributes : Option PayloadAttributes)
    (version : Nat) :
    engine.chain.headerLog ⊆ (engine.forkchoiceUpdated node outside Faults.none state attributes
      version).2.chain.headerLog := by
  unfold forkchoiceUpdated
  dsimp only
  split
  · exact List.Subset.refl _
  · split
    · exact List.Subset.refl _
    next number _ =>
      unfold applyForkchoice
      simp only [Faults.part_none]
      rw [← log_updateState engine state
        (engine.headNumberOf Faults.none state.headBlockHash number)]
      split
      · rw [headerLog_finishForkchoice]
        exact List.Subset.refl _
      · have hlog : _ ⊆ ((engine.updateState Faults.none state (engine.headNumberOf Faults.none
            state.headBlockHash number)).switchBranch node Faults.none engine.canonical
            state.headBlockHash).2.chain.headerLog := log_switchBranch _ _ _
        split
        next h => rwa [h] at hlog
        next adopted h =>
          rw [h] at hlog
          rw [headerLog_finishForkchoice, log_updateState adopted]
          exact hlog

end Log

/-! ## Calls and runs -/

theorem log_step (engine : Engine) (call : Call) :
    engine.chain.headerLog ⊆ (step node engine call).chain.headerLog := by
  cases call with
  | newPayload outside block expectedBlockHash expected beaconRoot =>
      have hextends : Extends B256.zero engine _ := extends_newPayloadInternal node outside engine
        block expectedBlockHash expected beaconRoot
      exact hextends.log
  | forkchoiceUpdated outside state attributes version =>
      exact log_forkchoiceUpdated engine state attributes version

theorem safeRun_append (engine : Engine) (calls rest : List Call) :
    SafeRun node engine (calls ++ rest) ↔
      SafeRun node engine calls ∧ SafeRun node (run node engine calls) rest := by
  induction calls generalizing engine with
  | nil => simp [SafeRun]
  | cons call calls ih => simp [SafeRun, ih, and_assoc]

theorem log_run (engine : Engine) (calls : List Call) :
    engine.chain.headerLog ⊆ (run node engine calls).chain.headerLog := by
  induction calls generalizing engine with
  | nil => exact List.Subset.refl _
  | cons call rest ih => exact List.Subset.trans (log_step engine call) (ih _)

theorem invariant_newPayload {engine : Engine} (hinv : Invariant genesis engine)
    (outside : Outside) (block : Block) (expectedBlockHash : B256) (expected : Option (List B256))
    (beaconRoot : Option B256)
    (hapart : HashesApart (engine.newPayloadInternal node outside block expectedBlockHash expected
      beaconRoot).2.chain.headerLog) :
    Invariant genesis (engine.newPayloadInternal node outside block expectedBlockHash expected
      beaconRoot).2 := by
  have hgrows := (extends_newPayloadInternal node outside engine block expectedBlockHash expected
    beaconRoot).grows hapart hinv.chain
  refine ⟨hgrows.invariant, ?_, ?_⟩
  · rw [hgrows.canonical]
    exact hinv.canonical.mono hinv.chain hgrows.invariant hgrows.headers hgrows.canonicalHeads
  · rw [hgrows.canonical]
    intro header hheader
    obtain ⟨old, hold⟩ := Option.isSome_iff_exists.mp hinv.canonical.head_mem
    rw [hgrows.headers _ _ hold, Option.some.injEq] at hheader
    rw [← hheader]
    exact hinv.number_eq old hold

omit [Proofs] in
/-- A fork choice answers `VALID` only if it is accepted, and changes nothing
if it is not. -/
theorem invariant_forkchoiceUpdated {engine : Engine} (hinv : Invariant genesis engine)
    (outside : Outside) (state : ForkchoiceState) (attributes : Option PayloadAttributes)
    (version : Nat) (hsafe : engine.Accepts state → engine.Forward node state)
    (hapart : HashesApart (engine.forkchoiceUpdated node outside Faults.none state attributes
      version).2.chain.headerLog) :
    Invariant genesis
        (engine.forkchoiceUpdated node outside Faults.none state attributes version).2 ∧
      ∀ updated,
        (engine.forkchoiceUpdated node outside Faults.none state attributes version).1 =
          .ok updated →
        updated.payloadStatus.status = .valid →
        (engine.forkchoiceUpdated node outside Faults.none state attributes
          version).2.canonical.state = state := by
  by_cases hstatus : (engine.headStatus Faults.none state.headBlockHash).status = .valid
  · cases hcheck : engine.checkForkchoice Faults.none state with
    | error error =>
        simp only [forkchoiceUpdated, Faults.part_none, hstatus, ne_eq, not_true, if_false, hcheck]
        refine ⟨hinv, ?_⟩
        intro updated hupdated
        cases hupdated
    | ok number =>
        have haccepts : engine.Accepts state := ⟨hstatus, number, hcheck⟩
        simp only [forkchoiceUpdated, Faults.part_none, hstatus, ne_eq, not_true, if_false,
          hcheck] at hapart ⊢
        obtain ⟨hinv', hstate⟩ :=
          moves_applyForkchoice hinv haccepts (hsafe haccepts) hcheck _ _ _ hapart
        exact ⟨hinv', fun _ _ _ => hstate⟩
  · simp only [forkchoiceUpdated, Faults.part_none, ne_eq, hstatus, not_false_eq_true, if_true]
    refine ⟨hinv, ?_⟩
    intro updated hupdated hvalid
    cases hupdated
    exact absurd hvalid hstatus

theorem invariant_step {engine : Engine} (hinv : Invariant genesis engine) {call : Call}
    (hsafe : SafeCall node engine call)
    (hapart : HashesApart (step node engine call).chain.headerLog) :
    Invariant genesis (step node engine call) := by
  cases call with
  | newPayload outside block expectedBlockHash expected beaconRoot =>
      exact invariant_newPayload hinv _ _ _ _ _ hapart
  | forkchoiceUpdated outside state attributes version =>
      exact (invariant_forkchoiceUpdated hinv outside state attributes version hsafe hapart).1

theorem invariant_run {engine : Engine} (calls : List Call) (hinv : Invariant genesis engine)
    (hsafe : SafeRun node engine calls)
    (hapart : HashesApart (run node engine calls).chain.headerLog) :
    Invariant genesis (run node engine calls) := by
  induction calls generalizing engine with
  | nil => exact hinv
  | cons call rest ih =>
      have hstep : HashesApart (step node engine call).chain.headerLog :=
        hapart.mono (log_run _ rest)
      exact ih (invariant_step hinv hsafe.1 hstep) hsafe.2 hapart

omit [Proofs] in
/-- The genesis block is the head of its own chain. -/
theorem invariant_initGenesis (block : Block) (state : StateTables)
    (hapart : HashesApart [block.header]) : Invariant block.hash (initGenesis block state) := by
  have hzero : block.hash ≠ B256.zero := hapart.ne_zero _ (List.mem_singleton_self _)
  have hget : ∀ hash, (initGenesis block state).chain.headers.get hash =
      if hash = block.hash then some block.header else none := by
    intro hash
    rw [initGenesis, Table.get_insert, Table.get_empty]
  have honly : ∀ {hash header}, (initGenesis block state).chain.headers.get hash = some header →
      hash = block.hash ∧ header = block.header := by
    intro hash header h
    rw [hget] at h
    split at h
    next heq => exact ⟨heq, (Option.some.inj h).symm⟩
    next => cases h
  have hself : (initGenesis block state).chain.headers.get block.hash = some block.header := by
    rw [hget, if_pos rfl]
  have hhead : (initGenesis block state).canonical.state.headBlockHash = block.hash := rfl
  refine ⟨⟨?_, ?_, hapart, ?_, ?_, ?_, ?_, ?_⟩, ⟨?_, ?_⟩, ?_⟩
  · intro hash header h
    obtain ⟨rfl, rfl⟩ := honly h
    rfl
  · intro hash header h
    rw [(honly h).2]
    exact List.mem_singleton_self _
  · intro hash header h
    obtain ⟨rfl, rfl⟩ := honly h
    exact Table.get_insert_self _ _ _
  · intro hash
    rw [hget, initGenesis, Table.get_insert, Table.get_empty]
    split <;> rfl
  · rw [hself]
    rfl
  · intro hash header h hne
    exact absurd (honly h).1 hne
  · intro entry hentry
    rw [List.mem_singleton.mp hentry]
    exact .inl rfl
  · rw [hhead, hself]
    rfl
  · intro n hash
    rw [hhead, initGenesis, Table.get_insert, Table.get_empty]
    constructor
    · intro h
      split at h
      next hn =>
        rw [hn, ← Option.some.inj h]
        exact .self (links_eq_some hself)
      next => cases h
    · intro h
      obtain ⟨link, hlink, hn⟩ := h.height_eq
      obtain ⟨header, hheader, rfl⟩ := exists_header hlink
      obtain ⟨rfl, rfl⟩ := honly hheader
      exact if_pos hn.symm
  · intro header h
    rw [(honly h).2]
    simp [initGenesis, CanonicalState.new, hzero]

/-- The canonical chain is that of the head, entry by entry, from the lowest
height on, and the head in memory is the same block. -/
structure FollowsHead (lowest : Nat) (head : B256) (header : Header) (engine : Engine) : Prop where
  header_eq : engine.chain.headers.get head = some header
  hash_eq : hashSlow header = head
  exists_ancestor : ∀ n, lowest ≤ n → n ≤ header.number → ∃ hash, engine.chain.AncestorAt head n hash
  heads_iff : ∀ n ≤ header.number, ∀ hash,
    engine.chain.canonicalHeads.get n = some hash ↔ engine.chain.AncestorAt head n hash
  none_above : ∀ n, header.number < n → engine.chain.canonicalHeads.get n = none
  getHead_eq : engine.getHead = (head, header.number)

omit [Proofs] in
theorem Invariant.followsHead {engine : Engine} (hinv : Invariant genesis engine)
    {lowest : Header} (hlowest : engine.chain.headers.get genesis = some lowest) :
    ∃ header, FollowsHead lowest.number engine.canonical.state.headBlockHash header engine := by
  obtain ⟨header, hheader⟩ := Option.isSome_iff_exists.mp hinv.canonical.head_mem
  refine ⟨header, hheader, hinv.chain.hash_eq hheader, ?_, ?_, ?_, ?_⟩
  · intro n hle hn
    exact hinv.chain.rooted.exists_ancestor (links_eq_some hlowest) (links_eq_some hheader) hle hn
  · intro n _ hash
    exact hinv.canonical.heads_iff n hash
  · intro n hn
    by_contra hne
    obtain ⟨hash, hhash⟩ := Option.ne_none_iff_exists'.mp hne
    have hle := ((hinv.canonical.heads_iff n hash).mp hhash).le_height (links_eq_some hheader)
    simp only [Header.link] at hle
    omega
  · rw [getHead, hinv.number_eq header hheader]

/-- In a run from genesis in which every accepted fork choice moves forward,
the canonical chain is that of the head after every one that is `VALID`. -/
theorem followsHead_of_valid (genesis : Block) (state : StateTables) (calls : List Call)
    (outside : Outside) (choice : ForkchoiceState) (attributes : Option PayloadAttributes)
    (version : Nat) (updated : ForkchoiceUpdated)
    (hsafe : SafeRun node (initGenesis genesis state)
      (calls ++ [.forkchoiceUpdated outside choice attributes version]))
    (hapart : HashesApart (run node (initGenesis genesis state)
      (calls ++ [.forkchoiceUpdated outside choice attributes version])).chain.headerLog)
    (hupdated : ((run node (initGenesis genesis state) calls).forkchoiceUpdated node outside
      Faults.none choice attributes version).1 = .ok updated)
    (hvalid : updated.payloadStatus.status = .valid) :
    ∃ header, FollowsHead genesis.header.number choice.headBlockHash header
      (run node (initGenesis genesis state)
        (calls ++ [.forkchoiceUpdated outside choice attributes version])) := by
  rw [run_append, run_cons, run_nil] at hapart ⊢
  rw [safeRun_append] at hsafe
  obtain ⟨hcalls, hlast, _⟩ := hsafe
  have hlogBefore : _ ⊆ (run node (initGenesis genesis state) calls).chain.headerLog :=
    log_run _ calls
  have hlogAfter : _ ⊆ ((run node (initGenesis genesis state) calls).forkchoiceUpdated node outside
      Faults.none choice attributes version).2.chain.headerLog :=
    log_forkchoiceUpdated _ choice attributes version
  have hlog := List.Subset.trans hlogBefore hlogAfter
  have hbefore : Invariant genesis.hash (run node (initGenesis genesis state) calls) :=
    invariant_run calls (invariant_initGenesis genesis state (hapart.mono hlog)) hcalls
      (hapart.mono hlogAfter)
  obtain ⟨hafter, hstate⟩ :=
    invariant_forkchoiceUpdated hbefore outside choice attributes version hlast hapart
  -- The genesis block is still stored under its hash.
  obtain ⟨lowest, hlowest⟩ := Option.isSome_iff_exists.mp hafter.chain.genesis_mem
  have hgenesis : lowest = genesis.header :=
    hapart.injective _ (hafter.chain.logged hlowest) _ (hlog (List.mem_singleton_self _))
      (hafter.chain.hash_eq hlowest)
  obtain ⟨header, hfollows⟩ := hafter.followsHead hlowest
  rw [hgenesis, hstate updated hupdated hvalid] at hfollows
  exact ⟨header, hfollows⟩

end Follow

section Sample

attribute [local instance] keccak keccakHashing keccakProofs

theorem hashesApart_sample :
    HashesApart (run sampleNode sampleEngine
      ([importBlock firstHeader, importBlock secondHeader] ++
        [chooseHead secondHash])).chain.headerLog := by
  have hlog : (run sampleNode sampleEngine ([importBlock firstHeader, importBlock secondHeader] ++
      [chooseHead secondHash])).chain.headerLog = [secondHeader, firstHeader, genesisHeader] := by
    rw [← sampleHashing_eq]
    decide +kernel
  rw [hlog]
  constructor
  · rw [← sampleHashing_eq]
    decide +kernel
  · rw [← sampleHashing_eq]
    decide +kernel

/-- Both blocks are imported and the second is made the head. -/
theorem followsHead_second :
    ∃ header, FollowsHead 0 secondHash header
      (run sampleNode sampleEngine
        ([importBlock firstHeader, importBlock secondHeader] ++ [chooseHead secondHash])) := by
  have hbefore : (run sampleNode sampleEngine
      [importBlock firstHeader, importBlock secondHeader]).chain.headers.get secondHash =
        some secondHeader ∧
      (run sampleNode sampleEngine
        [importBlock firstHeader, importBlock secondHeader]).canonical.headNumber = 0 := by
    rw [← sampleHashing_eq]
    decide +kernel
  have hforward : (run sampleNode sampleEngine
      [importBlock firstHeader, importBlock secondHeader]).Forward sampleNode
        ⟨secondHash, B256.zero, B256.zero⟩ := by
    apply Forward.of_stored
    · decide +kernel
    · exact hbefore.1
    · rw [hbefore.2]
      exact Nat.zero_le _
  have hsafe : SafeRun sampleNode sampleEngine
      ([importBlock firstHeader, importBlock secondHeader] ++ [chooseHead secondHash]) := by
    rw [safeRun_append]
    refine ⟨?_, ?_⟩
    · simp [SafeRun, SafeCall, importBlock]
    · simp only [SafeRun, and_true]
      exact fun _ => hforward
  have hvalid : ((run sampleNode sampleEngine
      [importBlock firstHeader, importBlock secondHeader]).forkchoiceUpdated sampleNode
        sampleOutside Faults.none ⟨secondHash, B256.zero, B256.zero⟩ none 1).1 =
          .ok ⟨⟨.valid, some secondHash⟩, none⟩ := by
    rw [← sampleHashing_eq]
    decide +kernel
  exact followsHead_of_valid (emptyBlock genesisHeader) ⟨∅, ∅, ∅, ∅, ∅, ∅, ∅⟩ _ _ _ none 1 _ hsafe
    hashesApart_sample hvalid rfl

/-- Going back to the first block leaves the second in the canonical chain. -/
theorem lowerHead_keeps_entry :
    ((run sampleNode sampleEngine [importBlock firstHeader, importBlock secondHeader,
        chooseHead secondHash]).forkchoiceUpdated sampleNode sampleOutside Faults.none
          ⟨firstHash, B256.zero, B256.zero⟩ none 1).1 = .ok ⟨⟨.valid, some firstHash⟩, none⟩ ∧
      ¬ ∃ header, FollowsHead 0 firstHash header
        (run sampleNode sampleEngine ([importBlock firstHeader, importBlock secondHeader,
          chooseHead secondHash] ++ [chooseHead firstHash])) := by
  have hafter : (run sampleNode sampleEngine ([importBlock firstHeader, importBlock secondHeader,
      chooseHead secondHash] ++ [chooseHead firstHash])).chain.headers.get firstHash =
        some firstHeader ∧
      (run sampleNode sampleEngine ([importBlock firstHeader, importBlock secondHeader,
        chooseHead secondHash] ++ [chooseHead firstHash])).chain.canonicalHeads.get 2 =
          some secondHash := by
    rw [← sampleHashing_eq]
    decide +kernel
  refine ⟨?_, ?_⟩
  · rw [← sampleHashing_eq]
    decide +kernel
  · intro h
    obtain ⟨header, hfollows⟩ := h
    have hheader := hafter.1.symm.trans hfollows.header_eq
    have hnone := hfollows.none_above 2 (by rw [← Option.some.inj hheader]; decide)
    rw [hafter.2] at hnone
    cases hnone

end Sample

end WasixEth.Engine
