import WasixEth.Engine.CanonicalChain

/-! # What a run keeps

The invariant of a run, the fork choices that keep it, and the payloads built
on the way.
-/

namespace WasixEth.Engine

open Storage ChainTables

variable [BlockHashing]

variable [Proofs] (node : Node)

/-- The invariant of a run: the canonical chain is that of the current head. -/
structure Invariant (genesis : B256) (engine : Engine) : Prop where
  chain : ChainInvariant genesis engine.chain
  canonical : CanonicalChain engine.chain engine.canonical.state.headBlockHash
  number_eq : ∀ header,
    engine.chain.headers.get engine.canonical.state.headBlockHash = some header →
    engine.canonical.headNumber = header.number

/-- The checks of a fork choice pass. -/
def Accepts (engine : Engine) (state : ForkchoiceState) : Prop :=
  (engine.headStatus Faults.none state.headBlockHash).status = .valid ∧
    ∃ number, engine.checkForkchoice Faults.none state = .ok number

/-- A fork choice that moves forward: its head is not lower than the current
one, and if it is a payload that is not stored yet, that can be executed. -/
structure Forward (engine : Engine) (state : ForkchoiceState) : Prop where
  ne_zero : state.headBlockHash ≠ B256.zero
  not_lower : ∀ header, engine.chain.headerOrPayload Faults.none state.headBlockHash = some header →
    engine.canonical.headNumber ≤ header.number
  promotes : ∀ header, engine.chain.headerOrPayload Faults.none state.headBlockHash = some header →
    PromotionRuns node (engine.updateState Faults.none state header.number) engine.canonical
      state.headBlockHash

/-- Every fork choice that is accepted moves forward. -/
def SafeCall (engine : Engine) : Call → Prop
  | .newPayload _ _ _ _ _ => True
  | .forkchoiceUpdated _ state _ _ => engine.Accepts state → engine.Forward node state

/-- Every call of a run is safe in the state it is made in. -/
def SafeRun : Engine → List Call → Prop
  | _, [] => True
  | engine, call :: rest => SafeCall node engine call ∧ SafeRun (step node engine call) rest

/-! ## Building a payload -/

section Build

omit [Proofs]

variable {genesis : B256}

omit [BlockHashing] in
theorem mem_insertPayload {id : PayloadId} {payload : Payload}
    {payloads : List (PayloadId × Payload)} {entry : PayloadId × Payload}
    (h : entry ∈ insertPayload id payload payloads) : entry = (id, payload) ∨ entry ∈ payloads := by
  induction payloads with
  | nil => simpa [insertPayload] using h
  | cons first rest ih =>
      unfold insertPayload at h
      split at h
      · simpa using h
      · split at h
        · rcases List.mem_cons.mp h with h | h
          · exact .inl h
          · exact .inr (List.mem_cons_of_mem _ h)
        · rcases List.mem_cons.mp h with h | h
          · exact .inr (h ▸ List.mem_cons_self)
          · rcases ih h with h | h
            · exact .inl h
            · exact .inr (List.mem_cons_of_mem _ h)

omit [BlockHashing] in
theorem lookup_insertPayload (id : PayloadId) (payload : Payload)
    (payloads : List (PayloadId × Payload)) :
    (insertPayload id payload payloads).lookup id = some payload := by
  induction payloads with
  | nil => simp [insertPayload]
  | cons first rest ih =>
      unfold insertPayload
      split
      · simp
      · split
        · simp
        next hne =>
          have hbeq : (id == first.1) = false := by simpa using hne
          rw [List.lookup_cons, hbeq]
          exact ih

/-- Only the payloads change, and a new one is built on a stored block. -/
structure Builds (genesis : B256) (before after : Engine) : Prop where
  canonical : after.canonical = before.canonical
  headers : after.chain.headers = before.chain.headers
  headerLog : after.chain.headerLog = before.chain.headerLog
  canonicalHeads : after.chain.canonicalHeads = before.chain.canonicalHeads
  invariant : ChainInvariant genesis before.chain → ChainInvariant genesis after.chain

theorem Builds.refl (engine : Engine) : Builds genesis engine engine :=
  ⟨rfl, rfl, rfl, rfl, id⟩

theorem Builds.trans {first second third : Engine} (h : Builds genesis first second)
    (h' : Builds genesis second third) : Builds genesis first third :=
  ⟨h'.canonical.trans h.canonical, h'.headers.trans h.headers, h'.headerLog.trans h.headerLog,
    h'.canonicalHeads.trans h.canonicalHeads, fun hinv => h'.invariant (h.invariant hinv)⟩

theorem builds_addPayload (engine : Engine) (id : PayloadId) {built : ExecutedBlock}
    (hbuilt : BuiltOnStored engine.chain built.block.header) :
    Builds genesis engine (engine.addPayload Faults.none id built).2 := by
  refine ⟨rfl, rfl, rfl, rfl, fun hinv => ⟨hinv.hash_eq, hinv.logged, hinv.apart, hinv.number_eq,
    hinv.body_iff, hinv.genesis_mem, hinv.parent_mem, ?_⟩⟩
  intro entry hentry
  rcases mem_insertPayload hentry with rfl | hold
  · exact .inr hbuilt
  · exact hinv.payload_mem entry hold

/-- A payload is built on the stored block that was asked for. -/
theorem parentBlock_stored {engine : Engine} {hash : B256} {header : Header}
    (hinv : ChainInvariant genesis engine.chain)
    (hheader : engine.chain.headers.get hash = some header) :
    ∃ body, parentBlock Faults.none engine hash = some ⟨header, body⟩ := by
  obtain ⟨body, hbody⟩ := hinv.exists_blockByHash hheader
  exact ⟨body, by simp [parentBlock, hbody]⟩

theorem builtOnStored_of_payload {engine : Engine} {hash : B256} {header : Header}
    (hinv : ChainInvariant genesis engine.chain)
    (hheader : engine.chain.headers.get hash = some header) {database : Database}
    {transactions : List Transaction} {attributes : PayloadAttributes} {baseFee : Option Nat}
    {built : ExecutedBlock}
    (hbuilt : node.execution.executeBlockForPayload database transactions header attributes
      baseFee = .ok built) : BuiltOnStored engine.chain built.block.header := by
  obtain ⟨hnumber, hparent⟩ := node.execution.header_of_payload hbuilt
  refine ⟨header, ?_, hnumber⟩
  rw [hparent, hinv.hash_eq hheader]
  exact hheader

theorem builds_maybeRebuildPayload (outside : Outside) {engine : Engine} {hash : B256}
    {header : Header} (id : PayloadId) (hinv : ChainInvariant genesis engine.chain)
    (hheader : engine.chain.headers.get hash = some header) {payload : Payload}
    (hpayload : engine.chain.getPayload id = some payload)
    (hparent : payload.block.header.parentHash = hash) :
    Builds genesis engine (engine.maybeRebuildPayload node outside Faults.none id) := by
  obtain ⟨body, hbody⟩ := parentBlock_stored hinv hheader
  simp only [maybeRebuildPayload, Faults.part_none, Faults.read_none, hpayload, hparent, hbody]
  split
  · exact .refl engine
  · split
    · exact .refl engine
    · split
      · exact .refl engine
      next built hbuilt =>
        split
        · exact builds_addPayload engine id (builtOnStored_of_payload node hinv hheader hbuilt)
        · exact .refl engine

theorem builds_buildNewPayload (outside : Outside) {engine : Engine} {head : B256}
    {header : Header} (attributes : PayloadAttributes) (hinv : ChainInvariant genesis engine.chain)
    (hheader : engine.chain.headers.get head = some header) :
    Builds genesis engine (engine.buildNewPayload node outside Faults.none head attributes).2 := by
  obtain ⟨body, hbody⟩ := parentBlock_stored hinv hheader
  simp only [buildNewPayload, buildEmptyPayload, Faults.part_none, Faults.read_none, hbody]
  split
  · exact .refl engine
  · split
    · exact .refl engine
    · cases hbuilt : node.execution.executeBlockForPayload engine.database [] header attributes
          (EthConsensus.calculateNextBaseFee header) with
      | error message => exact .refl engine
      | ok built =>
          have hstored := builtOnStored_of_payload node hinv hheader hbuilt
          have hadd : Builds genesis engine (engine.addPayload Faults.none
              (node.generatePayloadId head attributes) built).2 :=
            builds_addPayload engine _ hstored
          obtain ⟨_, hparent⟩ := node.execution.header_of_payload hbuilt
          rw [hinv.hash_eq hheader] at hparent
          apply hadd.trans
          exact builds_maybeRebuildPayload node outside _ (hadd.invariant hinv)
            (by rw [hadd.headers]; exact hheader) (lookup_insertPayload _ _ _) hparent

end Build

end WasixEth.Engine
