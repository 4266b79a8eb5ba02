import WasixEth.Engine.Rejected

/-! # Accepted payloads

What `VALID` says about a block that was executed. In validation mode the
header was compared with what execution computed and the block is stored as it
was submitted. In building mode the header was filled in, so that it no longer
is the one that was submitted.
-/

namespace WasixEth.Engine

open Storage EthExecutionProvider

/-! ## Stored blocks stay stored -/

section Stored

variable [BlockHashing] [Proofs]

/-- A header and a body are stored under a hash. -/
def HasStored (hash : B256) (engine : Engine) : Prop :=
  (engine.chain.headers.get hash).isSome ∧ (engine.chain.blockBodies.get hash).isSome

omit [BlockHashing] [Proofs] in
theorem HasStored.of_untouched {hash : B256} {before after : Engine}
    (h : HasStored hash before) (huntouched : Untouched before after) : HasStored hash after := by
  obtain ⟨hheaders, -, hbodies, -, -⟩ := huntouched.sameChain
  unfold HasStored
  rw [hheaders, hbodies]
  exact h

omit [Proofs] in
theorem HasStored.persistBlock {hash : B256} {engine : Engine} (h : HasStored hash engine)
    (executed : ExecutedBlock) (td : U256) : HasStored hash (engine.persistBlock executed td) := by
  have hstores := stores_persistBlock engine executed td
  unfold HasStored
  rw [hstores.headers, hstores.blockBodies, Table.get_insert, Table.get_insert]
  split
  · exact ⟨rfl, rfl⟩
  · exact h

theorem kept_hasStored (node : Node) (hash : B256) :
    Kept node (fun _ => True) (fun _ => True) (fun _ _ => True)
      (fun _ engine => HasStored hash engine) where
  inner := by
    intro _ outside engine block h _ _ expected beaconRoot _
    have hverdict := verdict_newPayloadInternalInner node outside engine block expected beaconRoot
    generalize newPayloadInternalInner node outside engine block expected beaconRoot =
      outcome at hverdict ⊢
    obtain ⟨result, after⟩ := outcome
    dsimp only at hverdict ⊢
    have hcommitted : ∀ state, HasStored hash { engine with state } := fun _ => h
    cases hverdict with
    | turnedAway _ huntouched => exact h.of_untouched huntouched
    | mismatched _ _ _ huntouched => exact (hcommitted _).of_untouched huntouched
    | withoutTd _ _ _ huntouched => exact (hcommitted _).of_untouched huntouched
    | stored _ _ _ honly =>
        exact ((hcommitted _).persistBlock _ _).of_untouched honly.untouched
  skip := fun h _ => h
  take := fun h _ _ => ⟨trivial, h⟩
  detach := fun _ h => h
  soft := fun _ _ h => h
  inherit := fun h _ _ _ _ => h

theorem hasStored_revalidate {node : Node} {hash : B256} {engine : Engine}
    (h : HasStored hash engine) (outside : Outside) (parent : B256) :
    HasStored hash (engine.revalidateDependentPayloads node outside parent) :=
  (kept_hasStored node hash).revalidateLoop _ _ h (fun _ _ => trivial) (fun _ _ => trivial)

end Stored

/-! ## What `VALID` says -/

section Eth

variable [Keccak256] [BlockHashing] [Proofs] [Evm]

/-- The block of the call is what it says it is: its header has the values that
execution computed, and it is stored under its own hash. -/
structure Sound (node : Node) (engine : Engine) (payload : NewPayload)
    (computed : ComputedBlock) : Prop where
  gasUsed : payload.block.header.gasUsed = computed.cumulativeGasUsed
  receiptsRoot : payload.block.header.receiptsRoot = calculateReceiptRoot computed.receipts
  logsBloom : payload.block.header.logsBloom = logsBloomOf computed.receipts
  stateRoot : payload.block.header.stateRoot = computed.stateRoot
  header : (newPayloadInternalInner node payload.outside engine payload.block
    payload.expectedBlobVersionedHashes
      payload.parentBeaconBlockRoot).2.chain.headers.get payload.block.hash =
        some payload.block.header
  body : (newPayloadInternalInner node payload.outside engine payload.block
    payload.expectedBlobVersionedHashes
      payload.parentBeaconBlockRoot).2.chain.blockBodies.get payload.block.hash =
        some payload.block.body
  kept : HasStored payload.block.hash (answer node engine payload).2

/-- A header that does not ask to be filled in. -/
def Filled (block : Block) : Prop :=
  block.header.stateRoot ≠ B256.zero ∧ (block.header.gasUsed ≠ 0 ∨ block.body.transactions = [])

variable {provider : EthExecutionProvider} {generate : B256 → PayloadAttributes → PayloadId}
  {engine : Engine} {payload : NewPayload} {parent : Header} {executed : ExecutedBlock}
  {state : StateTables}

omit [Keccak256] [Evm] in
/-- Only a block that is stored or tried is answered `VALID`. -/
theorem triesBlock_of_valid {node : Node} {latest : Option B256}
    (hnew : engine.chain.blockBodies.get payload.block.hash = none)
    (hvalid : (answer node engine payload).1 = .ok ⟨.valid, latest⟩) :
    engine.triesBlock node payload = true := by
  unfold answer newPayloadInternal at hvalid
  dsimp only at hvalid
  rw [hnew] at hvalid
  split at hvalid
  · cases hvalid
  next hhash =>
    split at hvalid
    · cases hvalid
    · cases hvalid
    next hcancun hroot =>
      rw [if_neg (by decide)] at hvalid
      unfold importNew at hvalid
      dsimp only at hvalid
      split at hvalid
      · cases hvalid
      next hself =>
        split at hvalid
        · cases hvalid
        · cases hvalid
        next hparent =>
          rw [not_not] at hhash
          simp only [triesBlock, reachesImport, hcancun, hroot, hnew, hparent]
          simp [hhash ▸ hself, hhash, Except.toBool]

omit [Keccak256] [BlockHashing] [Evm] in
theorem executed_of_filled {computed : ComputedBlock} {fork : Hardfork} {finalized block : Block}
    (hfilled : Filled block)
    (hgas : block.body.transactions = [] → computed.cumulativeGasUsed = 0)
    (htransactions : computed.transactions = block.body.transactions)
    (h : finalizeBlockHeader block computed fork false = .ok finalized) : finalized = block := by
  have hbuilding : isBuilding false block.header computed.cumulativeGasUsed = false := by
    obtain ⟨hroot, hused⟩ := hfilled
    rcases hused with hused | hnone
    · simp [isBuilding, hroot, hused]
    · simp [isBuilding, hroot, hgas hnone]
  obtain ⟨-, hbody, hheader⟩ := of_finalizeBlockHeader h
  rw [hbuilding, if_neg (by decide)] at hheader
  rw [htransactions] at hbody
  calc finalized = ⟨finalized.header, finalized.body⟩ := rfl
    _ = block := by rw [hheader, hbody]

/-- A `VALID` answer for a block that was executed is right exactly if the
header did not ask to be filled in. -/
theorem sound_iff (provider : EthExecutionProvider)
    (generate : B256 → PayloadAttributes → PayloadId) (engine : Engine) (payload : NewPayload)
    (latest : Option B256) (hnew : engine.chain.blockBodies.get payload.block.hash = none)
    (hvalid : (answer (ethNode provider generate) engine payload).1 = .ok ⟨.valid, latest⟩) :
    ∃ parent computed,
      engine.chain.header Faults.none payload.block.header.parentHash = some parent ∧
      (provider.compute engine.database payload.block (some parent.stateRoot) false
        (provider.start engine.database)).result = .ok computed ∧
      (Filled payload.block → Sound (ethNode provider generate) engine payload computed) ∧
      (ChargesGas → computed.stateRoot ≠ B256.zero →
        Sound (ethNode provider generate) engine payload computed → Filled payload.block) := by
  have htries := triesBlock_of_valid hnew hvalid
  have hanswer := answer_of_triesBlock htries
  rw [hanswer] at hvalid
  have hverdict := verdict_newPayloadInternalInner (ethNode provider generate)
    payload.outside engine payload.block payload.expectedBlobVersionedHashes
    payload.parentBeaconBlockRoot
  cases hinner : newPayloadInternalInner (ethNode provider generate) payload.outside engine
      payload.block payload.expectedBlobVersionedHashes payload.parentBeaconBlockRoot with
  | mk result after =>
      rw [hinner] at hverdict hvalid hanswer
      dsimp only at hverdict
      cases hverdict with
      | turnedAway hstatus _ =>
          exact absurd (congrArg PayloadStatus.status (Except.ok.inj hvalid)) hstatus
      | mismatched _ _ hstatus _ =>
          exact absurd (congrArg PayloadStatus.status (Except.ok.inj hvalid)) hstatus
      | withoutTd _ _ _ _ => cases hvalid
      | @stored parent executed state td _ hexecutes _ _ honly =>
          obtain ⟨hresult, -⟩ := of_executeBlockWithStateRoot hexecutes.result
          obtain ⟨root, computed, hroot, hcomputed, hfinal, -⟩ := exists_computed hresult
          obtain rfl : some parent.stateRoot = root := Except.ok.inj hroot
          obtain ⟨hnone, hcharged⟩ := gas_compute rfl hcomputed
          obtain ⟨hmatches, -, -⟩ := of_finalizeBlockHeader hfinal
          refine ⟨parent, computed, hexecutes.parent_eq, hcomputed, ?_, ?_⟩
          · intro hfilled
            have hsame := executed_of_filled hfilled hnone (transactions_compute hcomputed) hfinal
            rw [hsame] at hmatches
            have hstores := stores_persistBlock { engine with state } executed
              (td + executed.block.header.difficulty)
            rw [hsame] at hstores
            have hheader : after.chain.headers.get payload.block.hash =
                some payload.block.header := by
              rw [honly.chain_eq, hsame, hstores.headers, Table.get_insert]
              exact if_pos rfl
            have hbody : after.chain.blockBodies.get payload.block.hash =
                some payload.block.body := by
              rw [honly.chain_eq, hsame, hstores.blockBodies, Table.get_insert]
              exact if_pos rfl
            have hstored : HasStored payload.block.hash after := by
              unfold HasStored
              rw [hheader, hbody]
              exact ⟨rfl, rfl⟩
            refine ⟨hmatches.gasUsed, hmatches.receiptsRoot, hmatches.logsBloom,
              hmatches.stateRoot, ?_, ?_, ?_⟩
            · rw [hinner]
              exact hheader
            · rw [hinner]
              exact hbody
            · rw [hanswer]
              exact hasStored_revalidate hstored payload.outside payload.block.hash
          · intro hcharges hzero hsound
            constructor
            · rw [hsound.stateRoot]
              exact hzero
            · by_contra hneither
              rw [not_or, not_not] at hneither
              have hpos := hcharged hcharges hneither.2
              rw [← hsound.gasUsed, hneither.1] at hpos
              exact Nat.lt_irrefl 0 hpos

end Eth

section Sample

attribute [local instance] keccak keccakHashing keccakProofs idleEvm

/-- The first block of the samples with its state root left out. -/
def rootlessHeader : Header := { firstHeader with stateRoot := B256.zero }

def rootlessPayload : NewPayload := samplePayload rootlessHeader (hashSlow rootlessHeader)

/-- The block is answered `VALID` and stored under another hash. -/
theorem rootless_valid :
    sampleEngine.chain.blockBodies.get (hashSlow rootlessHeader) = none ∧
    (answer sampleNode sampleEngine rootlessPayload).1 =
      .ok ⟨.valid, some (hashSlow rootlessHeader)⟩ ∧
    (answer sampleNode sampleEngine rootlessPayload).2.chain.headers.get
      (hashSlow rootlessHeader) = none ∧
    (answer sampleNode sampleEngine rootlessPayload).2.chain.headers.get firstHash =
      some firstHeader := by
  unfold rootlessPayload
  rw [← sampleHashing_eq]
  decide +kernel

theorem sound_first :
    ∃ parent computed,
      sampleEngine.chain.header Faults.none firstHeader.parentHash = some parent ∧
      (compute ⟨sampleConfig, .inOrder⟩ sampleEngine.database (emptyBlock firstHeader)
        (some parent.stateRoot) false (start ⟨sampleConfig, .inOrder⟩
          sampleEngine.database)).result = .ok computed ∧
      (Filled (emptyBlock firstHeader) →
        Sound sampleNode sampleEngine (samplePayload firstHeader firstHash) computed) ∧
      (ChargesGas → computed.stateRoot ≠ B256.zero →
        Sound sampleNode sampleEngine (samplePayload firstHeader firstHash) computed →
          Filled (emptyBlock firstHeader)) := by
  have hnew : sampleEngine.chain.blockBodies.get (emptyBlock firstHeader).hash = none := by
    rw [← sampleHashing_eq]
    decide +kernel
  have hvalid : (answer sampleNode sampleEngine (samplePayload firstHeader firstHash)).1 =
      .ok ⟨.valid, some firstHash⟩ := by
    rw [← sampleHashing_eq]
    decide +kernel
  exact sound_iff ⟨sampleConfig, .inOrder⟩ (fun _ _ => 1) sampleEngine
    (samplePayload firstHeader firstHash) (some firstHash) hnew hvalid

end Sample

end WasixEth.Engine
