import WasixEth.Engine.Verdicts
import WasixEth.Execution.Included

/-! # Rejected payloads

A payload that is not answered `VALID` should leave the database alone.
Execution commits its own batch before the rest of the checks, so every later
exit counts. The comparison after execution never fails; the search for the
total difficulty of the parent may.
-/

namespace WasixEth.Engine

open Storage EthExecutionProvider

/-! ## After the execution -/

section Executed

variable [Keccak256] [BlockHashing] [Proofs] [Evm] {provider : EthExecutionProvider}
  {database : Database} {block : Block} {root : B256} {executed : ExecutedBlock}
  {state : StateTables}

/-- What a committed execution returned. -/
theorem of_executeBlockWithStateRoot
    (h : provider.executeBlockWithStateRoot Faults.none database block (some root) =
      (.ok executed, state)) :
    (provider.executeBlockWithBatch block (some root) false (provider.start database)).result =
        .ok executed ∧
      state = committed (provider.executeBlockWithBatch block (some root) false
        (provider.start database)).state.batch executed := by
  unfold executeBlockWithStateRoot at h
  rw [if_neg (by decide)] at h
  dsimp only at h
  split at h
  · cases h
  next hresult =>
    rw [if_neg (by decide)] at h
    cases h
    exact ⟨hresult, rfl⟩

/-- The header of an executed block says what its receipts say. -/
theorem validateExecuted_ok
    (h : provider.executeBlockWithStateRoot Faults.none database block (some root) =
      (.ok executed, state)) : validateExecuted executed = .ok () := by
  obtain ⟨hresult, -⟩ := of_executeBlockWithStateRoot h
  obtain ⟨_, computed, -, hcomputed, hfinal, hreceipts, -⟩ := exists_computed hresult
  obtain ⟨hmatches, -, -⟩ := of_finalizeBlockHeader hfinal
  have hgas := lastGas_compute rfl hcomputed
  unfold validateExecuted
  rw [hreceipts]
  unfold lastGas at hgas
  rw [hgas]
  simp only [EthConsensus.validateBlockPostExecution, hmatches.gasUsed, hmatches.receiptsRoot,
    hmatches.logsBloom, ne_eq, not_true_eq_false, if_false]
  rfl

/-- The header keeps its number and its parent. -/
theorem header_of_executed
    (h : provider.executeBlockWithStateRoot Faults.none database block (some root) =
      (.ok executed, state)) :
    executed.block.header.number = block.header.number ∧
      executed.block.header.parentHash = block.header.parentHash := by
  obtain ⟨hresult, -⟩ := of_executeBlockWithStateRoot h
  obtain ⟨_, computed, -, -, hfinal, -⟩ := exists_computed hresult
  exact header_of_finalizeBlockHeader hfinal

end Executed

/-! ## What is left of a rejected payload -/

section Rejected

variable [BlockHashing] [Proofs]

/-- The tables of the state are the same. -/
structure SameState (before after : StateTables) : Prop where
  accounts : after.accounts = before.accounts
  storages : after.storages = before.storages
  trieNodes : after.trieNodes = before.trieNodes
  accountChangeSets : after.accountChangeSets = before.accountChangeSets
  storageChangeSets : after.storageChangeSets = before.storageChangeSets

/-- The tables of the chain are the same. -/
structure SameChain (before after : ChainTables) : Prop where
  headers : after.headers = before.headers
  headerTd : after.headerTd = before.headerTd
  blockBodies : after.blockBodies = before.blockBodies
  receipts : after.receipts = before.receipts
  canonicalHeads : after.canonicalHeads = before.canonicalHeads

def SameTables (before after : Engine) : Prop :=
  SameState before.state after.state ∧ SameChain before.chain after.chain

omit [BlockHashing] [Proofs] in
theorem Untouched.sameChain {before after : Engine} (h : Untouched before after) :
    SameChain before.chain after.chain := by
  rw [h.chain]
  exact ⟨rfl, rfl, rfl, rfl, rfl⟩

omit [BlockHashing] [Proofs] in
theorem Untouched.sameTables {before after : Engine} (h : Untouched before after) :
    SameTables before after := by
  refine ⟨?_, h.sameChain⟩
  rw [h.state]
  exact ⟨rfl, rfl, rfl, rfl, rfl⟩

end Rejected

section Eth

variable [Keccak256] [BlockHashing] [Proofs] [Evm] {provider : EthExecutionProvider}
  {generate : B256 → PayloadAttributes → PayloadId} {engine : Engine} {payload : NewPayload}
  {parent : Header} {executed : ExecutedBlock} {state : StateTables}

/-- The block of the call passes every check and its execution is committed,
but the total difficulty of its parent is not stored. -/
structure CommitsWithoutTd (provider : EthExecutionProvider)
    (generate : B256 → PayloadAttributes → PayloadId) (engine : Engine) (payload : NewPayload)
    (state : StateTables) : Prop where
  tries : engine.triesBlock (ethNode provider generate) payload = true
  executes : ∃ parent executed, Executes (ethNode provider generate) payload.outside engine
    payload.block parent executed state
  parentTd : engine.chain.headerTd.get payload.block.header.parentHash = none

theorem parentTd_of_executes
    (h : Executes (ethNode provider generate) payload.outside engine payload.block parent executed
      state) :
    engine.parentTd executed.block.header =
      engine.chain.headerTd.get payload.block.header.parentHash := by
  obtain ⟨hnumber, hparent⟩ := header_of_executed h.result
  have hnext := EthConsensus.number_of_validateHeader h.header
  unfold Engine.parentTd
  rw [hnumber, hparent, hnext, if_neg (Nat.succ_ne_zero _)]

/-- The call then fails, with the execution committed. -/
theorem state_of_commitsWithoutTd (h : CommitsWithoutTd provider generate engine payload state) :
    (answer (ethNode provider generate) engine payload).2.state = state := by
  obtain ⟨parent, executed, hexecutes⟩ := h.executes
  have hreaches : engine.reachesImport (ethNode provider generate) payload = true := by
    have htries := h.tries
    simp only [triesBlock, Bool.and_eq_true] at htries
    exact htries.1.1
  have htd := (parentTd_of_executes hexecutes).trans h.parentTd
  rw [answer_of_triesBlock h.tries, inner_of_executes hreaches hexecutes]
  unfold storeExecuted
  rw [validateExecuted_ok hexecutes.result]
  dsimp only
  unfold Engine.parentTd at htd
  rw [htd]
  rfl

/-- A payload that is not answered `VALID` leaves the database as it was,
unless its execution is committed before the total difficulty of its parent is
missed. -/
theorem sameTables_iff (provider : EthExecutionProvider)
    (generate : B256 → PayloadAttributes → PayloadId) (engine : Engine) (payload : NewPayload)
    (hnot : ∀ status, (answer (ethNode provider generate) engine payload).1 = .ok status →
      status.status ≠ .valid) :
    SameTables engine (answer (ethNode provider generate) engine payload).2 ↔
      ∀ state, CommitsWithoutTd provider generate engine payload state →
        SameState engine.state state := by
  constructor
  · intro hsame state hcommits
    rw [← state_of_commitsWithoutTd hcommits]
    exact hsame.1
  · intro hfree
    cases htries : engine.triesBlock (ethNode provider generate) payload with
    | false => exact (answer_of_not_triesBlock htries).sameTables
    | true =>
        rw [answer_of_triesBlock htries] at hnot ⊢
        have hverdict := verdict_newPayloadInternalInner (ethNode provider generate)
          payload.outside engine payload.block payload.expectedBlobVersionedHashes
          payload.parentBeaconBlockRoot
        generalize newPayloadInternalInner (ethNode provider generate) payload.outside engine
          payload.block payload.expectedBlobVersionedHashes payload.parentBeaconBlockRoot =
            outcome at hverdict hnot ⊢
        obtain ⟨result, after⟩ := outcome
        dsimp only at hverdict
        cases hverdict with
        | turnedAway hstatus huntouched =>
            unfold finish
            dsimp only
            rw [if_neg hstatus]
            exact huntouched.sameTables
        | mismatched hexecutes hmismatch _ _ =>
            rw [validateExecuted_ok hexecutes.result] at hmismatch
            cases hmismatch
        | withoutTd hexecutes _ htd huntouched =>
            rw [parentTd_of_executes hexecutes] at htd
            refine ⟨?_, huntouched.sameChain⟩
            unfold finish
            dsimp only
            rw [huntouched.state]
            exact hfree _ ⟨htries, ⟨_, _, hexecutes⟩, htd⟩
        | stored _ _ _ _ => exact absurd rfl (hnot _ rfl)

end Eth

section Sample

attribute [local instance] keccak keccakHashing keccakProofs idleEvm

/-- The database of the samples without the total difficulty of genesis. -/
def withoutTd : Engine :=
  { sampleEngine with chain := { sampleEngine.chain with headerTd := ∅ } }

/-- The call fails, and the change set of the block is there. -/
theorem withoutTd_commits :
    (∃ error, (answer sampleNode withoutTd (samplePayload firstHeader firstHash)).1 =
      .error error) ∧
    ¬ SameTables withoutTd
      (answer sampleNode withoutTd (samplePayload firstHeader firstHash)).2 := by
  have herror : (answer sampleNode withoutTd (samplePayload firstHeader firstHash)).1.toBool =
      false := by
    rw [← sampleHashing_eq]
    decide +kernel
  have hchanged : ((answer sampleNode withoutTd
      (samplePayload firstHeader firstHash)).2.state.accountChangeSets.get 1).isSome = true := by
    rw [← sampleHashing_eq]
    decide +kernel
  constructor
  · cases hanswer : (answer sampleNode withoutTd (samplePayload firstHeader firstHash)).1 with
    | error error => exact ⟨error, rfl⟩
    | ok status =>
        rw [hanswer] at herror
        cases herror
  · intro hsame
    rw [hsame.1.accountChangeSets] at hchanged
    exact absurd hchanged (by decide)

theorem sameTables_broken :
    SameTables sampleEngine (answer sampleNode sampleEngine
        (samplePayload brokenHeader brokenHash)).2 ↔
      ∀ state, CommitsWithoutTd ⟨sampleConfig, .inOrder⟩ (fun _ _ => 1) sampleEngine
        (samplePayload brokenHeader brokenHash) state → SameState sampleEngine.state state := by
  have hinvalid : ∀ status, (answer sampleNode sampleEngine
      (samplePayload brokenHeader brokenHash)).1 = .ok status → status.status ≠ .valid := by
    have hanswer : (answer sampleNode sampleEngine (samplePayload brokenHeader
        brokenHash)).1.toOption.all (·.status ≠ .valid) = true := by
      rw [← longerHashing_eq]
      decide +kernel
    intro status hstatus
    rw [hstatus] at hanswer
    exact of_decide_eq_true hanswer
  exact sameTables_iff ⟨sampleConfig, .inOrder⟩ (fun _ _ => 1) sampleEngine
    (samplePayload brokenHeader brokenHash) hinvalid

end Sample

end WasixEth.Engine
