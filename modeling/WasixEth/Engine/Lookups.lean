import WasixEth.Engine.Locating
import WasixEth.Execution.Admissible

/-! # Looking up canonical transactions

In a run in which nothing is lost every transaction of a canonical block is found
after each call, with its receipt and its metadata. An import keeps the books for the
block and for those that waited for it.
-/

namespace WasixEth.Engine

open Storage

section Lookups

variable [BlockHashing] [Proofs]

/-! ## Payloads during an import -/

section Payloads

variable {node : Node} {outside : Outside} {engine : Engine} {block : Block}

omit [Proofs] in
theorem payloads_rejectHard (hash parent : B256) (message : String) :
    (engine.rejectHard hash parent message).2.chain.payloads ⊆ engine.chain.payloads :=
  fun _ hmem => List.mem_of_mem_filter hmem

omit [Proofs] in
theorem payloads_rejectSoft (hash parent : B256) (message : String) :
    (engine.rejectSoft hash parent message).2.chain.payloads ⊆ engine.chain.payloads := by
  unfold rejectSoft
  dsimp only [invalidStatus]
  split <;> exact List.Subset.refl _

theorem payloads_storeExecuted (hash parent : B256) (executed : ExecutedBlock) :
    (engine.storeExecuted hash parent executed).2.chain.payloads ⊆ engine.chain.payloads := by
  unfold storeExecuted
  split
  · exact payloads_rejectHard _ _ _
  · dsimp only
    split
    · exact List.Subset.refl _
    · exact (stores_persistBlock engine executed _).payloads

theorem payloads_executePayload (parent : Header) :
    (engine.executePayload node outside block parent).2.chain.payloads ⊆
      engine.chain.payloads := by
  unfold executePayload
  split
  · exact payloads_rejectHard _ _ _
  · split
    · exact payloads_rejectHard _ _ _
    next executed state _ =>
      have hstored : _ ⊆ ({ engine with state } : Engine).chain.payloads :=
        payloads_storeExecuted block.hash block.header.parentHash executed
      exact hstored

theorem payloads_withoutParent :
    (engine.withoutParent node outside block).2.chain.payloads ⊆ engine.chain.payloads := by
  unfold withoutParent
  dsimp only
  split
  · exact List.Subset.refl _
  · split
    · exact List.Subset.refl _
    · split <;> exact List.Subset.refl _

theorem payloads_importChild :
    (engine.importChild node outside block).2.chain.payloads ⊆ engine.chain.payloads := by
  have haway := turnsAway_validateParentBlock node outside engine block.header.parentHash
  unfold importChild
  dsimp only
  split
  next status checked hchecked =>
    rw [hchecked] at haway
    have hsame : checked.chain = engine.chain := haway.only.chain_eq
    split
    · exact hsame ▸ List.Subset.refl _
    · have hquiet := quiet_invalidateDescendants
        (checked.markInvalid block.hash block.header.parentHash .hard) block.hash
      dsimp only
      rw [hquiet.1]
      exact hsame ▸ List.Subset.refl _
  next checked hchecked =>
    rw [hchecked] at haway
    obtain rfl : checked = engine := haway.passed rfl
    split
    · exact payloads_executePayload _
    · exact payloads_withoutParent

/-- An import may drop payloads, and adds none. -/
theorem payloads_newPayloadInternalInner (node : Node) (outside : Outside) (engine : Engine)
    (block : Block) (expected : Option (List B256)) (beaconRoot : Option B256) :
    (newPayloadInternalInner node outside engine block expected beaconRoot).2.chain.payloads ⊆
      engine.chain.payloads := by
  unfold newPayloadInternalInner
  dsimp only
  split
  · exact payloads_rejectSoft _ _ _
  · split
    next message _ =>
      unfold rejectBody
      split
      · split
        · exact List.Subset.refl _
        · exact payloads_rejectHard _ _ _
      · exact payloads_rejectHard _ _ _
    · split
      · exact payloads_rejectSoft _ _ _
      · exact payloads_importChild

end Payloads

/-! ## One call -/

section Calls

variable [Keccak256] [Evm] {provider : EthExecutionProvider}
  {generate : B256 → PayloadAttributes → PayloadId} {ran : ExecutedBlock → Prop}
  {undone : B256 → Prop} {engine before after : Engine} {outside : Outside} {block : Block}

omit [BlockHashing] [Proofs] [Keccak256] [Evm] in
theorem OnlyTree.leaves (h : OnlyTree before after) : Leaves before after := by
  refine h.untouched.leaves ?_
  rw [h.chain_eq]
  exact List.Subset.refl _

/-- What an attempt executes has been executed, and what it stores is new to the
canonical blocks. -/
structure Suits (node : Node) (ran : ExecutedBlock → Prop) (attempt : Attempt) : Prop where
  ran : ∀ parent executed state,
    Executes node attempt.outside attempt.engine attempt.block parent executed state → ran executed
  newcomer : ∀ parent executed state,
    Executes node attempt.outside attempt.engine attempt.block parent executed state →
    (attempt.engine.parentTd executed.block.header).isSome →
    Newcomer attempt.engine.chain executed.block

theorem books_newPayloadInternalInner (h : Books ran undone engine)
    (hplaced : PlacedAt undone (fun _ => True) engine)
    (hsuits : Suits (ethNode provider generate) ran ⟨outside, engine, block⟩)
    (expected : Option (List B256)) (beaconRoot : Option B256)
    (hapart : HashesApart (newPayloadInternalInner (ethNode provider generate) outside engine block
      expected beaconRoot).2.chain.headerLog) :
    Books ran undone (newPayloadInternalInner (ethNode provider generate) outside engine block
        expected beaconRoot).2 ∧
      PlacedAt undone (fun _ => True) (newPayloadInternalInner (ethNode provider generate) outside
        engine block expected beaconRoot).2 := by
  have hverdict := verdict_newPayloadInternalInner (ethNode provider generate) outside engine block
    expected beaconRoot
  have hpayloads := payloads_newPayloadInternalInner (ethNode provider generate) outside engine
    block expected beaconRoot
  generalize newPayloadInternalInner (ethNode provider generate) outside engine block expected
    beaconRoot = outcome at hverdict hpayloads hapart ⊢
  obtain ⟨result, after⟩ := outcome
  dsimp only at hverdict hpayloads hapart ⊢
  have hexecuted : ∀ {parent : Header} {executed : ExecutedBlock} {state : StateTables},
      Executes (ethNode provider generate) outside engine block parent executed state →
      ran executed ∧ EthExecutionProvider.Accounted executed ∧
        Books ran undone { engine with state } := by
    intro parent executed state hexecutes
    have hran := hsuits.ran parent executed state hexecutes
    have hresult : provider.executeBlockWithStateRoot Faults.none engine.database block
        (some parent.stateRoot) = (.ok executed, state) := hexecutes.result
    obtain ⟨haccounted, -, hrows⟩ := EthExecutionProvider.committed_of_execute hresult
    exact ⟨hran, haccounted, h.commit hran hrows⟩
  have hstate : ∀ state, PlacedAt undone (fun _ => True) { engine with state } := by
    intro state
    exact hplaced.same ⟨⟨rfl, rfl, rfl, rfl, rfl⟩, rfl, fun _ _ hhead => hhead⟩
  cases hverdict with
  | turnedAway _ huntouched =>
      have hleaves := huntouched.leaves hpayloads
      exact ⟨h.leaves hleaves, hplaced.same hleaves.toSameBooks⟩
  | mismatched hexecutes _ _ huntouched =>
      have hleaves := huntouched.leaves hpayloads
      exact ⟨(hexecuted hexecutes).2.2.leaves hleaves, (hstate _).same hleaves.toSameBooks⟩
  | withoutTd hexecutes _ _ huntouched =>
      have hleaves := huntouched.leaves hpayloads
      exact ⟨(hexecuted hexecutes).2.2.leaves hleaves, (hstate _).same hleaves.toSameBooks⟩
  | @stored parent executed state td after hexecutes _ htd honly =>
      obtain ⟨hran, haccounted, hbooks⟩ := hexecuted hexecutes
      have hnew := hsuits.newcomer parent executed state hexecutes (by rw [htd]; rfl)
      have henters := enters_persistBlock { engine with state }
        (td + executed.block.header.difficulty) haccounted
      rw [honly.chain_eq] at hapart
      have hleaves := honly.leaves
      refine ⟨(hbooks.enters henters hran haccounted).leaves hleaves, ?_⟩
      refine ((hstate state).enters henters ?_ (fun number _ => hnew.once number)
        fun number hash body _ => hnew.apart number hash body).same hleaves.toSameBooks
      -- The header under this hash is the same one.
      intro header hheader
      have hlogged : header ∈ (({ engine with state } : Engine).persistBlock executed
          (td + executed.block.header.difficulty)).chain.headerLog := by
        rw [henters.headerLog]
        exact List.mem_cons_of_mem _ (h.logged hheader)
      have hself : executed.block.header ∈ (({ engine with state } : Engine).persistBlock executed
          (td + executed.block.header.difficulty)).chain.headerLog := by
        rw [henters.headerLog]
        exact List.mem_cons_self
      rw [hapart.injective _ hlogged _ hself (h.hash_eq hheader)]

/-- What holds during a call as long as no more headers have been stored than at its
end. -/
theorem kept_books {log : List Header} (hapart : HashesApart log) :
    Kept (ethNode provider generate) (fun _ => True) (Suits (ethNode provider generate) ran)
      (fun _ _ => True) (fun _ engine => engine.chain.headerLog ⊆ log →
        Books ran undone engine ∧ PlacedAt undone (fun _ => True) engine) where
  inner := by
    intro pending outside engine block h hsuits _ expected beaconRoot _ hlog
    have hextends : Extends B256.zero engine _ := extends_newPayloadInternalInner
      (ethNode provider generate) outside engine block expected beaconRoot
    obtain ⟨hbooks, hplaced⟩ := h (List.Subset.trans hextends.log hlog)
    exact books_newPayloadInternalInner hbooks hplaced hsuits expected beaconRoot
      (hapart.mono hlog)
  skip := fun h _ => h
  take := by
    intro child rest outside engine block h _ _
    refine ⟨trivial, fun hlog => ?_⟩
    have hleaves : Leaves engine { engine with
        blockTree := engine.blockTree.removeBlock child } := OnlyTree.leaves rfl
    exact ⟨(h hlog).1.leaves hleaves, (h hlog).2.same hleaves.toSameBooks⟩
  detach := by
    intro engine parent h hlog
    have hleaves : Leaves engine { engine with
        blockTree := engine.blockTree.removeChildren parent } := OnlyTree.leaves rfl
    exact ⟨(h hlog).1.leaves hleaves, (h hlog).2.same hleaves.toSameBooks⟩
  soft := by
    intro engine hash parent h hlog
    have hleaves : Leaves engine (engine.markInvalid hash parent .soft) := OnlyTree.leaves rfl
    exact ⟨(h hlog).1.leaves hleaves, (h hlog).2.same hleaves.toSameBooks⟩
  inherit := by
    intro engine payload h _ _ _ _ hlog
    have hleaves : Leaves engine (engine.markInvalid payload.block.hash
        payload.block.header.parentHash .hard) := OnlyTree.leaves rfl
    exact ⟨(h hlog).1.leaves hleaves, (h hlog).2.same hleaves.toSameBooks⟩

/-- A steady call keeps the books. -/
theorem books_step (h : Books ran undone engine) (hplaced : PlacedAt undone (fun _ => True) engine)
    (call : Call) (hsteady : SteadyCall (ethNode provider generate) undone engine call)
    (hran : ∀ executed, Ran (ethNode provider generate) engine call executed → ran executed)
    (hapart : HashesApart (step (ethNode provider generate) engine call).chain.headerLog) :
    Books ran (undoneAfter undone engine call) (step (ethNode provider generate) engine call) ∧
      PlacedAt (undoneAfter undone engine call) (fun _ => True)
        (step (ethNode provider generate) engine call) := by
  cases call with
  | newPayload outside block expectedBlockHash expected beaconRoot =>
      refine (kept_books hapart).step ⟨outside, block, expectedBlockHash, expected, beaconRoot⟩
        (fun _ => ⟨h, hplaced⟩) trivial trivial ?_ (fun _ _ => trivial) (List.Subset.refl _)
      intro attempt hattempt
      exact ⟨fun parent executed state hexecutes => hran executed (.imported hattempt hexecutes),
        hsteady attempt hattempt⟩
  | forkchoiceUpdated outside choice attributes version =>
      exact books_forkchoice h hplaced outside choice attributes version hsteady hran

/-! ## Runs -/

/-- By induction on the calls of the run. -/
theorem books_run (calls : List Call) (h : Books ran undone engine)
    (hplaced : PlacedAt undone (fun _ => True) engine)
    (hsteady : Steady (ethNode provider generate) undone engine calls)
    (hran : ∀ executed, RanIn (ethNode provider generate) engine calls executed → ran executed)
    (hapart : HashesApart (run (ethNode provider generate) engine calls).chain.headerLog) :
    ∃ undone', Books ran undone' (run (ethNode provider generate) engine calls) ∧
      PlacedAt undone' (fun _ => True) (run (ethNode provider generate) engine calls) := by
  induction calls generalizing undone engine with
  | nil => exact ⟨undone, h, hplaced⟩
  | cons call rest ih =>
      obtain ⟨hcall, hrest⟩ := hsteady
      have hstep : HashesApart
          (step (ethNode provider generate) engine call).chain.headerLog :=
        hapart.mono (log_run _ rest)
      obtain ⟨hbooks, hstays⟩ := books_step h hplaced call hcall
        (fun executed hexecuted => hran executed (.inl hexecuted)) hstep
      exact ih hbooks hstays hrest (fun executed hexecuted => hran executed (.inr hexecuted)) hapart

omit [Proofs] [Keccak256] [Evm] in
/-- The genesis block has no transactions to look up. -/
theorem books_initGenesis (genesis : Header) (withdrawals : Option (List Withdrawal))
    (state : StateTables) :
    Books ran undone (initGenesis ⟨genesis, ⟨[], [], withdrawals⟩⟩ state) := by
  have hheader : ∀ {hash header}, (initGenesis ⟨genesis, ⟨[], [], withdrawals⟩⟩
      state).chain.headers.get hash = some header →
      hash = hashSlow genesis ∧ header = genesis := by
    intro hash header hget
    dsimp only [initGenesis, Block.hash] at hget
    rw [Table.get_insert] at hget
    split at hget
    next heq => exact ⟨heq, (Option.some.inj hget).symm⟩
    next => cases hget
  have hbody : ∀ {hash body}, (initGenesis ⟨genesis, ⟨[], [], withdrawals⟩⟩
      state).chain.blockBodies.get hash = some body → body.transactions = [] := by
    intro hash body hget
    dsimp only [initGenesis, Block.hash] at hget
    rw [Table.get_insert] at hget
    split at hget
    · rw [← Option.some.inj hget]
    · cases hget
  refine ⟨?_, ?_, ?_, ?_, ?_, ?_, ?_⟩
  · intro hash header hget
    obtain ⟨rfl, rfl⟩ := hheader hget
    rfl
  · intro hash header hget
    obtain ⟨rfl, rfl⟩ := hheader hget
    exact List.mem_singleton_self _
  · intro hash header hget
    obtain ⟨rfl, rfl⟩ := hheader hget
    exact Table.get_insert_self _ _ _
  · intro hash
    dsimp only [initGenesis]
    rw [Table.get_insert, Table.get_insert]
    split
    · exact Iff.rfl
    · exact Iff.rfl
  · intro hash body hget i hi
    rw [hbody hget] at hi
    exact absurd hi (Nat.not_lt_zero i)
  · intro hash body hget _ i hi
    rw [hbody hget] at hi
    exact absurd hi (Nat.not_lt_zero i)
  · intro entry hentry
    obtain rfl := List.mem_singleton.mp hentry
    refine .inr ?_
    rw [Option.isSome_iff_exists]
    exact ⟨_, Table.get_insert_self _ _ _⟩

omit [Proofs] [Keccak256] [Evm] in
theorem placed_initGenesis (genesis : Header) (withdrawals : Option (List Withdrawal))
    (state : StateTables) :
    PlacedAt (fun _ => False) (fun _ => True)
      (initGenesis ⟨genesis, ⟨[], [], withdrawals⟩⟩ state) := by
  intro number hash _ hhead
  dsimp only [initGenesis] at hhead
  rw [Table.get_insert] at hhead
  split at hhead
  next heq =>
    obtain rfl := Option.some.inj hhead
    refine ⟨not_false, ⟨genesis, Table.get_insert_self _ _ _, heq.symm⟩, _,
      Table.get_insert_self _ _ _, ?_⟩
    intro i tx htx
    cases htx
  next => cases hhead

/-- After each call of a steady run every transaction of a canonical block is found, and
so are its receipt and its metadata. -/
theorem findsCanonical_of_steady (genesis : Header) (withdrawals : Option (List Withdrawal))
    (state : StateTables) (calls : List Call)
    (hsteady : Steady (ethNode provider generate) (fun _ => False)
      (initGenesis ⟨genesis, ⟨[], [], withdrawals⟩⟩ state) calls)
    (hapart : HashesApart (run (ethNode provider generate)
      (initGenesis ⟨genesis, ⟨[], [], withdrawals⟩⟩ state) calls).chain.headerLog) :
    FindsCanonical
      (RanIn (ethNode provider generate) (initGenesis ⟨genesis, ⟨[], [], withdrawals⟩⟩ state) calls)
      (run (ethNode provider generate) (initGenesis ⟨genesis, ⟨[], [], withdrawals⟩⟩ state)
        calls) := by
  obtain ⟨undone, hbooks, hplaced⟩ := books_run calls
    (books_initGenesis genesis withdrawals state) (placed_initGenesis genesis withdrawals state)
    hsteady (fun _ hexecuted => hexecuted) hapart
  exact hbooks.findsCanonical hplaced

end Calls

end Lookups

/-! ## Two siblings -/

section Siblings

variable [BlockHashing]

attribute [local instance] keccak keccakProofs

/-- A machine that ends every transaction after the gas of a transfer. -/
@[reducible] def transferringEvm : Evm :=
  { EthExecutionProvider.fundlessEvm with
    transact := fun _ _ => (.ok ⟨.call .stopped [], 21000⟩, ⟨[], [], [], [], [], [], [], []⟩) }

attribute [local instance] transferringEvm

def transferNode : Node := ethNode ⟨sampleConfig, .inOrder⟩ fun _ _ => 1

def transfer : Transaction :=
  { (default : Transaction) with
    kind := .legacy 1000000000, gasLimit := 21000, toAddress := some default }

/-- Children of the genesis block with the same transaction. -/
def transferBlock (timestamp : Nat) : Block where
  header := { sampleHeader genesisHash 1 timestamp 875000000 with
    gasUsed := 21000
    transactionsRoot :=
      B256.ofNat 0x8d29714527671625ab84071233320a0910cfc8e2d685c0a540111c5b19e3be48
    receiptsRoot :=
      B256.ofNat 0x056b23fbba480696b65fe5a59b8f2148a1299103c4f57df839233af2cf4ca2d2 }
  body := ⟨[transfer], [], none⟩

@[irreducible] def transferHash : B256 :=
  B256.ofNat 0x1250114cf9bd1676e8e3b21160cf808e9f578ceb5b4ffffa1a913ebeb998a31b

@[irreducible] def siblingHash : B256 :=
  B256.ofNat 0xfc269533d40542fe8da761e32bfd1943be7ec2f3f74b31039e3dc0f4e52043de

def transferPayload (timestamp : Nat) (hash : B256) : NewPayload :=
  ⟨sampleOutside, transferBlock timestamp, hash, none, none⟩

/-- The block is imported and made the head. -/
def transferRun : List Call :=
  [(transferPayload 12 transferHash).call, chooseHead transferHash]

/-- Its sibling is imported after that. -/
def siblingRun : List Call := transferRun ++ [(transferPayload 13 siblingHash).call]

/-- The head goes to the sibling and back. -/
def returningRun : List Call := siblingRun ++ [chooseHead siblingHash, chooseHead transferHash]

end Siblings

section Sample

attribute [local instance] keccak keccakHashing keccakProofs transferringEvm

def transferHashes : List (Header × B256) :=
  [((transferBlock 12).header, transferHash), ((transferBlock 13).header, siblingHash)] ++
    sampleHashes

theorem transferHashing_eq : lookupHashing transferHashes = keccakHashing := by
  have hnew : ∀ entry ∈ [((transferBlock 12).header, transferHash),
      ((transferBlock 13).header, siblingHash)], keccak256 entry.1.encode = entry.2 := by
    decide +kernel
  apply lookupHashing_eq
  intro entry hentry
  rcases List.mem_append.mp hentry with hmem | hmem
  · exact hnew entry hmem
  · exact keccak256_sampleHashes entry hmem

/-- Nothing waits for the block, so the call tries only that. -/
theorem attempts_transfer : sampleEngine.attempts transferNode (transferPayload 12 transferHash) =
    [⟨sampleOutside, sampleEngine, transferBlock 12⟩] := by
  have hreaches : sampleEngine.reachesImport transferNode (transferPayload 12 transferHash) = true ∧
      sampleEngine.blockTree.getInvalidationReason (transferBlock 12).hash = none ∧
      sampleEngine.blockTree.getInvalidationReason (transferBlock 12).header.parentHash = none ∧
      (sampleEngine.attempts transferNode (transferPayload 12 transferHash)).length = 1 := by
    rw [← transferHashing_eq]
    decide +kernel
  obtain ⟨hreaches, hself, hparent, hlength⟩ := hreaches
  obtain ⟨rest, hattempts⟩ : ∃ rest, sampleEngine.attempts transferNode
      (transferPayload 12 transferHash) =
        ⟨sampleOutside, sampleEngine, transferBlock 12⟩ :: rest := by
    have hmarked : ¬ sampleEngine.blockTree.getInvalidationReason
        (transferPayload 12 transferHash).block.hash = some .hard := by
      rw [transferPayload, hself]
      simp
    rw [attempts, if_pos hreaches, importAttempts, if_neg hmarked, transferPayload, hparent]
    exact ⟨_, rfl⟩
  rw [hattempts] at hlength ⊢
  rw [List.length_eq_zero_iff.mp (Nat.succ.inj hlength)]

/-- The log after the import and after the whole run, which the fork choice leaves alone. -/
theorem log_transfer : HashesApart
    (step transferNode sampleEngine (transferPayload 12 transferHash).call).chain.headerLog ∧
      HashesApart (run transferNode sampleEngine transferRun).chain.headerLog := by
  have hlogs : (step transferNode sampleEngine
        (transferPayload 12 transferHash).call).chain.headerLog =
          [(transferBlock 12).header, genesisHeader] ∧
      (run transferNode sampleEngine transferRun).chain.headerLog =
        [(transferBlock 12).header, genesisHeader] := by
    rw [← transferHashing_eq]
    decide +kernel
  have hapart : HashesApart [(transferBlock 12).header, genesisHeader] := by
    constructor
    · rw [← transferHashing_eq]
      decide +kernel
    · rw [← transferHashing_eq]
      decide +kernel
  rw [hlogs.1, hlogs.2]
  exact ⟨hapart, hapart⟩

theorem heads_transfer :
    (step transferNode sampleEngine (transferPayload 12 transferHash).call).chain.canonicalHeads =
      sampleEngine.chain.canonicalHeads := by
  have hapart := log_transfer.1
  rw [transferPayload, NewPayload.call, step] at hapart ⊢
  have hextends : Extends (emptyBlock genesisHeader).hash sampleEngine _ :=
    extends_newPayloadInternal transferNode sampleOutside sampleEngine (transferBlock 12)
      transferHash none none
  have hgenesis : HashesApart sampleEngine.chain.headerLog := hapart.mono hextends.log
  have hinvariant : Invariant (emptyBlock genesisHeader).hash sampleEngine :=
    invariant_initGenesis (emptyBlock genesisHeader) ⟨∅, ∅, ∅, ∅, ∅, ∅, ∅⟩ hgenesis
  exact (hextends.grows hapart hinvariant.chain).canonicalHeads

theorem steady_transfer : Steady transferNode (fun _ => False) sampleEngine transferRun := by
  have hgenesis : ∀ {number hash}, sampleEngine.chain.canonicalHeads.get number = some hash →
      hash = (emptyBlock genesisHeader).hash := by
    intro number hash hhead
    dsimp only [sampleEngine, initGenesis] at hhead
    rw [Table.get_insert] at hhead
    split at hhead
    · exact (Option.some.inj hhead).symm
    · cases hhead
  refine ⟨?_, ?_, trivial⟩
  · intro attempt hattempt parent executed state hexecutes _
    have hattempt : attempt ∈ sampleEngine.attempts transferNode
        (transferPayload 12 transferHash) := hattempt
    rw [attempts_transfer, List.mem_singleton] at hattempt
    subst hattempt
    have hresult : EthExecutionProvider.executeBlockWithStateRoot ⟨sampleConfig, .inOrder⟩
        Faults.none sampleEngine.database (transferBlock 12) (some parent.stateRoot) =
          (.ok executed, state) := hexecutes.result
    obtain ⟨-, htransactions, -⟩ := EthExecutionProvider.committed_of_execute hresult
    refine ⟨fun _ _ => ?_, fun number hash body hhead _ hbody => ?_⟩
    · rw [htransactions]
      exact List.nodup_singleton _
    · have hempty : sampleEngine.chain.blockBodies.get (emptyBlock genesisHeader).hash =
          some ⟨[], [], none⟩ := by
        dsimp only [sampleEngine, initGenesis]
        rw [Table.get_insert_self]
        rfl
      dsimp only at hhead hbody
      rw [hgenesis hhead, hempty] at hbody
      rw [← Option.some.inj hbody]
      exact List.disjoint_nil_right _
  · intro updated context hswitching
    have hafter : ((step transferNode sampleEngine
          (transferPayload 12 transferHash).call).switching
            ⟨transferHash, B256.zero, B256.zero⟩).map
              (fun entry => (entry.2.newCanonicalBlocks, entry.2.isReorg)) =
                some ([transferBlock 12], false) ∧
        (step transferNode sampleEngine
          (transferPayload 12 transferHash).call).chain.blockBodies.get
            (emptyBlock genesisHeader).hash = some ⟨[], [], none⟩ := by
      rw [← transferHashing_eq]
      decide +kernel
    obtain ⟨hcontext, hempty⟩ := hafter
    have hleaves := leaves_of_switching hswitching
    rw [hswitching] at hcontext
    obtain ⟨hblocks, hreorg⟩ := Prod.mk.inj (Option.some.inj hcontext)
    dsimp only at hblocks hreorg
    refine ⟨?_, ?_, ?_⟩
    · rw [hblocks]
      exact List.nodup_singleton _
    · intro number hash body hhead hbody _ _
      have hstays := hleaves.canonicalHeads number hash hhead
      rw [heads_transfer] at hstays
      rw [hleaves.blockBodies, hgenesis hstays, hempty] at hbody
      rw [← Option.some.inj hbody]
      exact List.disjoint_nil_right _
    · intro block _
      refine ⟨not_false, ?_⟩
      rintro ⟨number, ⟨hundoes, -⟩, -⟩
      rw [hreorg] at hundoes
      cases hundoes

/-- The transaction of the block is found, with its receipt and its metadata. -/
theorem findsCanonical_transfer :
    FindsCanonical (RanIn transferNode sampleEngine transferRun)
      (run transferNode sampleEngine transferRun) :=
  findsCanonical_of_steady genesisHeader none ⟨∅, ∅, ∅, ∅, ∅, ∅, ∅⟩ transferRun steady_transfer
    log_transfer.2

/-- The sibling takes the location over although it is not canonical, and the way back leaves
the block without its metadata. -/
theorem not_findsCanonical_sibling :
    ¬ FindsCanonical (RanIn transferNode sampleEngine siblingRun)
        (run transferNode sampleEngine siblingRun) ∧
      ¬ FindsCanonical (RanIn transferNode sampleEngine returningRun)
        (run transferNode sampleEngine returningRun) := by
  have hsibling : (run transferNode sampleEngine siblingRun).chain.canonicalHeads.get 1 =
        some transferHash ∧
      (run transferNode sampleEngine siblingRun).chain.blockBodies.get transferHash =
        some (transferBlock 12).body ∧
      (run transferNode sampleEngine siblingRun).chain.transactionBlockReference (txHash transfer) =
        none := by
    rw [← transferHashing_eq]
    decide +kernel
  have hreturning : (run transferNode sampleEngine returningRun).chain.canonicalHeads.get 1 =
        some transferHash ∧
      (run transferNode sampleEngine returningRun).chain.blockBodies.get transferHash =
        some (transferBlock 12).body ∧
      (run transferNode sampleEngine returningRun).state.receiptMeta transferHash 0 = none := by
    rw [← transferHashing_eq]
    decide +kernel
  constructor
  · intro hfinds
    obtain ⟨hhead, hstored, hreference⟩ := hsibling
    obtain ⟨_, body, -, -, hbody, hfound⟩ := hfinds 1 transferHash hhead
    obtain rfl := Option.some.inj (hbody.symm.trans hstored)
    have hplace := hfound.reference 0 transfer rfl
    rw [hreference] at hplace
    cases hplace
  · intro hfinds
    obtain ⟨hhead, hstored, hmeta⟩ := hreturning
    obtain ⟨_, body, -, -, hbody, hfound⟩ := hfinds 1 transferHash hhead
    obtain rfl := Option.some.inj (hbody.symm.trans hstored)
    obtain ⟨row, hrow, -⟩ := hfound.receiptMeta 0 Nat.zero_lt_one
    rw [hmeta] at hrow
    cases hrow

end Sample

end WasixEth.Engine
