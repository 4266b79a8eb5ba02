import Mathlib.Tactic.IntervalCases
import WasixEth.BlockCodec
import WasixEth.Storage.GenesisState

/-! # Starting over

A genesis can be cut short after any of its transactions. The next start finds
some of the rows in the database and no record of the block, or the record and
all that comes before it. It ends with the same rows in either case, whatever
has been tried before.
-/

namespace WasixEth.Storage

open Routine BatchWriter

section

variable [Keccak256] {strings : Set Bytes} {eip161 : Bool}
  {alloc : BTreeMap Address GenesisAccount}

/-! ## Writing the state again -/

theorem insertCodes_eq (entries : List (Address × GenesisAccount)) (codes : Table B256 Bytes) :
    insertCodes entries codes = codes.overlay (insertCodes entries ∅) := by
  induction entries generalizing codes with
  | nil =>
      ext1 hash
      rw [Table.get_overlay]
      rfl
  | cons entry rest ih =>
      have hcons : ∀ codes, insertCodes (entry :: rest) codes =
          insertCodes rest (insertCode entry.2.code codes) := fun _ => rfl
      rw [hcons, hcons, ih, ih (insertCode entry.2.code ∅)]
      ext1 hash
      simp only [Table.get_overlay, Option.or_assoc]
      cases entry.2.code with
      | none => rfl
      | some code =>
          simp only [insertCode, Table.get_insert]
          split <;> simp

/-- The codes are in the table already. -/
theorem insertCodes_insertCodes (entries : List (Address × GenesisAccount))
    (codes : Table B256 Bytes) :
    insertCodes entries (insertCodes entries codes) = insertCodes entries codes := by
  rw [insertCodes_eq entries codes, insertCodes_eq entries (codes.overlay _)]
  ext1 hash
  simp only [Table.get_overlay]
  cases (insertCodes entries ∅).get hash <;> rfl

theorem genesisTables_genesisTables (base : StateTables) (nodes nodes' : Table B256 Bytes) :
    genesisTables eip161 alloc (genesisTables eip161 alloc base nodes) nodes' =
      genesisTables eip161 alloc base nodes' := by
  simp only [genesisTables, insertCodes_insertCodes]
  congr 1
  · funext address
    cases hlookup : alloc.entries.lookup address <;> simp [Table.get, hlookup]
  · funext entry
    cases hgiven : (alloc.entries.lookup entry.1).bind (·.given entry.2) <;>
      simp [Table.get, hgiven]

/-- What is left of an attempt is a beginning of what is to be. -/
theorem receptive_genesisTables {base : StateTables} {nodes : Table B256 Bytes}
    (hcomplete : Complete strings eip161 alloc nodes) {latest : Option B256}
    (hlatest : latest = none ∨ latest = some (YellowPaper.trie (stateLeaves eip161 alloc)))
    (chain : ChainTables) :
    Receptive strings eip161 alloc latest ⟨chain, genesisTables eip161 alloc base nodes⟩ where
  keyed := hcomplete.keyed
  state := by
    rcases hlatest with rfl | rfl
    · exact ⟨_, .none _, .empty _⟩
    · exact ⟨_, .refl _, hcomplete.state⟩
  storages entry hentry := by
    have hrow : (genesisTables eip161 alloc base nodes).accounts.get entry.1 =
        entry.2.settled eip161 := by
      simp [genesisTables, Table.get, lookup_of_mem alloc.nodup hentry]
    dsimp only
    rw [hrow]
    cases hsettled : entry.2.settled eip161 with
    | none => exact ⟨_, .none _, .empty _⟩
    | some found =>
        refine ⟨_, .refl _, ?_⟩
        have hcanon := hcomplete.storages entry hentry
        unfold GenesisAccount.settled at hsettled
        split at hsettled
        next => cases hsettled
        next =>
          obtain rfl := Option.some.inj hsettled
          exact hcanon

end

/-! ## Writing the rows again -/

section

variable [BlockHashing] (genesis : GenesisConfiguration) (toVec : ChainConfig → Bytes)
  (header : Header)

namespace GenesisConfiguration

/-- The rows of `Metadata` once the first so many rows are written. -/
def stageMetadata (rows : Nat) (config : Bool) : Table String Bytes := fun key =>
  if key = "chain_id" then
    if 8 < rows then some (Rlp.beBytes 8 genesis.config.chainId) else none
  else if key = "genesis_hash" then if 9 < rows then some (hashSlow header).bytes else none
  else if key = "canonical_0" then if 10 < rows then some (hashSlow header).bytes else none
  else if key = "chain_config" then if config then some (toVec genesis.config) else none
  else none

/-- The tables of the chain once the first so many rows are written. -/
def stageChain (rows : Nat) (log : List Header) : ChainTables where
  headers := if 0 < rows then (∅ : Table B256 Header).insert (hashSlow header) header else ∅
  headerNumbers :=
    if 0 < rows then (∅ : Table B256 Nat).insert (hashSlow header) header.number else ∅
  headerTd :=
    if 6 < rows then (∅ : Table B256 U256).insert (hashSlow header) header.difficulty else ∅
  blockBodies :=
    if 4 < rows then (∅ : Table B256 BlockBody).insert (hashSlow header) (genesis.body header)
    else ∅
  canonicalHeads :=
    if 1 < rows then (∅ : Table Nat B256).insert header.number (hashSlow header) else ∅
  payloads := if 7 < rows then [(0, ⟨⟨header, genesis.body header⟩, [], []⟩)] else []
  forkchoice := ⟨if 5 < rows then some (hashSlow header) else none, none, none⟩
  transactions := ∅
  transactionLookup := ∅
  receipts := ∅
  headerLog := log

/-- The database once the first so many rows of the block are written. -/
def stage (rows : Nat) (log : List Header) (tables : StateTables) (config : Bool) :
    GenesisStore where
  database := ⟨genesis.stageChain header rows log, tables⟩
  latestBlockNumber := if 1 < rows then some header.number else none
  metadata := genesis.stageMetadata toVec header rows config

section Rows

variable {genesis toVec header} {rows : Nat} {log : List Header} {tables : StateTables}
  {config : Bool}

theorem fresh_eq_stage :
    GenesisStore.fresh = genesis.stage toVec header 0 [] emptyDatabase.state false := by
  simp only [GenesisStore.fresh, stage, stageChain, emptyDatabase, Nat.not_lt_zero, if_false,
    GenesisStore.mk.injEq, true_and]
  funext key
  simp [stageMetadata, EmptyCollection.emptyCollection]

omit [BlockHashing] in
theorem insert_insert {K V : Type} [DecidableEq K] (table : Table K V) (key : K) (value : V) :
    (table.insert key value).insert key value = table.insert key value := by
  ext1 key'
  simp only [Table.get_insert]
  split <;> rfl

/-- The first eight rows are not in `Metadata`. -/
theorem stageMetadata_eq {rows' : Nat} (h : rows ≤ 8) (h' : rows' ≤ 8) :
    genesis.stageMetadata toVec header rows config =
      genesis.stageMetadata toVec header rows' config := by
  funext key
  simp only [stageMetadata, show ¬8 < rows by omega, show ¬8 < rows' by omega,
    show ¬9 < rows by omega, show ¬9 < rows' by omega, show ¬10 < rows by omega,
    show ¬10 < rows' by omega, if_false]

/-- The next row. -/
theorem write_stage_due {index : Nat} {write : GenesisStore → GenesisStore}
    (hwrite : (genesis.blockWrites header)[index]? = some write) :
    write (genesis.stage toVec header index log tables config) =
      genesis.stage toVec header (index + 1)
        (if index = 0 then header :: log else log) tables config := by
  have hindex : index < 11 := (List.getElem?_eq_some_iff.mp hwrite).1
  interval_cases index
  all_goals obtain rfl := Option.some.inj hwrite
  case «8» | «9» | «10» =>
    simp only [GenesisStore.setMetadata, stage, stageChain]
    congr 1
    funext key
    simp only [Table.insert, stageMetadata]
    split <;> simp_all
  all_goals
    simp [stage, stageChain, GenesisStore.onChain, GenesisStore.setCanonical,
      ChainTables.insertHeader, ChainTables.setCanonical, ChainTables.insertHeaderNumber,
      ChainTables.insertBlockBody, ChainTables.insertTransactions, ChainTables.setHead,
      ChainTables.insertHeaderTd, ChainTables.addPayload, ChainTables.insertPayload,
      insert_insert, body]
    exact stageMetadata_eq (by omega) (by omega)

/-- A row that is there already. -/
theorem write_stage_done {index : Nat} {write : GenesisStore → GenesisStore}
    (hwrite : (genesis.blockWrites header)[index]? = some write) (hdone : index < rows) :
    write (genesis.stage toVec header rows log tables config) =
      genesis.stage toVec header rows (if index = 0 then header :: log else log) tables config := by
  have hindex : index < 11 := (List.getElem?_eq_some_iff.mp hwrite).1
  have hhead : 0 < rows := by omega
  interval_cases index
  all_goals obtain rfl := Option.some.inj hwrite
  case «8» | «9» | «10» =>
    simp only [GenesisStore.setMetadata, stage, stageChain]
    congr 1
    funext key
    simp only [Table.insert, stageMetadata]
    split <;> simp_all
  all_goals
    simp [stage, stageChain, GenesisStore.onChain, GenesisStore.setCanonical,
      ChainTables.insertHeader, ChainTables.setCanonical, ChainTables.insertHeaderNumber,
      ChainTables.insertBlockBody, ChainTables.insertTransactions, ChainTables.setHead,
      ChainTables.insertHeaderTd, ChainTables.addPayload, ChainTables.insertPayload,
      insert_insert, body, hdone, hhead]

/-- Whether the block is recorded. -/
theorem get_genesisHash :
    (genesis.stage toVec header rows log tables config).metadata.get "genesis_hash" =
      if 9 < rows then some (hashSlow header).bytes else none := by
  simp [stage, Table.get, stageMetadata]

end Rows

variable (rows : Nat) (log : List Header) (tables : StateTables) (config : Bool)

theorem writes_stage {count : Nat} (hcount : count ≤ 11) :
    ∃ log', ((genesis.blockWrites header).take count).foldl (fun store write => write store)
        (genesis.stage toVec header rows log tables config) =
      genesis.stage toVec header (max rows count) log' tables config := by
  induction count with
  | zero => exact ⟨log, by simp⟩
  | succ count ih =>
      obtain ⟨log', hstage⟩ := ih (by omega)
      have hlength : (genesis.blockWrites header).length = 11 := rfl
      have hwrite := List.getElem?_eq_getElem (l := genesis.blockWrites header) (i := count)
        (by omega)
      rw [List.take_add_one, hwrite, List.foldl_append, hstage, Option.toList_some,
        List.foldl_cons, List.foldl_nil]
      rcases (Nat.le_max_right rows count).eq_or_lt with hdue | hdone
      · rw [← hdue, write_stage_due hwrite, show max rows (count + 1) = count + 1 by omega]
        exact ⟨_, rfl⟩
      · rw [write_stage_done hwrite hdone, show max rows (count + 1) = max rows count by omega]
        exact ⟨_, rfl⟩

/-! ## The configuration -/

theorem configWrites_stage :
    genesis.configWrites toVec (genesis.stage toVec header rows log tables config) =
      if config then [] else [.setMetadata "chain_config" (toVec genesis.config)] := by
  cases config <;> rfl

theorem foldl_configWrites_stage (count : Nat) (rows' : Nat) (log' : List Header)
    (tables' : StateTables) :
    ∃ config', ((genesis.configWrites toVec
        (genesis.stage toVec header rows log tables config)).take count).foldl
          (fun store write => write store) (genesis.stage toVec header rows' log' tables' config) =
      genesis.stage toVec header rows' log' tables' config' ∧ (0 < count → config' = true) := by
  rw [configWrites_stage]
  cases config with
  | true => exact ⟨true, by simp, fun _ => rfl⟩
  | false =>
      cases count with
      | zero => exact ⟨false, rfl, by simp⟩
      | succ count =>
          refine ⟨true, ?_, fun _ => rfl⟩
          simp only [Bool.false_eq_true, if_false, List.take_succ_cons, List.take_nil,
            List.foldl_cons, List.foldl_nil, GenesisStore.setMetadata, stage]
          congr 1
          funext key
          simp only [Table.insert, stageMetadata]
          split <;> simp_all

end GenesisConfiguration

end

/-! ## Attempts -/

section

variable [Keccak256] [BlockHashing] [Proofs] {strings : Set Bytes}
  {genesis : GenesisConfiguration} {toVec : ChainConfig → Bytes} {header : Header} {rows : Nat}
  {log : List Header} {tables : StateTables} {config : Bool}

namespace GenesisConfiguration

/-- Whether EIP-161 holds for the accounts of the first block. -/
def eip161 (genesis : GenesisConfiguration) : Bool :=
  match genesis.position with
  | none => false
  | some (number, timestamp) =>
      Hardfork.spuriousDragon ≤ Hardfork.getActiveFork genesis.config number timestamp

/-- The strings that a call of `init_genesis` hashes for the state. -/
def initLog (genesis : GenesisConfiguration) (order : Enumeration) (store : GenesisStore) :
    List Bytes :=
  if (store.metadata.get "genesis_hash").isSome then []
  else
    match genesis.position with
    | none => []
    | some (number, timestamp) => (genesis.stateBatch order store number timestamp).log

/-- What calls that were cut short may leave, one after the other, none of them
or many. -/
inductive Attempted (genesis : GenesisConfiguration) (toVec : ChainConfig → Bytes)
    (strings : Set Bytes) : GenesisStore → Prop
  | fresh : Attempted genesis toVec strings .fresh
  | attempt {store : GenesisStore} (order : Enumeration) (count : Nat) :
      Attempted genesis toVec strings store →
      (∀ data ∈ genesis.initLog order store, data ∈ strings) →
      Attempted genesis toVec strings ((genesis.init order toVec store).after count store)

/-- The state root of the block, and its header. -/
def rootOf (genesis : GenesisConfiguration) : B256 :=
  YellowPaper.trie (stateLeaves genesis.eip161 genesis.alloc)

/-- The state of the allocation is in the tables. -/
def StateWritten (strings : Set Bytes) (genesis : GenesisConfiguration) (tables : StateTables) :
    Prop :=
  ∃ nodes, tables = genesisTables genesis.eip161 genesis.alloc emptyDatabase.state nodes ∧
    Complete strings genesis.eip161 genesis.alloc nodes

/-- Rows of the block are written after the state only. -/
def Sound (strings : Set Bytes) (genesis : GenesisConfiguration) (rows : Nat)
    (tables : StateTables) : Prop :=
  rows = 0 ∧ tables = emptyDatabase.state ∨ StateWritten strings genesis tables

omit [BlockHashing] in
theorem exists_position {root : B256} (hheader : genesis.header root = some header) :
    ∃ number timestamp, genesis.position = some (number, timestamp) := by
  unfold GenesisConfiguration.header at hheader
  cases hposition : genesis.position with
  | none =>
      rw [hposition] at hheader
      cases hheader
  | some position => exact ⟨position.1, position.2, rfl⟩

omit [BlockHashing] in
theorem stateRoot_of_header {root : B256} (hheader : genesis.header root = some header) :
    header.stateRoot = root := by
  unfold GenesisConfiguration.header at hheader
  simp only [Option.bind_eq_bind, Option.bind_eq_some_iff, Option.pure_def,
    Option.some.injEq] at hheader
  obtain ⟨position, -, baseFeePerGas, -, gasLimit, -, nonce, -, gasUsed, -, blobGasUsed, -,
    excessBlobGas, -, rfl⟩ := hheader
  rfl

omit [Keccak256] [Proofs] in
/-- The latest header is looked for among the rows of the block. -/
theorem latestHeader_stage :
    (genesis.stage toVec header rows log tables config).latestHeader = none ∨
      0 < rows ∧
        (genesis.stage toVec header rows log tables config).latestHeader = some header := by
  unfold GenesisStore.latestHeader
  by_cases hrows : 1 < rows
  · have hhead : 0 < rows := by omega
    have hhash : (genesis.stageChain header rows log).forkchoice.head.or
        ((genesis.stageChain header rows log).blockHash Faults.none header.number) =
        some (hashSlow header) := by
      simp only [stageChain, ChainTables.blockHash, hrows, if_true, Table.get_insert_self,
        Faults.read_none]
      split <;> rfl
    simp only [stage, hrows, if_true, Option.bind_some, hhash]
    unfold ChainTables.header
    split
    · exact .inl rfl
    · exact .inr ⟨hhead, by simp [stageChain, hhead]⟩
  · left
    have hhead : ¬5 < rows := by omega
    simp [stage, stageChain, hrows, hhead]

theorem receptive_stage (hheader : genesis.header genesis.rootOf = some header)
    (hsound : Sound strings genesis rows tables) :
    Receptive strings genesis.eip161 genesis.alloc
      ((genesis.stage toVec header rows log tables config).latestHeader.map (·.stateRoot))
      (genesis.stage toVec header rows log tables config).database := by
  have hlatest : (genesis.stage toVec header rows log tables config).latestHeader = none ∨
      0 < rows ∧ (genesis.stage toVec header rows log tables config).latestHeader = some header :=
    latestHeader_stage
  rcases hsound with ⟨hzero, rfl⟩ | ⟨nodes, rfl, hcomplete⟩
  · have hnone := hlatest.resolve_right fun h => absurd hzero h.1.ne'
    rw [hnone]
    exact receptive_empty _
  · apply receptive_genesisTables hcomplete
    rcases hlatest with hnone | ⟨-, hsome⟩
    · exact .inl (by rw [hnone]; rfl)
    · exact .inr (by rw [hsome, Option.map_some, stateRoot_of_header hheader]; rfl)

/-- The batch of an attempt, whatever was there before. -/
theorem stateBatch_stage (hstrings : CollisionFree strings) (halloc : AllocIn strings genesis.alloc)
    (hheader : genesis.header genesis.rootOf = some header)
    (hsound : Sound strings genesis rows tables) {number timestamp : Nat}
    (hposition : genesis.position = some (number, timestamp)) (order : Enumeration)
    (hlog : ∀ data ∈ (genesis.stateBatch order
      (genesis.stage toVec header rows log tables config) number timestamp).log, data ∈ strings) :
    (genesis.stateBatch order (genesis.stage toVec header rows log tables config) number
        timestamp).result = .ok genesis.rootOf ∧
      StateWritten strings genesis (genesis.stateBatch order
        (genesis.stage toVec header rows log tables config) number timestamp).state.tables := by
  have heip161 : decide (Hardfork.spuriousDragon ≤
      Hardfork.getActiveFork genesis.config number timestamp) = genesis.eip161 := by
    rw [eip161, hposition]
  unfold stateBatch at hlog ⊢
  rw [heip161] at hlog ⊢
  obtain ⟨root, hresult, rfl, hfounds⟩ := writeGenesis_spec hstrings halloc
    (receptive_stage hheader hsound) _ rfl hlog
  refine ⟨hresult, _, ?_, hfounds.complete⟩
  rw [hfounds.tables]
  rcases hsound with ⟨-, rfl⟩ | ⟨nodes, rfl, -⟩
  · rfl
  · exact genesisTables_genesisTables _ _ _

/-- What a call does where the block is recorded. -/
theorem init_recorded (order : Enumeration) (hrecorded : 9 < rows) :
    genesis.init order toVec (genesis.stage toVec header rows log tables config) =
      ⟨genesis.configWrites toVec (genesis.stage toVec header rows log tables config), true⟩ := by
  apply if_pos
  rw [get_genesisHash, if_pos hrecorded]
  rfl

omit [Proofs] in
theorem initLog_unrecorded (order : Enumeration) (hrecorded : ¬9 < rows) {number timestamp : Nat}
    (hposition : genesis.position = some (number, timestamp)) :
    genesis.initLog order (genesis.stage toVec header rows log tables config) =
      (genesis.stateBatch order (genesis.stage toVec header rows log tables config) number
        timestamp).log := by
  unfold initLog
  rw [get_genesisHash, if_neg hrecorded, Option.isSome_none, if_neg Bool.false_ne_true, hposition]

/-- What a call does where it is not. -/
theorem init_unrecorded (hstrings : CollisionFree strings)
    (halloc : AllocIn strings genesis.alloc)
    (hheader : genesis.header genesis.rootOf = some header)
    (hsound : Sound strings genesis rows tables) (order : Enumeration) (hrecorded : ¬9 < rows)
    (hlog : ∀ data ∈ genesis.initLog order
      (genesis.stage toVec header rows log tables config), data ∈ strings) :
    ∃ tables', StateWritten strings genesis tables' ∧
      genesis.init order toVec (genesis.stage toVec header rows log tables config) =
        ⟨.commitBatch tables' :: (genesis.blockWrites header ++ genesis.configWrites toVec
          (genesis.stage toVec header rows log tables config)), true⟩ := by
  obtain ⟨number, timestamp, hposition⟩ := exists_position hheader
  rw [initLog_unrecorded order hrecorded hposition] at hlog
  obtain ⟨hresult, hwritten⟩ :=
    stateBatch_stage hstrings halloc hheader hsound hposition order hlog
  refine ⟨_, hwritten, ?_⟩
  unfold init
  rw [get_genesisHash, if_neg hrecorded, Option.isSome_none, if_neg Bool.false_ne_true, hposition]
  dsimp only
  rw [hresult]
  dsimp only
  rw [hheader]

/-- Any part of a call carries one stage to a later one. -/
theorem after_stage (hstrings : CollisionFree strings) (halloc : AllocIn strings genesis.alloc)
    (hheader : genesis.header genesis.rootOf = some header)
    (hsound : Sound strings genesis rows tables) (order : Enumeration) (count : Nat)
    (hlog : ∀ data ∈ genesis.initLog order
      (genesis.stage toVec header rows log tables config), data ∈ strings) :
    ∃ rows' log' tables' config',
      (genesis.init order toVec (genesis.stage toVec header rows log tables config)).after count
          (genesis.stage toVec header rows log tables config) =
        genesis.stage toVec header rows' log' tables' config' ∧
      Sound strings genesis rows' tables' ∧ (12 < count → 9 < rows' ∧ config' = true) := by
  by_cases hrecorded : 9 < rows
  · rw [init_recorded order hrecorded]
    obtain ⟨config', hstage, hconfig⟩ :=
      foldl_configWrites_stage genesis toVec header rows log tables config count rows log tables
    exact ⟨rows, log, tables, config', hstage, hsound, fun h => ⟨hrecorded, hconfig (by omega)⟩⟩
  · obtain ⟨tables', hwritten, hinit⟩ :=
      init_unrecorded hstrings halloc hheader hsound order hrecorded hlog
    rw [hinit]
    cases count with
    | zero => exact ⟨rows, log, tables, config, rfl, hsound, by simp⟩
    | succ count =>
        have hlength : (genesis.blockWrites header).length = 11 := rfl
        have hcommit : (genesis.stage toVec header rows log tables config).commitBatch tables' =
            genesis.stage toVec header rows log tables' config := rfl
        obtain ⟨log', hrows⟩ := writes_stage genesis toVec header rows log tables' config
          (Nat.min_le_right count 11)
        have htake : (genesis.blockWrites header).take count =
            (genesis.blockWrites header).take (min count 11) := by
          rw [← hlength, List.take_eq_take_min]
        obtain ⟨config', hstage, hconfig⟩ := foldl_configWrites_stage genesis toVec header rows
          log tables config (count - 11) (max rows (min count 11)) log' tables'
        refine ⟨max rows (min count 11), log', tables', config', ?_, .inr hwritten,
          fun h => ⟨by omega, hconfig (by omega)⟩⟩
        unfold Run.after
        dsimp only
        rw [List.take_succ_cons, List.foldl_cons, hcommit, List.take_append, List.foldl_append,
          htake, hrows, hlength]
        exact hstage

/-- All that attempts leave is some stage. -/
theorem Attempted.exists_stage (hstrings : CollisionFree strings)
    (halloc : AllocIn strings genesis.alloc)
    (hheader : genesis.header genesis.rootOf = some header) {store : GenesisStore}
    (h : Attempted genesis toVec strings store) :
    ∃ rows log tables config, store = genesis.stage toVec header rows log tables config ∧
      Sound strings genesis rows tables := by
  induction h with
  | fresh => exact ⟨0, [], emptyDatabase.state, false, fresh_eq_stage, .inl ⟨rfl, rfl⟩⟩
  | attempt order count _ hlog ih =>
      obtain ⟨rows, log, tables, config, rfl, hsound⟩ := ih
      obtain ⟨rows', log', tables', config', hafter, hsound', -⟩ :=
        after_stage hstrings halloc hheader hsound order count hlog
      exact ⟨rows', log', tables', config', hafter, hsound'⟩

/-- The database of a chain with its first block. The row `canonical_0`, which
nothing reads, is the only one that may be missing: it comes after the record
of the block. -/
structure Founded (genesis : GenesisConfiguration) (toVec : ChainConfig → Bytes) (header : Header)
    (store : GenesisStore) : Prop where
  state : ∃ nodes, store.database.state =
      genesisTables genesis.eip161 genesis.alloc emptyDatabase.state nodes ∧
    CanonAt nodes genesis.rootOf (stateMap genesis.eip161 genesis.alloc) ∧
    ∀ entry ∈ genesis.alloc.entries, CanonAt nodes entry.2.storageRoot entry.2.slotMap
  chain : ∃ log, store.database.chain = genesis.stageChain header 11 log
  latest : store.latestBlockNumber = some header.number
  metadata : ∀ key, key ≠ "canonical_0" →
    store.metadata.get key = (genesis.stageMetadata toVec header 11 true).get key
  canonical : store.metadata.get "canonical_0" = none ∨
    store.metadata.get "canonical_0" = some (hashSlow header).bytes

omit [Proofs] in
theorem founded_stage (hrecorded : 9 < rows) (hwritten : StateWritten strings genesis tables) :
    Founded genesis toVec header (genesis.stage toVec header rows log tables true) where
  state := by
    obtain ⟨nodes, htables, hcomplete⟩ := hwritten
    exact ⟨nodes, htables, hcomplete.state, hcomplete.storages⟩
  chain := by
    refine ⟨log, ?_⟩
    simp only [stage, stageChain, show 0 < rows by omega, show 1 < rows by omega,
      show 4 < rows by omega, show 5 < rows by omega, show 6 < rows by omega,
      show 7 < rows by omega, if_true]
    rfl
  latest := if_pos (by omega)
  metadata key hkey := by
    simp [stage, Table.get, stageMetadata, show 8 < rows by omega, hrecorded, hkey]
  canonical := by
    by_cases hlast : 10 < rows
    · right
      simp [stage, Table.get, stageMetadata, hlast]
    · left
      simp [stage, Table.get, stageMetadata, hlast]

/-- However often and wherever the first start was cut short, the next call that
gets through leaves the first block, the metadata and the state of the
allocation, and every later call leaves all of it as it is. -/
theorem init_after_attempts (genesis : GenesisConfiguration) (toVec : ChainConfig → Bytes)
    (strings : Set Bytes) (hstrings : CollisionFree strings)
    (hinputs : ∀ data ∈ genesis.alloc.inputs, data ∈ strings) (header : Header)
    (hheader : genesis.header genesis.rootOf = some header) (store : GenesisStore)
    (hattempted : Attempted genesis toVec strings store) (order : Enumeration)
    (hlog : ∀ data ∈ genesis.initLog order store, data ∈ strings) :
    (genesis.init order toVec store).completed = true ∧
      Founded genesis toVec header ((genesis.init order toVec store).finish store) ∧
      ∀ order', genesis.init order' toVec ((genesis.init order toVec store).finish store) =
        ⟨[], true⟩ := by
  have halloc := allocIn_of_inputs hinputs
  obtain ⟨rows, log, tables, config, rfl, hsound⟩ :=
    hattempted.exists_stage hstrings halloc hheader
  have hcompleted : (genesis.init order toVec
      (genesis.stage toVec header rows log tables config)).completed = true := by
    by_cases hrecorded : 9 < rows
    · rw [init_recorded order hrecorded]
    · obtain ⟨tables', -, hinit⟩ :=
        init_unrecorded hstrings halloc hheader hsound order hrecorded hlog
      rw [hinit]
  obtain ⟨rows', log', tables', config', hafter, hsound', hfinal⟩ :=
    after_stage hstrings halloc hheader hsound order ((genesis.init order toVec
      (genesis.stage toVec header rows log tables config)).transactions.length + 13) hlog
  obtain ⟨hrecorded, rfl⟩ := hfinal (by omega)
  have hwritten := hsound'.resolve_left fun h => by omega
  unfold Run.after at hafter
  rw [List.take_of_length_le (by omega)] at hafter
  unfold Run.finish
  rw [hafter]
  refine ⟨hcompleted, founded_stage hrecorded hwritten, fun order' => ?_⟩
  rw [init_recorded order' hrecorded, configWrites_stage, if_pos rfl]

end GenesisConfiguration

end

section Keccak

attribute [local instance] keccak keccakHashing keccakProofs

/-- A chain that starts with one account. -/
def sampleGenesis : GenesisConfiguration where
  config := sampleConfig
  alloc := ⟨[(Address.trailing 1, ⟨none, 5, none, none⟩)], by decide⟩
  coinbase := none
  difficulty := some 17
  extraData := none
  gasLimit := some 30000000
  nonce := none
  mixHash := none
  parentHash := none
  timestamp := none
  number := none
  gasUsed := none
  baseFeePerGas := none
  excessBlobGas := none
  blobGasUsed := none

def chainIdBytes (config : ChainConfig) : Bytes := Rlp.beBytes 8 config.chainId

/-- The first start ends once the header is in and canonical, but not the head. -/
def cutShort : GenesisStore :=
  (sampleGenesis.init .inOrder chainIdBytes .fresh).after 3 .fresh

def sampleStrings : List Bytes :=
  [emptyStringCode] :: (sampleGenesis.alloc.inputs ++
    (sampleGenesis.initLog .inOrder .fresh ++ sampleGenesis.initLog .inOrder cutShort))

theorem isSome_header : (sampleGenesis.header sampleGenesis.rootOf).isSome = true := by
  decide +kernel

theorem collisionFree_sampleStrings : CollisionFree { data | data ∈ sampleStrings } where
  empty_mem := List.mem_cons_self
  injOn := by
    have hdistinct : ∀ x ∈ sampleStrings, ∀ y ∈ sampleStrings,
        keccak256 x = keccak256 y → x = y := by
      decide +kernel
    exact fun x hx y hy => hdistinct x hx y hy

theorem init_after_attempts_cutShort :
    (sampleGenesis.init .inOrder chainIdBytes cutShort).completed = true ∧
      sampleGenesis.Founded chainIdBytes
        ((sampleGenesis.header sampleGenesis.rootOf).get isSome_header)
        ((sampleGenesis.init .inOrder chainIdBytes cutShort).finish cutShort) ∧
      ∀ order', sampleGenesis.init order' chainIdBytes
        ((sampleGenesis.init .inOrder chainIdBytes cutShort).finish cutShort) = ⟨[], true⟩ :=
  GenesisConfiguration.init_after_attempts sampleGenesis chainIdBytes
    { data | data ∈ sampleStrings } collisionFree_sampleStrings
    (fun _ hdata => List.mem_cons_of_mem _ (List.mem_append_left _ hdata)) _
    (Option.some_get _).symm cutShort
    (.attempt .inOrder 3 .fresh fun _ hdata => List.mem_cons_of_mem _
      (List.mem_append_right _ (List.mem_append_left _ hdata)))
    .inOrder
    fun _ hdata => List.mem_cons_of_mem _
      (List.mem_append_right _ (List.mem_append_right _ hdata))

end Keccak

end WasixEth.Storage
