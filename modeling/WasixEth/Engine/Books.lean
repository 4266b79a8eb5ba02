import WasixEth.Engine.FollowingHead
import WasixEth.Engine.Rejected
import WasixEth.Execution.Bookkeeping
import WasixEth.Storage.Logs

/-! # The books of the engine

Where a transaction is and what its execution left can be looked up as long as
the block that has it is canonical. The location is written when any block with
the transaction is imported, and the metadata of a block goes away when the
block is undone, so both depend on the history of a run.
-/

namespace WasixEth

open Storage

/-! ## Reading -/

section Reads

variable (tables : ChainTables) (state : StateTables)

/-- `transaction_block_reference`: a location counts only while its block is
canonical. -/
def Storage.ChainTables.transactionBlockReference (hash : B256) : Option (Nat × B256 × Nat) :=
  match tables.transactionLookup.get hash with
  | none => none
  | some (blockHash, index) =>
      match tables.blockNumber Faults.none blockHash with
      | none => none
      | some number =>
          if tables.blockHash Faults.none number = some blockHash then
            some (number, blockHash, index)
          else none

/-- `receipt_meta`. -/
def Storage.StateTables.receiptMeta (blockHash : B256) (index : Nat) : Option ReceiptMeta :=
  state.receiptsMeta.get (blockHash, index)

end Reads

namespace Engine

variable [BlockHashing]

/-! ## The executions of a run -/

section Executions

variable [Proofs] (node : Node)

/-- The blocks that `executeMissing` executes, and the engine it does so on. -/
def promotions : Engine → List Block → List (Engine × Block)
  | _, [] => []
  | engine, block :: rest =>
      if (engine.chain.blockBodyByHash Faults.none block.hash).isSome then promotions engine rest
      else (engine, block) ::
        match node.execution.executeBlockWithCommit Faults.none engine.database block with
        | (.error _, _) => []
        | (.ok _, state) => promotions { engine with state } rest

/-- What an accepted fork choice starts from once it is stored, and how the
branch of its head is resolved. -/
def switching (engine : Engine) (state : ForkchoiceState) : Option (Engine × ReorgContext) :=
  if (engine.headStatus Faults.none state.headBlockHash).status = .valid then
    match engine.checkForkchoice Faults.none state with
    | .error _ => none
    | .ok number =>
        let updated := engine.updateState Faults.none state
          (engine.headNumberOf Faults.none state.headBlockHash number)
        match updated.chain.headerOrPayload Faults.none state.headBlockHash with
        | none => none
        | some _ =>
            match updated.chain.resolveReorg Faults.none engine.canonical.state.headBlockHash
                state.headBlockHash with
            | .error _ => none
            | .ok context => some (updated, context)
  else none

/-- What the execution provider returned in a call: for the payload and the
blocks that waited for it, for blocks that a fork choice promotes, and for the
payload that is built on its head. -/
inductive Ran (engine : Engine) : Call → ExecutedBlock → Prop
  | imported {payload : NewPayload} {attempt : Attempt} {parent : Header}
      {executed : ExecutedBlock} {state : StateTables}
      (hmem : attempt ∈ engine.attempts node payload)
      (h : Executes node attempt.outside attempt.engine attempt.block parent executed state) :
      Ran engine payload.call executed
  | promoted {outside : Outside} {choice : ForkchoiceState}
      {attributes : Option PayloadAttributes} {version : Nat} {updated before : Engine}
      {context : ReorgContext} {block : Block} {executed : ExecutedBlock} {state : StateTables}
      (hswitching : engine.switching choice = some (updated, context))
      (hmem : (before, block) ∈ promotions node
        (updated.revertFor Faults.none engine.canonical context).2 context.newCanonicalBlocks)
      (h : node.execution.executeBlockWithCommit Faults.none before.database block =
        (.ok executed, state)) :
      Ran engine (.forkchoiceUpdated outside choice attributes version) executed
  | built {outside : Outside} {choice : ForkchoiceState} {attributes : Option PayloadAttributes}
      {version : Nat} {database : Database} {transactions : List Transaction} {parent : Header}
      {built : PayloadAttributes} {baseFee : Option Nat} {executed : ExecutedBlock}
      {id : PayloadId}
      (hstate : database.state =
        (step node engine (.forkchoiceUpdated outside choice attributes version)).state)
      (hmem : (id, ⟨executed.block, executed.receipts, executed.metas⟩) ∈
        (step node engine (.forkchoiceUpdated outside choice attributes version)).chain.payloads)
      (h : node.execution.executeBlockForPayload database transactions parent built baseFee =
        .ok executed) :
      Ran engine (.forkchoiceUpdated outside choice attributes version) executed

/-- What the execution provider returned in the calls of a run. -/
def RanIn : Engine → List Call → ExecutedBlock → Prop
  | _, [], _ => False
  | engine, call :: rest, executed =>
      Ran node engine call executed ∨ RanIn (step node engine call) rest executed

end Executions

/-! ## What is to be found -/

/-- A receipt comes from an execution of the block with this hash. -/
def ReceiptOf (ran : ExecutedBlock → Prop) (hash : B256) (index : Nat) (receipt : Receipt) : Prop :=
  ∃ executed, ran executed ∧ executed.block.hash = hash ∧ executed.receipts[index]? = some receipt

def MetaOf (ran : ExecutedBlock → Prop) (hash : B256) (index : Nat) (row : ReceiptMeta) : Prop :=
  ∃ executed, ran executed ∧ executed.block.hash = hash ∧ executed.metas[index]? = some row

/-- The transactions of a block are found where they are, with what an
execution of the block produced for them. -/
structure Found (ran : ExecutedBlock → Prop) (engine : Engine) (number : Nat) (hash : B256)
    (body : BlockBody) : Prop where
  reference : ∀ (i : Nat) (tx : Transaction), body.transactions[i]? = some tx →
    engine.chain.transactionBlockReference (txHash tx) = some (number, hash, i)
  receipt : ∀ i < body.transactions.length, ∃ receipt,
    engine.chain.receipt hash i = some receipt ∧ ReceiptOf ran hash i receipt
  receiptMeta : ∀ i < body.transactions.length, ∃ row,
    engine.state.receiptMeta hash i = some row ∧ MetaOf ran hash i row

/-- Every canonical block is stored, and its transactions are found. -/
def FindsCanonical (ran : ExecutedBlock → Prop) (engine : Engine) : Prop :=
  ∀ number hash, engine.chain.canonicalHeads.get number = some hash →
    ∃ header body, engine.chain.headers.get hash = some header ∧ header.number = number ∧
      engine.chain.blockBodies.get hash = some body ∧ Found ran engine number hash body

/-! ## Runs in which nothing is lost -/

/-- A block has no transaction of another block that is canonical, and none
twice if it is canonical itself. -/
structure Newcomer (tables : ChainTables) (block : Block) : Prop where
  once : ∀ number, tables.canonicalHeads.get number = some block.hash →
    (block.body.transactions.map txHash).Nodup
  apart : ∀ number hash body, tables.canonicalHeads.get number = some hash → hash ≠ block.hash →
    tables.blockBodies.get hash = some body →
    List.Disjoint (block.body.transactions.map txHash) (body.transactions.map txHash)

/-- The height down to which a switch undoes the canonical chain. -/
def revertHeightOf (engine : Engine) (context : ReorgContext) : Nat :=
  ((engine.chain.header Faults.none context.commonAncestorHash).map (·.number)).getD 0

/-- A switch undoes this height. -/
def UndoesHeight (engine : Engine) (context : ReorgContext) (number : Nat) : Prop :=
  context.isReorg = true ∧ engine.revertHeightOf context < number ∧
    number ≤ engine.canonical.headNumber

/-- A switch undoes the block with this hash, which has transactions. -/
def UndoesBlock (engine : Engine) (context : ReorgContext) (hash : B256) : Prop :=
  ∃ number, engine.UndoesHeight context number ∧
    engine.chain.canonicalHeads.get number = some hash ∧
    ∃ body, engine.chain.blockBodies.get hash = some body ∧ body.transactions ≠ []

/-- The transactions of some blocks. -/
def transactionsOf (blocks : List Block) : List B256 :=
  (blocks.flatMap (·.body.transactions)).map txHash

/-- The blocks of the new branch share no transaction with each other or with a
block that stays canonical, and none of them has been undone. -/
structure Rejoins (undone : B256 → Prop) (engine : Engine) (context : ReorgContext) : Prop where
  once : (transactionsOf context.newCanonicalBlocks).Nodup
  apart : ∀ number hash body, engine.chain.canonicalHeads.get number = some hash →
    engine.chain.blockBodies.get hash = some body → ¬ engine.UndoesHeight context number →
    number ∉ context.newCanonicalBlocks.map (·.header.number) →
    List.Disjoint (transactionsOf context.newCanonicalBlocks) (body.transactions.map txHash)
  fresh : ∀ block ∈ context.newCanonicalBlocks,
    ¬ undone block.hash ∧ ¬ engine.UndoesBlock context block.hash

section Steady

variable [Proofs] (node : Node)

/-- The blocks that have been undone after a call. -/
def undoneAfter (undone : B256 → Prop) (engine : Engine) : Call → B256 → Prop
  | .newPayload _ _ _ _ _, hash => undone hash
  | .forkchoiceUpdated _ choice _ _, hash =>
      undone hash ∨ ∃ updated context, engine.switching choice = some (updated, context) ∧
        updated.UndoesBlock context hash

/-- A block that is stored brings no transaction that another canonical block has,
and a fork choice does not bring back a block that was undone. -/
def SteadyCall (undone : B256 → Prop) (engine : Engine) : Call → Prop
  | .newPayload outside block expectedBlockHash expected beaconRoot =>
      ∀ attempt ∈ engine.attempts node ⟨outside, block, expectedBlockHash, expected, beaconRoot⟩,
        ∀ parent executed state,
          Executes node attempt.outside attempt.engine attempt.block parent executed state →
          (attempt.engine.parentTd executed.block.header).isSome →
          Newcomer attempt.engine.chain executed.block
  | .forkchoiceUpdated _ choice _ _ => ∀ updated context,
      engine.switching choice = some (updated, context) → updated.Rejoins undone context

def Steady : (B256 → Prop) → Engine → List Call → Prop
  | _, _, [] => True
  | undone, engine, call :: rest =>
      SteadyCall node undone engine call ∧
        Steady (undoneAfter undone engine call) (step node engine call) rest

end Steady

/-! ## What the tables hold -/

section Books

variable {ran : ExecutedBlock → Prop} {undone : B256 → Prop} {engine before after : Engine}

/-- A payload is what the execution provider returned for it, or is stored
already. -/
def PayloadOf (ran : ExecutedBlock → Prop) (engine : Engine) (payload : Payload) : Prop :=
  (∃ executed, ran executed ∧ EthExecutionProvider.Accounted executed ∧
    payload = ⟨executed.block, executed.receipts, executed.metas⟩) ∨
  (engine.chain.blockBodies.get payload.block.hash).isSome

/-- Stored blocks are filed with their number and their rows, those that were
undone without their metadata. -/
structure Books (ran : ExecutedBlock → Prop) (undone : B256 → Prop) (engine : Engine) : Prop where
  hash_eq : ∀ {hash header}, engine.chain.headers.get hash = some header → hashSlow header = hash
  logged : ∀ {hash header}, engine.chain.headers.get hash = some header →
    header ∈ engine.chain.headerLog
  number_eq : ∀ {hash header}, engine.chain.headers.get hash = some header →
    engine.chain.headerNumbers.get hash = some header.number
  body_iff : ∀ hash,
    (engine.chain.blockBodies.get hash).isSome ↔ (engine.chain.headers.get hash).isSome
  receipts : ∀ {hash body}, engine.chain.blockBodies.get hash = some body →
    ∀ i < body.transactions.length, ∃ receipt,
      engine.chain.receipts.get (hash, i) = some receipt ∧ ReceiptOf ran hash i receipt
  metas : ∀ {hash body}, engine.chain.blockBodies.get hash = some body → ¬ undone hash →
    ∀ i < body.transactions.length, ∃ row,
      engine.state.receiptsMeta.get (hash, i) = some row ∧ MetaOf ran hash i row
  payloads : ∀ entry ∈ engine.chain.payloads, PayloadOf ran engine entry.2

/-- A block is stored at this height, was not undone, and its transactions are
where the lookup says they are. -/
structure Placed (undone : B256 → Prop) (engine : Engine) (number : Nat) (hash : B256) : Prop where
  stays : ¬ undone hash
  header : ∃ header, engine.chain.headers.get hash = some header ∧ header.number = number
  body : ∃ body, engine.chain.blockBodies.get hash = some body ∧
    ∀ (i : Nat) (tx : Transaction), body.transactions[i]? = some tx →
      engine.chain.transactionLookup.get (txHash tx) = some (hash, i)

/-- The canonical blocks at some heights are placed. -/
def PlacedAt (undone : B256 → Prop) (heights : Nat → Prop) (engine : Engine) : Prop :=
  ∀ number hash, heights number → engine.chain.canonicalHeads.get number = some hash →
    Placed undone engine number hash

theorem Books.findsCanonical (h : Books ran undone engine)
    (hplaced : PlacedAt undone (fun _ => True) engine) : FindsCanonical ran engine := by
  intro number hash hhead
  obtain ⟨hstays, ⟨header, hheader, hnumber⟩, body, hbody, hlookup⟩ :=
    hplaced number hash trivial hhead
  refine ⟨header, body, hheader, hnumber, hbody, ?_, h.receipts hbody, h.metas hbody hstays⟩
  intro i tx htx
  have hfiled := h.number_eq hheader
  simp [ChainTables.transactionBlockReference, hlookup i tx htx, ChainTables.blockNumber, hfiled,
    ChainTables.blockHash, hnumber, hhead]

/-- More blocks count as undone. -/
theorem Books.undo {undone' : B256 → Prop} (h : Books ran undone engine)
    (hundone : ∀ hash, undone hash → undone' hash) : Books ran undone' engine :=
  ⟨h.hash_eq, h.logged, h.number_eq, h.body_iff, h.receipts,
    fun hbody hstays => h.metas hbody (mt (hundone _) hstays), h.payloads⟩

/-! ### Changes that do not matter -/

/-- The blocks and their receipts are the same. -/
structure SameRows (before after : Engine) : Prop where
  headers : after.chain.headers = before.chain.headers
  headerLog : after.chain.headerLog = before.chain.headerLog
  headerNumbers : after.chain.headerNumbers = before.chain.headerNumbers
  blockBodies : after.chain.blockBodies = before.chain.blockBodies
  receipts : after.chain.receipts = before.chain.receipts

/-- So are their places, as far as they are canonical. -/
structure SameBooks (before after : Engine) : Prop extends SameRows before after where
  transactionLookup : after.chain.transactionLookup = before.chain.transactionLookup
  canonicalHeads : ∀ number hash, after.chain.canonicalHeads.get number = some hash →
    before.chain.canonicalHeads.get number = some hash

/-- The payloads may be fewer, and nothing else is different. -/
structure Leaves (before after : Engine) : Prop extends SameBooks before after where
  state : after.state = before.state
  payloads : after.chain.payloads ⊆ before.chain.payloads

omit [BlockHashing] in
theorem SameBooks.refl (engine : Engine) : SameBooks engine engine :=
  ⟨⟨rfl, rfl, rfl, rfl, rfl⟩, rfl, fun _ _ h => h⟩

omit [BlockHashing] in
theorem Untouched.leaves (h : Untouched before after)
    (hpayloads : after.chain.payloads ⊆ before.chain.payloads) : Leaves before after := by
  refine ⟨⟨⟨?_, ?_, ?_, ?_, ?_⟩, ?_, ?_⟩, h.state, hpayloads⟩
  all_goals rw [h.chain]
  exact fun _ _ hhead => hhead

theorem PlacedAt.same {heights : Nat → Prop} (h : PlacedAt undone heights before)
    (hsame : SameBooks before after) : PlacedAt undone heights after := by
  intro number hash hheight hhead
  obtain ⟨hstays, hheader, hbody⟩ :=
    h number hash hheight (hsame.canonicalHeads number hash hhead)
  refine ⟨hstays, ?_, ?_⟩
  · rw [hsame.headers]
    exact hheader
  · rw [hsame.blockBodies, hsame.transactionLookup]
    exact hbody

/-- The heights may change as they like, and the metadata of blocks that were not
undone may be that of another execution. -/
theorem Books.same (h : Books ran undone before) (hsame : SameRows before after)
    (hmetas : ∀ hash body i row, before.chain.blockBodies.get hash = some body → ¬ undone hash →
      i < body.transactions.length → before.state.receiptsMeta.get (hash, i) = some row →
      MetaOf ran hash i row → ∃ row', after.state.receiptsMeta.get (hash, i) = some row' ∧
        MetaOf ran hash i row')
    (hpayloads : ∀ entry ∈ after.chain.payloads, entry ∈ before.chain.payloads ∨
      PayloadOf ran before entry.2) : Books ran undone after where
  hash_eq := by rw [hsame.headers]; exact h.hash_eq
  logged := by rw [hsame.headers, hsame.headerLog]; exact h.logged
  number_eq := by rw [hsame.headers, hsame.headerNumbers]; exact h.number_eq
  body_iff := by rw [hsame.headers, hsame.blockBodies]; exact h.body_iff
  receipts := by rw [hsame.blockBodies, hsame.receipts]; exact h.receipts
  metas := by
    rw [hsame.blockBodies]
    intro hash body hbody hstays i hi
    obtain ⟨row, hget, hrow⟩ := h.metas hbody hstays i hi
    exact hmetas hash body i row hbody hstays hi hget hrow
  payloads := by
    intro entry hentry
    unfold PayloadOf
    rw [hsame.blockBodies]
    exact (hpayloads entry hentry).elim (h.payloads entry) id

theorem Books.leaves (h : Books ran undone before) (hleaves : Leaves before after) :
    Books ran undone after := by
  refine h.same hleaves.toSameRows ?_ fun entry hentry => .inl (hleaves.payloads hentry)
  rw [hleaves.state]
  exact fun _ _ _ row _ _ _ hget hrow => ⟨row, hget, hrow⟩

/-- An execution is committed. -/
theorem Books.commit (h : Books ran undone engine) {executed : ExecutedBlock}
    {state : StateTables} (hran : ran executed)
    (hstate : state.receiptsMeta = engine.state.receiptsMeta.insertAll
      (Table.numbered executed.block.hash executed.metas)) :
    Books ran undone { engine with state } := by
  refine h.same ⟨rfl, rfl, rfl, rfl, rfl⟩ ?_ fun entry hentry => .inl hentry
  intro hash body i row _ _ _ hget hrow
  dsimp only
  rw [hstate, Table.get_insertAll_numbered]
  dsimp only
  split
  next heq =>
    cases hnew : executed.metas[i]? with
    | none => exact ⟨row, hget, hrow⟩
    | some row' => exact ⟨row', rfl, executed, hran, heq.symm, hnew⟩
  next => exact ⟨row, hget, hrow⟩

end Books

/-! ### Storing a block -/

section Stores

/-- The places of the transactions of a block. -/
def placesOf (hash : B256) (transactions : List Transaction) : List (B256 × B256 × Nat) :=
  transactions.zipIdx.map fun entry => (txHash entry.1, hash, entry.2)

theorem mem_placesOf {hash key : B256} {transactions : List Transaction} {place : B256 × Nat} :
    (key, place) ∈ placesOf hash transactions ↔
      place.1 = hash ∧ ∃ tx, transactions[place.2]? = some tx ∧ txHash tx = key := by
  obtain ⟨blockHash, index⟩ := place
  simp only [placesOf, List.mem_map, Prod.mk.injEq, Prod.exists, List.mem_zipIdx_iff_getElem?]
  constructor
  · rintro ⟨tx, i, hget, rfl, rfl, rfl⟩
    exact ⟨rfl, tx, hget, rfl⟩
  · rintro ⟨rfl, tx, hget, rfl⟩
    exact ⟨tx, index, hget, rfl, rfl, rfl⟩

theorem keys_placesOf (hash : B256) (transactions : List Transaction) :
    (placesOf hash transactions).map Prod.fst = transactions.map txHash := by
  rw [placesOf, List.map_map]
  calc transactions.zipIdx.map (Prod.fst ∘ fun entry => (txHash entry.1, hash, entry.2))
      = (transactions.zipIdx.map Prod.fst).map txHash := by rw [List.map_map]; rfl
    _ = transactions.map txHash := by rw [List.zipIdx_map_fst]

theorem get_placesOf {lookup : Table B256 (B256 × Nat)} {hash : B256}
    {transactions : List Transaction} (honce : (transactions.map txHash).Nodup) {i : Nat}
    {tx : Transaction} (htx : transactions[i]? = some tx) :
    (lookup.insertAll (placesOf hash transactions)).get (txHash tx) = some (hash, i) :=
  Table.get_insertAll_of_mem (by rwa [keys_placesOf]) (mem_placesOf.mpr ⟨rfl, tx, htx, rfl⟩)

theorem get_placesOf_of_disjoint {lookup : Table B256 (B256 × Nat)} {hash : B256}
    {transactions others : List Transaction}
    (hapart : List.Disjoint (transactions.map txHash) (others.map txHash)) {tx : Transaction}
    (htx : tx ∈ others) :
    (lookup.insertAll (placesOf hash transactions)).get (txHash tx) = lookup.get (txHash tx) := by
  refine Table.get_insertAll_of_notMem ?_
  rw [keys_placesOf]
  exact fun hmem => hapart hmem (List.mem_map_of_mem htx)

theorem insertTransactions_eq (tables : ChainTables) (hash : B256)
    (transactions : List Transaction) :
    tables.insertTransactions hash transactions = { tables with
      transactions := tables.transactions.insertAll (transactions.map fun tx => (txHash tx, tx))
      transactionLookup := tables.transactionLookup.insertAll (placesOf hash transactions) } := by
  have hentries : transactions.map (fun tx => (txHash tx, tx)) =
      transactions.zipIdx.map fun entry => (txHash entry.1, entry.1) := by
    calc transactions.map (fun tx => (txHash tx, tx))
        = (transactions.zipIdx.map Prod.fst).map fun tx => (txHash tx, tx) := by
          rw [List.zipIdx_map_fst]
      _ = transactions.zipIdx.map fun entry => (txHash entry.1, entry.1) := by
          rw [List.map_map]
          rfl
  rw [hentries]
  unfold ChainTables.insertTransactions Table.insertAll placesOf
  rw [List.foldl_map, List.foldl_map]
  induction transactions.zipIdx generalizing tables with
  | nil => rfl
  | cons entry rest ih => exact ih _

omit [BlockHashing] in
theorem insertReceipts_eq (tables : ChainTables) (hash : B256) (receipts : List Receipt) :
    tables.insertReceipts hash receipts = { tables with
      receipts := tables.receipts.insertAll (Table.numbered hash receipts) } := by
  unfold ChainTables.insertReceipts Table.insertAll Table.numbered
  rw [List.foldl_map]
  induction receipts.zipIdx generalizing tables with
  | nil => rfl
  | cons entry rest ih => exact ih _

/-- A block is stored with its places and its rows. -/
structure Enters (before after : Engine) (executed : ExecutedBlock) : Prop
    extends Stores before.chain after.chain executed.block.header executed.block.body where
  transactionLookup : after.chain.transactionLookup = before.chain.transactionLookup.insertAll
    (placesOf executed.block.hash executed.block.body.transactions)
  receipts : after.chain.receipts = before.chain.receipts.insertAll
    (Table.numbered executed.block.hash executed.receipts)
  metas : after.state.receiptsMeta = before.state.receiptsMeta.insertAll
    (Table.numbered executed.block.hash executed.metas)

variable {ran : ExecutedBlock → Prop} {undone : B256 → Prop} {before after : Engine}
  {executed : ExecutedBlock}

theorem enters_persistBlock (engine : Engine) (td : U256)
    (haccounted : EthExecutionProvider.Accounted executed) :
    Enters engine (engine.persistBlock executed td) executed := by
  refine ⟨stores_persistBlock engine executed td, ?_, ?_, ?_⟩
  · unfold persistBlock
    dsimp only [ChainTables.insertBlockBody]
    rw [insertTransactions_eq, insertReceipts_eq]
    rfl
  · unfold persistBlock
    dsimp only [ChainTables.insertBlockBody]
    rw [insertTransactions_eq, insertReceipts_eq, ← haccounted.receipts, List.take_length]
    rfl
  · unfold persistBlock
    dsimp only
    rw [receiptsMeta_insertReceiptMetas, ← haccounted.metas, List.take_length]

/-- The first payload with another hash stays the first. -/
theorem getPayload_removePayload {tables : ChainTables} {hash other : B256} (hne : other ≠ hash) :
    (tables.removePayloadByBlockHash hash).getPayloadByBlockHash Faults.none other =
      tables.getPayloadByBlockHash Faults.none other := by
  unfold ChainTables.getPayloadByBlockHash ChainTables.removePayloadByBlockHash
  rw [Faults.read_none, Faults.read_none, List.find?_filter]
  congr 2
  funext entry
  by_cases hother : entry.2.block.hash = other
  · simp [hother, hne]
  · simp [hother]

/-- A payload is promoted as its execution left it, and the others stay. -/
theorem enters_promotePayload {engine : Engine}
    (hbody : engine.chain.blockBodies.get executed.block.hash = none)
    (hpayload : engine.chain.getPayloadByBlockHash Faults.none executed.block.hash =
      some ⟨executed.block, executed.receipts, executed.metas⟩) :
    ∃ promoted, engine.promotePayload Faults.none executed.block.hash = (.ok (), promoted) ∧
      Enters engine promoted executed ∧ ∀ hash, hash ≠ executed.block.hash →
        promoted.chain.getPayloadByBlockHash Faults.none hash =
          engine.chain.getPayloadByBlockHash Faults.none hash := by
  obtain ⟨promoted, hpromoted, -, hstores⟩ := promotePayload_payload hbody hpayload rfl
  refine ⟨promoted, hpromoted, ⟨hstores, ?_, ?_, ?_⟩, ?_⟩
  all_goals
    simp only [promotePayload, ChainTables.blockBodyByHash, Faults.part_none, Faults.read_none,
      hbody, hpayload, Option.isSome_none, Bool.false_eq_true, if_false, write_none,
      andThen_ok] at hpromoted
    obtain ⟨-, rfl⟩ := Prod.mk.inj hpromoted
  · dsimp only [insertBlock, ChainTables.insertBlock, ChainTables.insertBlockBody]
    rw [insertTransactions_eq, insertReceipts_eq]
    rfl
  · dsimp only [insertBlock, ChainTables.insertBlock, ChainTables.insertBlockBody]
    rw [insertTransactions_eq, insertReceipts_eq]
    rfl
  · exact receiptsMeta_insertReceiptMetas _ _ _
  · intro hash hne
    rw [getPayload_removePayload hne]
    dsimp only [insertBlock, ChainTables.insertBlock, ChainTables.insertBlockBody]
    rw [insertTransactions_eq, insertReceipts_eq]
    rfl

/-- The new block has its rows, and the others keep theirs. -/
theorem Books.enters (h : Books ran undone before) (henters : Enters before after executed)
    (hran : ran executed) (haccounted : EthExecutionProvider.Accounted executed) :
    Books ran undone after := by
  have hget : ∀ {hash header}, after.chain.headers.get hash = some header →
      (hash = executed.block.hash ∧ header = executed.block.header) ∨
        (hash ≠ executed.block.hash ∧ before.chain.headers.get hash = some header) := by
    intro hash header hheader
    rw [henters.headers, Table.get_insert] at hheader
    split at hheader
    next heq => exact .inl ⟨heq, (Option.some.inj hheader).symm⟩
    next hne => exact .inr ⟨hne, hheader⟩
  have hbodies : ∀ {hash body}, after.chain.blockBodies.get hash = some body →
      (hash = executed.block.hash ∧ body = executed.block.body) ∨
        (hash ≠ executed.block.hash ∧ before.chain.blockBodies.get hash = some body) := by
    intro hash body hbody
    rw [henters.blockBodies, Table.get_insert] at hbody
    split at hbody
    next heq => exact .inl ⟨heq, (Option.some.inj hbody).symm⟩
    next hne => exact .inr ⟨hne, hbody⟩
  refine ⟨?_, ?_, ?_, ?_, ?_, ?_, ?_⟩
  · intro hash header hheader
    obtain ⟨rfl, rfl⟩ | ⟨-, hold⟩ := hget hheader
    · rfl
    · exact h.hash_eq hold
  · intro hash header hheader
    rw [henters.headerLog]
    obtain ⟨rfl, rfl⟩ | ⟨-, hold⟩ := hget hheader
    · exact List.mem_cons_self
    · exact List.mem_cons_of_mem _ (h.logged hold)
  · intro hash header hheader
    rw [henters.headerNumbers]
    obtain ⟨rfl, rfl⟩ | ⟨hne, hold⟩ := hget hheader
    · exact if_pos rfl
    · exact (if_neg hne).trans (h.number_eq hold)
  · intro hash
    rw [henters.headers, henters.blockBodies, Table.get_insert, Table.get_insert]
    split
    · exact Iff.rfl
    · exact h.body_iff hash
  · intro hash body hbody i hi
    rw [henters.receipts, Table.get_insertAll_numbered]
    obtain ⟨rfl, rfl⟩ | ⟨hne, hold⟩ := hbodies hbody
    · have hrow := List.getElem?_eq_getElem (haccounted.receipts ▸ hi)
      rw [if_pos rfl, hrow]
      exact ⟨_, rfl, executed, hran, rfl, hrow⟩
    · rw [if_neg hne]
      exact h.receipts hold i hi
  · intro hash body hbody hstays i hi
    rw [henters.metas, Table.get_insertAll_numbered]
    obtain ⟨rfl, rfl⟩ | ⟨hne, hold⟩ := hbodies hbody
    · have hrow := List.getElem?_eq_getElem (haccounted.metas ▸ hi)
      rw [if_pos rfl, hrow]
      exact ⟨_, rfl, executed, hran, rfl, hrow⟩
    · rw [if_neg hne]
      exact h.metas hold hstays i hi
  · intro entry hentry
    refine (h.payloads entry (henters.payloads hentry)).imp_right fun hstored => ?_
    rw [henters.blockBodies, Table.get_insert]
    split
    · rfl
    · exact hstored

/-- A block that is new to the canonical ones leaves them in place. -/
theorem PlacedAt.enters {heights : Nat → Prop} (h : PlacedAt undone heights before)
    (henters : Enters before after executed)
    (hnumber : ∀ header, before.chain.headers.get executed.block.hash = some header →
      header.number = executed.block.header.number)
    (honce : ∀ number, heights number →
      before.chain.canonicalHeads.get number = some executed.block.hash →
      (executed.block.body.transactions.map txHash).Nodup)
    (hapart : ∀ number hash body, heights number →
      before.chain.canonicalHeads.get number = some hash → hash ≠ executed.block.hash →
      before.chain.blockBodies.get hash = some body →
      List.Disjoint (executed.block.body.transactions.map txHash)
        (body.transactions.map txHash)) : PlacedAt undone heights after := by
  intro number hash hheight hhead
  rw [henters.canonicalHeads] at hhead
  obtain ⟨hstays, ⟨header, hheader, hnumbered⟩, body, hbody, hlookup⟩ :=
    h number hash hheight hhead
  by_cases heq : hash = executed.block.hash
  · subst heq
    refine ⟨hstays, ⟨executed.block.header, ?_, ?_⟩, executed.block.body, ?_, ?_⟩
    · rw [henters.headers]
      exact Table.get_insert_self _ _ _
    · rw [← hnumbered, hnumber header hheader]
    · rw [henters.blockBodies]
      exact Table.get_insert_self _ _ _
    · intro i tx htx
      rw [henters.transactionLookup]
      exact get_placesOf (honce number hheight hhead) htx
  · refine ⟨hstays, ⟨header, ?_, hnumbered⟩, body, ?_, ?_⟩
    · rw [henters.headers]
      exact (Table.get_insert_of_ne _ heq).trans hheader
    · rw [henters.blockBodies]
      exact (Table.get_insert_of_ne _ heq).trans hbody
    · intro i tx htx
      rw [henters.transactionLookup, get_placesOf_of_disjoint
        (hapart number hash body hheight hhead heq hbody) (List.mem_of_getElem? htx)]
      exact hlookup i tx htx

end Stores

end Engine

end WasixEth
