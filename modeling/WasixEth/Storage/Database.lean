import WasixEth.Lib.Faults
import WasixEth.Lib.Table
import WasixEth.Types

/-! # The database

The tables that hold the chain and those that hold its state. Block execution
reads both but writes only the latter, so they are kept apart. The read
provider's functions are given the faults of their accesses.
-/

namespace WasixEth.Storage

/-- An account as it stands in the state trie. -/
structure TrieAccount where
  nonce : UInt64
  balance : U256
  storageRoot : B256
  codeHash : B256
  deriving DecidableEq, Inhabited

abbrev PayloadId := Nat

/-- A block built but not yet imported. -/
structure Payload where
  block : Block
  receipts : List Receipt
  metas : List ReceiptMeta
  deriving DecidableEq, Inhabited

/-- The rows of `Forkchoice`. -/
structure ForkchoiceTable where
  head : Option B256
  safe : Option B256
  finalized : Option B256
  deriving DecidableEq, Inhabited

/-- `headerLog` is not a table: it records every header that is inserted, so
that hashes can be assumed not to collide on the headers of a run. -/
structure ChainTables where
  headers : Table B256 Header
  headerNumbers : Table B256 Nat
  headerTd : Table B256 U256
  blockBodies : Table B256 BlockBody
  canonicalHeads : Table Nat B256
  payloads : List (PayloadId × Payload)
  forkchoice : ForkchoiceTable
  transactions : Table B256 Transaction
  transactionLookup : Table B256 (B256 × Nat)
  receipts : Table (B256 × Nat) Receipt
  headerLog : List Header

/-- The rows of the change sets hold what stood before a block: an account as
its bytes decode, or nothing if there was none. -/
structure StateTables where
  accounts : Table Address TrieAccount
  storages : Table (Address × B256) U256
  trieNodes : Table B256 Bytes
  bytecodes : Table B256 Bytes
  accountChangeSets : Table Nat (List (Address × Option TrieAccount))
  storageChangeSets : Table Nat (List (Address × B256 × U256))
  receiptsMeta : Table (B256 × Nat) ReceiptMeta

structure Database where
  chain : ChainTables
  state : StateTables

namespace ChainTables

variable [BlockHashing] (tables : ChainTables) (faults : Faults)

/-! ## Reads -/

/-- `header(BlockId::Hash(hash))`: the zero hash names no header. -/
def header (hash : B256) : Option Header :=
  if hash = B256.zero then none else faults.read (tables.headers.get hash)

/-- `block_hash(number)`. -/
def blockHash (number : Nat) : Option B256 := faults.read (tables.canonicalHeads.get number)

/-- `block_number(hash)`. -/
def blockNumber (hash : B256) : Option Nat := faults.read (tables.headerNumbers.get hash)

def blockBodyByHash (hash : B256) : Option BlockBody := faults.read (tables.blockBodies.get hash)

/-- The body is looked up under the hash of the header that was found. -/
def blockByHash (hash : B256) : Option Block :=
  match tables.header (faults.part 0) hash with
  | none => none
  | some header =>
      match tables.blockBodyByHash (faults.part 1) (hashSlow header) with
      | none => none
      | some body => some ⟨header, body⟩

/-- `header(BlockId::Number(number))`. -/
def headerByNumber (number : Nat) : Option Header :=
  match tables.blockHash (faults.part 0) number with
  | none => none
  | some hash => tables.header (faults.part 1) hash

/-- The first payload whose block has this hash. -/
def getPayloadByBlockHash (hash : B256) : Option Payload :=
  faults.read ((tables.payloads.find? fun entry => entry.2.block.hash = hash).map Prod.snd)

def getPayload (id : PayloadId) : Option Payload := tables.payloads.lookup id

def isCanonical (hash : B256) : Bool :=
  match tables.blockNumber (faults.part 0) hash with
  | none => false
  | some number => tables.blockHash (faults.part 1) number = some hash

/-- The head, safe or finalized header as the fork choice looks it up: among
the headers, among the payloads, or as the genesis block. -/
def headerOrPayload (hash : B256) : Option Header :=
  (tables.header (faults.part 0) hash).or
    ((tables.getPayloadByBlockHash (faults.part 1) hash).map fun payload => payload.block.header)

def knownHeader (hash : B256) : Option Header :=
  (tables.headerOrPayload faults hash).or
    (if tables.blockHash (faults.part 2) 0 = some hash then
      tables.headerByNumber (faults.part 3) 0
    else none)

/-! ## Writes -/

/-- `insert_header`, which also records the number. -/
def insertHeader (hash : B256) (header : Header) : ChainTables :=
  { tables with
    headers := tables.headers.insert hash header
    headerNumbers := tables.headerNumbers.insert hash header.number
    headerLog := header :: tables.headerLog }

/-- `insert_header_number` and `insert_block_hash`. -/
def insertHeaderNumber (hash : B256) (number : Nat) : ChainTables :=
  { tables with headerNumbers := tables.headerNumbers.insert hash number }

def insertHeaderTd (hash : B256) (td : U256) : ChainTables :=
  { tables with headerTd := tables.headerTd.insert hash td }

def insertTransactionLookup (hash blockHash : B256) (index : Nat) : ChainTables :=
  { tables with
    transactionLookup := tables.transactionLookup.insert hash (blockHash, index) }

/-- Record the transactions of a body and where they are. -/
def insertTransactions (blockHash : B256) (transactions : List Transaction) : ChainTables :=
  transactions.zipIdx.foldl (fun tables entry =>
    { tables with
      transactions := tables.transactions.insert (txHash entry.1) entry.1
      transactionLookup := tables.transactionLookup.insert (txHash entry.1)
        (blockHash, entry.2) }) tables

def insertBlockBody (hash : B256) (body : BlockBody) : ChainTables :=
  insertTransactions { tables with blockBodies := tables.blockBodies.insert hash body } hash
    body.transactions

def insertReceipts (blockHash : B256) (receipts : List Receipt) : ChainTables :=
  receipts.zipIdx.foldl (fun tables entry =>
    { tables with receipts := tables.receipts.insert (blockHash, entry.2) entry.1 }) tables

def setCanonical (number : Nat) (hash : B256) : ChainTables :=
  { tables with canonicalHeads := tables.canonicalHeads.insert number hash }

def removeCanonical (number : Nat) : ChainTables :=
  { tables with canonicalHeads := tables.canonicalHeads.erase number }

/-- `update_forkchoice(head, Some(safe), Some(finalized))`. -/
def updateForkchoice (head safe finalized : B256) : ChainTables :=
  { tables with forkchoice := ⟨some head, some safe, some finalized⟩ }

/-- Keep the payloads in the order of their ids. -/
def insertPayload (id : PayloadId) (payload : Payload) :
    List (PayloadId × Payload) → List (PayloadId × Payload)
  | [] => [(id, payload)]
  | entry :: rest =>
      if id < entry.1 then (id, payload) :: entry :: rest
      else if id = entry.1 then (id, payload) :: rest
      else entry :: insertPayload id payload rest

def addPayload (id : PayloadId) (payload : Payload) : ChainTables :=
  { tables with payloads := insertPayload id payload tables.payloads }

def removePayloadByBlockHash (hash : B256) : ChainTables :=
  { tables with payloads := tables.payloads.filter fun entry => entry.2.block.hash ≠ hash }

/-- `insert_block`: an unknown parent counts as difficulty zero. -/
def insertBlock (block : Block) (receipts : List Receipt) : ChainTables :=
  let hash := block.hash
  let parentTd :=
    if block.header.number = 0 then 0 else (tables.headerTd.get block.header.parentHash).getD 0
  let stored := (tables.insertHeader hash block.header).insertBlockBody hash block.body
  (stored.insertHeaderTd hash (parentTd + block.header.difficulty)).insertReceipts hash receipts

end ChainTables

namespace StateTables

variable (tables : StateTables)

def updateAccount (address : Address) (account : TrieAccount) : StateTables :=
  { tables with accounts := tables.accounts.insert address account }

def removeAccount (address : Address) : StateTables :=
  { tables with accounts := tables.accounts.erase address }

/-- Slots of value zero are not stored. -/
def updateStorage (address : Address) (slot : B256) (value : U256) : StateTables :=
  { tables with
    storages := if value = 0 then tables.storages.erase (address, slot)
      else tables.storages.insert (address, slot) value }

def insertReceiptMetas (blockHash : B256) (metas : List ReceiptMeta) : StateTables :=
  metas.zipIdx.foldl (fun tables entry =>
    { tables with receiptsMeta := tables.receiptsMeta.insert (blockHash, entry.2) entry.1 })
    tables

def removeReceiptMeta (blockHash : B256) (index : Nat) : StateTables :=
  { tables with receiptsMeta := tables.receiptsMeta.erase (blockHash, index) }

/-- Drop the change sets of one height. -/
def removeChangeSet (number : Nat) : StateTables :=
  { tables with
    accountChangeSets := tables.accountChangeSets.erase number
    storageChangeSets := tables.storageChangeSets.erase number }

end StateTables

def emptyDatabase : Database :=
  ⟨⟨∅, ∅, ∅, ∅, ∅, [], ⟨none, none, none⟩, ∅, ∅, ∅, []⟩, ⟨∅, ∅, ∅, ∅, ∅, ∅, ∅⟩⟩

end WasixEth.Storage
