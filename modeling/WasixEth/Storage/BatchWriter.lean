import WasixEth.Storage.AccountCodec
import WasixEth.Storage.EthTrie

/-! # The batch writer

The writes of one block go into a transaction of the database. Beside it the
writer keeps which accounts and slots it touched, which storages were reset,
and what stood before the first write. Reads find what was touched in the
tables and everything else in the trie of the base state.
-/

namespace WasixEth.Storage

open Routine

/-- The order in which the hash collections of a writer are enumerated: some
order of what was put in. -/
structure Enumeration where
  accounts : List Address → List Address
  slots : List (Address × B256) → List (Address × B256)
  accounts_perm : ∀ touched, (accounts touched).Perm touched
  slots_perm : ∀ touched, (slots touched).Perm touched

/-- The order of insertion. -/
def Enumeration.inOrder : Enumeration := ⟨id, id, fun _ => .refl _, fun _ => .refl _⟩

/-- `database` is what was committed before the batch began; `tables` are the
tables as the open transaction sees them. -/
structure BatchWriter where
  order : Enumeration
  database : Database
  tables : StateTables
  baseStateRoot : Option B256
  touchedAccounts : List Address
  touchedStorages : List ((Address × B256) × U256)
  resettedStorages : List Address
  originalAccounts : List (Address × Option TrieAccount)
  originalStorages : List ((Address × B256) × U256)

/-- Put an element into a set that is kept in the order of insertion. -/
def insertElement {α : Type} [DecidableEq α] (elements : List α) (element : α) : List α :=
  if element ∈ elements then elements else elements ++ [element]

/-- Put a value into a map that is kept in the order of first insertion. -/
def insertEntry {α β : Type} [DecidableEq α] (key : α) (value : β) : List (α × β) → List (α × β)
  | [] => [(key, value)]
  | entry :: rest =>
      if entry.1 = key then (key, value) :: rest else entry :: insertEntry key value rest

/-- An operation of the writer, logging the strings it hashes. -/
abbrev BatchM := Routine BatchWriter Bytes String

variable [Keccak256]

/-- `KECCAK256_EMPTY`. -/
def keccak256Empty : B256 := keccak256 []

/-- The account with nothing in it. -/
def TrieAccount.blank : TrieAccount := ⟨0, 0, emptyRootHash, keccak256Empty⟩

namespace BatchWriter

/-- `begin_batch`. -/
def beginBatch (order : Enumeration) (database : Database) : BatchWriter :=
  ⟨order, database, database.state, none, [], [], [], [], []⟩

def hashed (data : Bytes) : BatchM B256 := do
  emit data
  return keccak256 data

def setBaseStateRoot (root : B256) : BatchM Unit :=
  modify fun batch => { batch with baseStateRoot := some root }

/-- Run a trie operation on the nodes the transaction sees by now. -/
def withTrie {α : Type} (trie : EthTrie) (operation : TrieM α) : BatchM
    (α × EthTrie) := fun batch =>
  let outcome := operation { trie with state := batch.tables.trieNodes }
  ⟨match outcome.result with
    | .ok a => .ok (a, outcome.state)
    | .error e => .error (toString e), batch, outcome.log⟩

/-- Write the nodes of a trie to the transaction. -/
def commitTrie (trie : EthTrie) : BatchM Unit := modify fun batch =>
  { batch with tables := { batch.tables with
    trieNodes := (EthTrie.commit { trie with state := batch.tables.trieNodes }).state } }

def liftRlp {α : Type} : Except Rlp.Error α → BatchM α
  | .ok a => return a
  | .error e => fail (toString e)

/-! ## Reads -/

def account (address : Address) (stateRoot : Option B256) : BatchM (Option TrieAccount) := do
  let batch ← read
  if address ∈ batch.touchedAccounts then return batch.tables.accounts.get address
  else match stateRoot.or batch.baseStateRoot with
    | none => return batch.database.state.accounts.get address
    | some root =>
        if root = emptyRootHash then return none
        else do
          let key ← hashed address.bytes
          let (found, _) ← withTrie (EthTrie.new ∅ root) (EthTrie.get key)
          match found with
          | none => return none
          | some bytes => do
              let account ← liftRlp (TrieAccount.decode bytes)
              return some account

def storage (address : Address) (slot : B256) (stateRoot : Option B256) : BatchM U256 := do
  let batch ← read
  match batch.touchedStorages.lookup (address, slot) with
  | some value => return value
  | none =>
      if address ∈ batch.resettedStorages then return 0
      else match stateRoot.or batch.baseStateRoot with
        | none => return (batch.database.state.storages.get (address, slot)).getD 0
        | some root =>
            if root = emptyRootHash then return 0
            else do
              let found ← account address (some root)
              match found with
              | none => return 0
              | some found =>
                  if found.storageRoot = emptyRootHash then return 0
                  else do
                    let key ← hashed slot.bytes
                    let (value, _) ← withTrie (EthTrie.new ∅ found.storageRoot) (EthTrie.get key)
                    match value with
                    | none => return 0
                    | some bytes => liftRlp (decodeU256 bytes)

def bytecode (codeHash : B256) : BatchM (Option Bytes) := do
  let batch ← read
  return batch.tables.bytecodes.get codeHash

/-! ## Writes -/

/-- Remember what stood before the first write to an account. -/
def recordAccount (address : Address) : BatchM Unit := do
  let batch ← read
  if (batch.originalAccounts.lookup address).isSome then return ()
  else do
    let old ← account address none
    modify fun batch => { batch with
      originalAccounts := insertEntry address old batch.originalAccounts }

def updateAccount (address : Address) (account : TrieAccount) : BatchM Unit := do
  recordAccount address
  modify fun batch => { batch with
    tables := batch.tables.updateAccount address account
    touchedAccounts := insertElement batch.touchedAccounts address }

def removeAccount (address : Address) : BatchM Unit := do
  recordAccount address
  modify fun batch => { batch with
    tables := batch.tables.removeAccount address
    touchedAccounts := insertElement batch.touchedAccounts address }

def recordStorage (address : Address) (slot : B256) : BatchM Unit := do
  let batch ← read
  if (batch.originalStorages.lookup (address, slot)).isSome then return ()
  else do
    let old ← storage address slot none
    modify fun batch => { batch with
      originalStorages := insertEntry (address, slot) old batch.originalStorages }

/-- A slot that is written touches its account too. -/
def updateStorage (address : Address) (slot : B256) (value : U256) : BatchM Unit := do
  recordStorage address slot
  modify fun batch => { batch with
    tables := batch.tables.updateStorage address slot value
    touchedStorages := insertEntry (address, slot) value batch.touchedStorages }
  let batch ← read
  if address ∈ batch.touchedAccounts then return ()
  else do
    let found ← account address none
    updateAccount address (found.getD .blank)

def resetStorage (address : Address) : BatchM Unit := modify fun batch =>
  { batch with resettedStorages := insertElement batch.resettedStorages address }

def insertBytecode (codeHash : B256) (code : Bytes) : BatchM Unit := modify fun batch =>
  { batch with tables := { batch.tables with
    bytecodes := batch.tables.bytecodes.insert codeHash code } }

def markAccountTouched (address : Address) : BatchM Unit := modify fun batch =>
  { batch with touchedAccounts := insertElement batch.touchedAccounts address }

/-! ## Roots -/

/-- Write the touched slots of an account into its trie. -/
def writeSlots (address : Address) (stateRoot : Option B256) : EthTrie → List B256 → BatchM EthTrie
  | trie, [] => return trie
  | trie, slot :: rest => do
      let key ← hashed slot.bytes
      let value ← storage address slot stateRoot
      let (_, trie) ← withTrie trie
        (if value = 0 then EthTrie.delete key else EthTrie.insert key (encodeU256 value))
      writeSlots address stateRoot trie rest

def calculateStorageRoot (address : Address) (stateRoot : Option B256) : BatchM B256 := do
  let batch ← read
  let root := stateRoot.or batch.baseStateRoot
  let initial ← if address ∈ batch.resettedStorages then pure emptyRootHash
    else do
      let found ← account address root
      pure ((found.map TrieAccount.storageRoot).getD emptyRootHash)
  let slots := (batch.order.slots (batch.touchedStorages.map Prod.fst)).filter fun entry =>
    entry.1 = address
  let trie ← writeSlots address root (EthTrie.new ∅ initial) (slots.map Prod.snd)
  commitTrie trie
  return trie.rootHash

/-- An account that EIP-161 counts as empty. -/
def isEmpty (account : TrieAccount) : Bool :=
  account.nonce = 0 && account.balance = 0 &&
    (account.codeHash = B256.zero || account.codeHash = keccak256Empty)

/-- Write the touched accounts into the state trie. -/
def writeAccounts (eip161 : Bool) (stateRoot : Option B256) :
    EthTrie → List Address → BatchM EthTrie
  | trie, [] => return trie
  | trie, address :: rest => do
      let key ← hashed address.bytes
      let found ← account address stateRoot
      match found with
      | none => do
          let (_, trie) ← withTrie trie (EthTrie.delete key)
          writeAccounts eip161 stateRoot trie rest
      | some account => do
          let storageRoot ← calculateStorageRoot address stateRoot
          if eip161 && isEmpty account && storageRoot = emptyRootHash then do
            let (_, trie) ← withTrie trie (EthTrie.delete key)
            modify fun batch => { batch with tables := batch.tables.removeAccount address }
            writeAccounts eip161 stateRoot trie rest
          else do
            let written : TrieAccount := { account with
              storageRoot
              codeHash := if account.codeHash = B256.zero then keccak256Empty
                else account.codeHash }
            modify fun batch => { batch with tables := batch.tables.updateAccount address written }
            let (_, trie) ← withTrie trie (EthTrie.insert key written.encode)
            writeAccounts eip161 stateRoot trie rest

/-- The state root of the latest header. Genesis records the head, so the
search for the highest canonical block is never needed. -/
def latestStateRoot (tables : ChainTables) : Option B256 :=
  tables.forkchoice.head.bind fun head => (tables.header Faults.none head).map (·.stateRoot)

def calculateStateRoot (eip161 : Bool) (stateRoot : Option B256) : BatchM B256 := do
  let batch ← read
  let root := stateRoot.or batch.baseStateRoot
  let initial := root.getD ((latestStateRoot batch.database.chain).getD emptyRootHash)
  let trie ← writeAccounts eip161 root (EthTrie.new ∅ initial)
    (batch.order.accounts batch.touchedAccounts)
  commitTrie trie
  return trie.rootHash

/-! ## The end of a batch -/

/-- `collect_account_changes` and `collect_storage_changes`. -/
def insertChangeSets (number : Nat) : BatchM Unit := modify fun batch =>
  { batch with tables := { batch.tables with
    accountChangeSets := batch.tables.accountChangeSets.insert number batch.originalAccounts
    storageChangeSets := batch.tables.storageChangeSets.insert number
      (batch.originalStorages.map fun entry => (entry.1.1, entry.1.2, entry.2)) } }

end BatchWriter

end WasixEth.Storage
