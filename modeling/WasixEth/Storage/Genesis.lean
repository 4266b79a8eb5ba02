import WasixEth.Consensus
import WasixEth.Storage.BatchWriter

/-! # Genesis

The first block of a chain comes from a configuration. Its allocation is
written through one batch, which yields the state root of the header; the
block and the metadata follow, each row in a transaction of its own. What a
crash leaves behind is therefore some prefix of these transactions.
-/

namespace WasixEth.Storage

open Routine BatchWriter

/-- A `BTreeMap`. Only that the keys are distinct is kept of their order. -/
structure BTreeMap (K V : Type) where
  entries : List (K × V)
  nodup : (entries.map Prod.fst).Nodup

def BTreeMap.empty {K V : Type} : BTreeMap K V := ⟨[], List.nodup_nil⟩

structure GenesisAccount where
  nonce : Option UInt64
  balance : U256
  code : Option Bytes
  storage : Option (BTreeMap B256 B256)

/-- The slots that are written for an account. -/
def GenesisAccount.slots (account : GenesisAccount) : BTreeMap B256 B256 :=
  account.storage.getD .empty

structure GenesisConfiguration where
  config : ChainConfig
  alloc : BTreeMap Address GenesisAccount
  coinbase : Option Address
  difficulty : Option U256
  extraData : Option Bytes
  gasLimit : Option U256
  nonce : Option U256
  mixHash : Option B256
  parentHash : Option B256
  timestamp : Option U256
  number : Option U256
  gasUsed : Option U256
  baseFeePerGas : Option U256
  excessBlobGas : Option U256
  blobGasUsed : Option U256

/-- `U256::from(word)`. -/
def wordToU256 (word : B256) : U256 := BitVec.ofNat 256 (Rlp.fromBytes word.bytes)

/-- `value.to::<u64>()`, which panics if the value does not fit. -/
def toU64 (value : U256) : Option Nat := if value.toNat < 2 ^ 64 then some value.toNat else none

variable [Keccak256]

/-! ## The state -/

namespace BatchWriter

def writeGenesisSlots (address : Address) : List (B256 × B256) → BatchM Unit
  | [] => return ()
  | (slot, value) :: rest => do
      updateStorage address slot (wordToU256 value)
      writeGenesisSlots address rest

/-- The code of an account goes to the table of codes, its hash to the account. -/
def writeGenesisCode : Option Bytes → BatchM B256
  | none => return keccak256Empty
  | some code => do
      let hash ← hashed code
      insertBytecode hash code
      return hash

def writeGenesisAccount (address : Address) (account : GenesisAccount) : BatchM Unit := do
  writeGenesisSlots address account.slots.entries
  let storageRoot ← calculateStorageRoot address none
  let codeHash ← writeGenesisCode account.code
  updateAccount address ⟨account.nonce.getD 0, account.balance, storageRoot, codeHash⟩

def writeAlloc : List (Address × GenesisAccount) → BatchM Unit
  | [] => return ()
  | (address, account) :: rest => do
      writeGenesisAccount address account
      writeAlloc rest

/-- `calculate_state_root`, given the state root of the latest header. -/
def calculateStateRootFrom (latest : Option B256) (eip161 : Bool) (stateRoot : Option B256) :
    BatchM B256 := do
  let batch ← read
  let root := stateRoot.or batch.baseStateRoot
  let trie ← writeAccounts eip161 root
    (EthTrie.new ∅ (root.getD (latest.getD emptyRootHash)))
    (batch.order.accounts batch.touchedAccounts)
  commitTrie trie
  return trie.rootHash

theorem calculateStateRoot_eq_from (eip161 : Bool) (stateRoot : Option B256) (batch : BatchWriter) :
    calculateStateRoot eip161 stateRoot batch =
      calculateStateRootFrom (latestStateRoot batch.database.chain) eip161 stateRoot batch := rfl

/-- The batch of `calculate_genesis_state`. -/
def writeGenesis (latest : Option B256) (eip161 : Bool)
    (alloc : List (Address × GenesisAccount)) : BatchM B256 := do
  writeAlloc alloc
  calculateStateRootFrom latest eip161 none

end BatchWriter

/-! ## The database -/

/-- The tables and the rows of `Metadata`. A table cannot be asked for its
highest key, so the highest number set canonical is kept beside them. -/
structure GenesisStore where
  database : Database
  latestBlockNumber : Option Nat
  metadata : Table String Bytes

variable [BlockHashing]

namespace GenesisStore

def fresh : GenesisStore := ⟨emptyDatabase, none, ∅⟩

/-- `header(Latest)`: the head, or the highest canonical block if there is none. -/
def latestHeader (store : GenesisStore) : Option Header :=
  (store.database.chain.forkchoice.head.or (store.latestBlockNumber.bind fun number =>
    store.database.chain.blockHash Faults.none number)).bind fun hash =>
      store.database.chain.header Faults.none hash

/-- A write to the tables of the chain. -/
def onChain (write : ChainTables → ChainTables) (store : GenesisStore) : GenesisStore :=
  { store with database := { store.database with chain := write store.database.chain } }

def setCanonical (number : Nat) (hash : B256) (store : GenesisStore) : GenesisStore :=
  { store.onChain (·.setCanonical number hash) with
    latestBlockNumber := some (max number (store.latestBlockNumber.getD 0)) }

def setMetadata (key : String) (value : Bytes) (store : GenesisStore) : GenesisStore :=
  { store with metadata := store.metadata.insert key value }

/-- The commit of a batch. -/
def commitBatch (tables : StateTables) (store : GenesisStore) : GenesisStore :=
  { store with database := { store.database with state := tables } }

end GenesisStore

/-- `update_forkchoice(head, None, None)`. -/
def ChainTables.setHead (tables : ChainTables) (head : B256) : ChainTables :=
  { tables with forkchoice := { tables.forkchoice with head := some head } }

namespace GenesisConfiguration

variable [Proofs] (genesis : GenesisConfiguration)

/-- The height and time of the block, unless one of them does not fit. -/
def position : Option (Nat × Nat) := do
  let timestamp ← toU64 (genesis.timestamp.getD 0)
  let number ← toU64 (genesis.number.getD 0)
  return (number, timestamp)

/-- A number of the header that is present from some fork on. -/
def from64 (active : Bool) (value : Option U256) (fallback : Nat) : Option (Option Nat) :=
  if active then (match value with
    | some value => (toU64 value).map some
    | none => some (some fallback))
  else some none

/-- The header, unless one of the numbers in it does not fit. -/
def header (stateRoot : B256) : Option Header := do
  let (number, timestamp) ← genesis.position
  let fork := Hardfork.getActiveFork genesis.config number timestamp
  let baseFeePerGas ← from64 (Hardfork.london ≤ fork) genesis.baseFeePerGas 1000000000
  let gasLimit ← toU64 (genesis.gasLimit.getD 0)
  let nonce ← toU64 (genesis.nonce.getD 0)
  let gasUsed ← toU64 (genesis.gasUsed.getD 0)
  let blobGasUsed ← from64 (Hardfork.cancun ≤ fork) genesis.blobGasUsed 0
  let excessBlobGas ← from64 (Hardfork.cancun ≤ fork) genesis.excessBlobGas 0
  return {
    parentHash := genesis.parentHash.getD B256.zero
    ommersHash := ommersHash []
    beneficiary := genesis.coinbase.getD default
    stateRoot
    transactionsRoot := emptyRootHash
    receiptsRoot := emptyRootHash
    logsBloom := 0
    difficulty := genesis.difficulty.getD 0
    number
    gasLimit
    gasUsed
    timestamp
    extraData := genesis.extraData.getD []
    mixHash := genesis.mixHash.getD B256.zero
    nonce
    baseFeePerGas
    withdrawalsRoot := if Hardfork.shanghai ≤ fork then some (calculateWithdrawalsRoot []) else none
    blobGasUsed
    excessBlobGas
    parentBeaconBlockRoot := if Hardfork.cancun ≤ fork then some B256.zero else none
    requestsHash := none }

def body (header : Header) : BlockBody where
  transactions := []
  ommers := []
  withdrawals :=
    if Hardfork.shanghai ≤ Hardfork.getActiveFork genesis.config header.number header.timestamp
    then some [] else none

/-- The writes of the block and the metadata, in their order. -/
def blockWrites (header : Header) : List (GenesisStore → GenesisStore) :=
  let hash := hashSlow header
  let body := genesis.body header
  [ .onChain (·.insertHeader hash header),
    .setCanonical header.number hash,
    .onChain (·.insertHeaderNumber hash header.number),
    .onChain (·.insertHeaderNumber hash header.number),
    .onChain (·.insertBlockBody hash body),
    .onChain (·.setHead hash),
    .onChain (·.insertHeaderTd hash header.difficulty),
    .onChain (·.addPayload 0 ⟨⟨header, body⟩, [], []⟩),
    .setMetadata "chain_id" (Rlp.beBytes 8 genesis.config.chainId),
    .setMetadata "genesis_hash" hash.bytes,
    .setMetadata "canonical_0" hash.bytes ]

/-- The configuration is written if it is not there, in any run. -/
def configWrites (toVec : ChainConfig → Bytes) (store : GenesisStore) :
    List (GenesisStore → GenesisStore) :=
  if (store.metadata.get "chain_config").isNone then
    [.setMetadata "chain_config" (toVec genesis.config)]
  else []

/-- The batch that writes the allocation. -/
def stateBatch (order : Enumeration) (store : GenesisStore) (number timestamp : Nat) :
    Outcome BatchWriter Bytes String B256 :=
  writeGenesis (store.latestHeader.map (·.stateRoot))
    (Hardfork.spuriousDragon ≤ Hardfork.getActiveFork genesis.config number timestamp)
    genesis.alloc.entries (beginBatch order store.database)

/-- A call of `init_genesis`: the transactions that it commits, one after the
other, and whether it returns `Ok`. -/
structure Run where
  transactions : List (GenesisStore → GenesisStore)
  completed : Bool

/-- `init_genesis`. -/
def init (order : Enumeration) (toVec : ChainConfig → Bytes) (store : GenesisStore) : Run :=
  if (store.metadata.get "genesis_hash").isSome then ⟨genesis.configWrites toVec store, true⟩
  else
    match genesis.position with
    | none => ⟨[], false⟩
    | some (number, timestamp) =>
        let written := genesis.stateBatch order store number timestamp
        match written.result with
        | .error _ => ⟨[], false⟩
        | .ok stateRoot =>
            let commit := GenesisStore.commitBatch written.state.tables
            -- a number that does not fit is met only after the state is committed
            match genesis.header stateRoot with
            | none => ⟨[commit], false⟩
            | some header =>
                ⟨commit :: (genesis.blockWrites header ++ genesis.configWrites toVec store), true⟩

/-- What is in the database after so many transactions of a run. -/
def Run.after (run : Run) (count : Nat) (store : GenesisStore) : GenesisStore :=
  (run.transactions.take count).foldl (fun store write => write store) store

/-- What is in the database after a run. -/
def Run.finish (run : Run) (store : GenesisStore) : GenesisStore :=
  run.transactions.foldl (fun store write => write store) store

end GenesisConfiguration

end WasixEth.Storage
