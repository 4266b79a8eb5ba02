import WasixEth.ChainConfig
import WasixEth.Storage.Database

/-! # The virtual machine

The machine itself comes from outside. It is given a transaction, an overlay
over the state as the batch shows it and the environment of the block, and
answers with what the transaction returned and a set of changes. Nothing is
assumed of it but that it is a function.
-/

namespace WasixEth

open Storage

/-- The rules the machine runs by. -/
inductive EvmConfig where
  | frontier | homestead | tangerineWhistle | spuriousDragon | byzantium | petersburg | istanbul
  | berlin | london | shanghai | cancun | prague
  deriving DecidableEq

/-- `get_evm_config`: the merge runs by the rules of Shanghai. -/
def getEvmConfig : Hardfork → EvmConfig
  | .prague => .prague
  | .cancun => .cancun
  | .shanghai => .shanghai
  | .paris => .shanghai
  | .grayGlacier => .london
  | .arrowGlacier => .london
  | .london => .london
  | .berlin => .berlin
  | .muirGlacier => .istanbul
  | .istanbul => .istanbul
  | .petersburg => .petersburg
  | .constantinople => .petersburg
  | .byzantium => .byzantium
  | .spuriousDragon => .spuriousDragon
  | .tangerineWhistle => .tangerineWhistle
  | .homestead => .homestead
  | .frontier => .frontier

/-- The block as the machine sees it. -/
structure Environment where
  blockNumber : Nat
  blockTimestamp : Nat
  blockGasLimit : Nat
  blockCoinbase : Address
  blockDifficulty : U256
  blockBaseFeePerGas : Nat
  blockRandomness : Option B256
  chainId : Nat
  blobBaseFeePerGas : Nat
  blobVersionedHashes : List B256

inductive TransactGasPrice where
  | legacy (gasPrice : Nat)
  | feeMarket (maxPriority maximum : Nat)
  deriving DecidableEq

inductive TransactArgsCallCreate where
  | call (address : Address) (data : Bytes)
  | create (initCode : Bytes)
  deriving DecidableEq

structure TransactArgs where
  caller : Address
  value : U256
  gasLimit : Nat
  gasPrice : TransactGasPrice
  accessList : List (Address × List B256)
  callCreate : TransactArgsCallCreate
  config : EvmConfig

inductive ExitSucceed where
  | stopped
  | returned
  | suicided
  deriving DecidableEq

inductive TransactValueCallCreate where
  | call (succeed : ExitSucceed) (retval : Bytes)
  | create (succeed : ExitSucceed) (address : Address)
  deriving DecidableEq

structure TransactValue where
  callCreate : TransactValueCallCreate
  usedGas : Nat
  deriving DecidableEq

inductive ExitException where
  | outOfFund
  | other (name : String)
  deriving DecidableEq

inductive ExitError where
  | exception (e : ExitException)
  | reverted
  | fatal (message : String)
  deriving DecidableEq

/-- What a transaction changed. The entries are in the order of their keys. -/
structure OverlayedChangeSet where
  logs : List Log
  balances : List (Address × U256)
  nonces : List (Address × UInt64)
  codes : List (Address × Bytes)
  storageResets : List Address
  storages : List ((Address × B256) × U256)
  touched : List Address
  deletes : List Address

/-- The state a transaction starts from; a read that fails is read as empty. -/
structure SputnikBackend where
  account : Address → Option TrieAccount
  storage : Address → B256 → U256
  bytecode : B256 → Option Bytes
  environment : Environment
  hotAccounts : List Address
  hotStorage : List (Address × B256)
  origin : Address

def SputnikBackend.balance (backend : SputnikBackend) (address : Address) : U256 :=
  ((backend.account address).map TrieAccount.balance).getD 0

/-- The balances written before the machine runs, over the backend. -/
structure OverlayedBackend where
  backend : SputnikBackend
  balances : List (Address × U256)

def OverlayedBackend.balance (overlay : OverlayedBackend) (address : Address) : U256 :=
  (overlay.balances.lookup address).getD (overlay.backend.balance address)

/-- The functions that are not part of this program: the machine, the prices
it works with, the exponential behind the blob fee, and the recovery of the
sender from a signature. -/
class Evm where
  transact : TransactArgs → OverlayedBackend →
    Except ExitError TransactValue × OverlayedChangeSet
  effectiveGasPrice : TransactArgs → Environment → Nat
  coinbaseReward : TransactArgs → Environment → Nat
  fakeExponential : Nat → Nat → Nat → Nat
  recoverSigner : Transaction → Except String Address
  beaconRootsCode : Bytes

/-- A machine for blocks without transactions, which is never asked. -/
@[reducible] def idleEvm : Evm where
  transact _ _ := (.error .reverted, ⟨[], [], [], [], [], [], [], []⟩)
  effectiveGasPrice _ _ := 0
  coinbaseReward _ _ := 0
  fakeExponential factor _ _ := factor
  recoverSigner _ := .error "no signature"
  beaconRootsCode := []

/-- `calc_blob_gasprice`. -/
def calcBlobGasprice [Evm] (excessBlobGas updateFraction : Nat) : Nat :=
  Evm.fakeExponential 1 excessBlobGas updateFraction

def blobGaspriceUpdateFraction : Nat := 3338477

def maxInitCodeSize : Nat := 49152

/-- The part of `prepare_execution_env` that concerns the machine. -/
def prepareEnvironment [Evm] (config : ChainConfig) (header : Header) (fork : Hardfork) :
    Environment where
  blockNumber := header.number
  blockTimestamp := header.timestamp
  blockGasLimit := header.gasLimit
  blockCoinbase := header.beneficiary
  blockDifficulty := if .paris ≤ fork then 0 else header.difficulty
  blockBaseFeePerGas := header.baseFeePerGas.getD 0
  blockRandomness := if .paris ≤ fork then some header.mixHash else none
  chainId := config.chainId
  blobBaseFeePerGas :=
    match header.excessBlobGas with
    | none => 0
    | some excess =>
        calcBlobGasprice excess
          (((fork.blobParams config).map BlobParams.updateFraction).getD blobGaspriceUpdateFraction)
  blobVersionedHashes := []

/-- The gas of a call data byte. -/
def dataGas (fork : Hardfork) (byte : UInt8) : Nat :=
  if byte = 0 then 4 else if .istanbul ≤ fork then 16 else 68

def calculateIntrinsicGas (tx : Transaction) (fork : Hardfork) : Nat :=
  let creation : Nat := if tx.toAddress.isNone then
    32000 + (if .shanghai ≤ fork then (tx.input.length + 31) / 32 * 2 else 0) else 0
  let data := (tx.input.map (dataGas fork)).sum
  let tokens := (tx.input.map fun byte => if byte = 0 then 1 else 4).sum
  let access := (tx.accessList.map fun item => 2400 + item.2.length * 1900).sum
  let gas := 21000 + creation + data + access + tx.authorizationList.length * 2500
  if .prague ≤ fork then
    max gas ((if tx.toAddress.isNone then 53000 else 21000) + tokens * 10)
  else gas

theorem intrinsicGas_pos (tx : Transaction)
    (fork : Hardfork) : 0 < calculateIntrinsicGas tx fork := by
  unfold calculateIntrinsicGas
  dsimp only
  split <;> omega

end WasixEth
