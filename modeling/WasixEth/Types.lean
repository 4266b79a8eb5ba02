import WasixEth.Primitives

/-! # Blocks and their parts

Headers, transactions, receipts and blocks, with the fields that block
execution and the engine read or write. The hash of a header and the hash and
signer of a transaction come from outside and are instance arguments.
-/

namespace WasixEth

/-- A 20-byte account address. -/
structure Address where
  bytes : Bytes
  length_eq : bytes.length = 20
  deriving DecidableEq

instance : Inhabited Address := ⟨⟨List.replicate 20 0, by simp⟩⟩

@[ext] theorem Address.ext {a b : Address} (h : a.bytes = b.bytes) : a = b := by
  cases a
  cases b
  simpa using h

/-- The address with this last byte and zeros before it. -/
def Address.trailing (last : UInt8) : Address := ⟨List.replicate 19 0 ++ [last], by simp⟩

instance : ToString Address :=
  ⟨fun address => "0x" ++ String.ofList ((unpackBytes address.bytes).map hexDigit)⟩

abbrev U256 := BitVec 256

/-- A log filter of 2048 bits. -/
abbrev Bloom := BitVec 2048

/-- Hard forks in the order of their activation. -/
inductive Hardfork where
  | frontier
  | homestead
  | tangerineWhistle
  | spuriousDragon
  | byzantium
  | constantinople
  | petersburg
  | istanbul
  | muirGlacier
  | berlin
  | london
  | arrowGlacier
  | grayGlacier
  | paris
  | shanghai
  | cancun
  | prague
  deriving DecidableEq

instance : LE Hardfork := ⟨fun a b => a.ctorIdx ≤ b.ctorIdx⟩

instance (a b : Hardfork) : Decidable (a ≤ b) :=
  inferInstanceAs (Decidable (a.ctorIdx ≤ b.ctorIdx))

instance : LT Hardfork := ⟨fun a b => a.ctorIdx < b.ctorIdx⟩

instance (a b : Hardfork) : Decidable (a < b) :=
  inferInstanceAs (Decidable (a.ctorIdx < b.ctorIdx))

structure Header where
  parentHash : B256
  ommersHash : B256
  beneficiary : Address
  stateRoot : B256
  transactionsRoot : B256
  receiptsRoot : B256
  logsBloom : Bloom
  difficulty : U256
  number : Nat
  gasLimit : Nat
  gasUsed : Nat
  timestamp : Nat
  extraData : Bytes
  mixHash : B256
  nonce : Nat
  baseFeePerGas : Option Nat
  withdrawalsRoot : Option B256
  blobGasUsed : Option Nat
  excessBlobGas : Option Nat
  parentBeaconBlockRoot : Option B256
  requestsHash : Option B256
  deriving DecidableEq, Inhabited

/-- What a transaction of each type says about its price. -/
inductive TxKind where
  | legacy (gasPrice : Nat)
  | eip2930 (gasPrice : Nat)
  | eip1559 (maxFeePerGas maxPriorityFeePerGas : Nat)
  | eip4844 (maxFeePerGas maxPriorityFeePerGas maxFeePerBlobGas : Nat)
      (blobVersionedHashes : List B256)
  | eip7702 (maxFeePerGas maxPriorityFeePerGas : Nat) (authorizationList : List Bytes)
  deriving DecidableEq, Inhabited

structure Transaction where
  kind : TxKind
  nonce : Nat
  chainId : Option Nat
  gasLimit : Nat
  value : U256
  toAddress : Option Address
  input : Bytes
  accessList : List (Address × List B256)
  signature : Bytes
  deriving DecidableEq, Inhabited

structure Withdrawal where
  index : Nat
  validatorIndex : Nat
  address : Address
  amount : Nat
  deriving DecidableEq, Inhabited

structure BlockBody where
  transactions : List Transaction
  ommers : List Header
  withdrawals : Option (List Withdrawal)
  deriving DecidableEq, Inhabited

structure Block where
  header : Header
  body : BlockBody
  deriving DecidableEq, Inhabited

structure PayloadAttributes where
  timestamp : Nat
  prevRandao : B256
  suggestedFeeRecipient : Address
  withdrawals : Option (List Withdrawal)
  parentBeaconBlockRoot : Option B256
  deriving DecidableEq

structure Log where
  address : Address
  topics : List B256
  data : Bytes
  deriving DecidableEq, Inhabited

/-- The outcome recorded in a receipt: a flag, or before Byzantium a root. -/
inductive ReceiptStatus where
  | eip658 (success : Bool)
  | postState (root : B256)
  deriving DecidableEq, Inhabited

structure Receipt where
  txType : Nat
  status : ReceiptStatus
  cumulativeGasUsed : Nat
  logs : List Log
  logsBloom : Bloom
  deriving DecidableEq, Inhabited

structure ReceiptMeta where
  contractAddress : Option Address
  deriving DecidableEq, Inhabited

/-- The hashes that identify headers and transactions. -/
class BlockHashing where
  hashSlow : Header → B256
  txHash : Transaction → B256

export BlockHashing (hashSlow txHash)

def Block.hash [BlockHashing] (block : Block) : B256 := hashSlow block.header

namespace Transaction

/-- `tx.gas_price()`. -/
def gasPrice (tx : Transaction) : Option Nat :=
  match tx.kind with
  | .legacy gasPrice => some gasPrice
  | .eip2930 gasPrice => some gasPrice
  | _ => none

/-- `tx.max_fee_per_gas()`, the gas price where there is no separate cap. -/
def maxFeePerGas (tx : Transaction) : Nat :=
  match tx.kind with
  | .legacy gasPrice => gasPrice
  | .eip2930 gasPrice => gasPrice
  | .eip1559 maxFee _ => maxFee
  | .eip4844 maxFee _ _ _ => maxFee
  | .eip7702 maxFee _ _ => maxFee

def maxPriorityFeePerGas (tx : Transaction) : Option Nat :=
  match tx.kind with
  | .legacy _ => none
  | .eip2930 _ => none
  | .eip1559 _ maxPriority => some maxPriority
  | .eip4844 _ maxPriority _ _ => some maxPriority
  | .eip7702 _ maxPriority _ => some maxPriority

/-- `tx.ty()`. -/
def ty (tx : Transaction) : Nat :=
  match tx.kind with
  | .legacy _ => 0
  | .eip2930 _ => 1
  | .eip1559 _ _ => 2
  | .eip4844 _ _ _ _ => 3
  | .eip7702 _ _ _ => 4

def blobVersionedHashes (tx : Transaction) : List B256 :=
  match tx.kind with
  | .eip4844 _ _ _ hashes => hashes
  | _ => []

def authorizationList (tx : Transaction) : List Bytes :=
  match tx.kind with
  | .eip7702 _ _ authorizations => authorizations
  | _ => []

end Transaction

end WasixEth
