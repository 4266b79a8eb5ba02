import WasixEth.Consensus
import WasixEth.YellowPaper

/-! # Encodings of blocks

The RLP of headers, transactions, receipts and withdrawals, and with them the
hashes and roots a header commits to. They are the real counterparts of what
the model takes as instance arguments.
-/

namespace WasixEth

open Rlp

/-! ## Headers -/

section Encode

def encodeNat (n : Nat) : Bytes := encodeUint 32 n

def encodeWord (word : B256) : Bytes := encodeBytes word.bytes

/-- A field at the end of a header that may be missing. -/
def encodeField {α : Type} (encode : α → Bytes) (field : Option α) : Bytes :=
  (field.map encode).getD []

def Header.encode (header : Header) : Bytes :=
  encodeList (encodeWord header.parentHash ++ encodeWord header.ommersHash ++
    encodeBytes header.beneficiary.bytes ++ encodeWord header.stateRoot ++
    encodeWord header.transactionsRoot ++ encodeWord header.receiptsRoot ++
    encodeBytes (beBytes 256 header.logsBloom.toNat) ++ encodeNat header.difficulty.toNat ++
    encodeNat header.number ++ encodeNat header.gasLimit ++ encodeNat header.gasUsed ++
    encodeNat header.timestamp ++ encodeBytes header.extraData ++ encodeWord header.mixHash ++
    encodeBytes (beBytes 8 header.nonce) ++ encodeField encodeNat header.baseFeePerGas ++
    encodeField encodeWord header.withdrawalsRoot ++ encodeField encodeNat header.blobGasUsed ++
    encodeField encodeNat header.excessBlobGas ++
    encodeField encodeWord header.parentBeaconBlockRoot ++
    encodeField encodeWord header.requestsHash)

/-! ## Transactions and receipts -/

def encodeTo (address : Option Address) : Bytes :=
  encodeBytes ((address.map Address.bytes).getD [])

def encodeAccessList (accessList : List (Address × List B256)) : Bytes :=
  encodeList (accessList.flatMap fun item =>
    encodeList (encodeBytes item.1.bytes ++ encodeList (item.2.flatMap encodeWord)))

/-- A signature is its parity and the two numbers behind it. -/
def encodeSignature (signature : Bytes) (v : Nat) : Bytes :=
  encodeNat v ++ encodeNat (fromBytes ((signature.drop 1).take 32)) ++
    encodeNat (fromBytes (signature.drop 33))

def Transaction.parity (tx : Transaction) : Nat := (tx.signature.headD 0).toNat

/-- The type byte in front of everything but a legacy transaction. -/
def Transaction.encode2718 (tx : Transaction) : Bytes :=
  let price := encodeNat (tx.maxPriorityFeePerGas.getD 0) ++ encodeNat tx.maxFeePerGas
  let call := encodeNat tx.gasLimit ++ encodeTo tx.toAddress ++ encodeNat tx.value.toNat ++
    encodeBytes tx.input
  let first := encodeNat (tx.chainId.getD 0) ++ encodeNat tx.nonce
  let access := encodeAccessList tx.accessList
  let signed := encodeSignature tx.signature tx.parity
  match tx.kind with
  | .legacy gasPrice =>
      let v := match tx.chainId with
        | some chainId => 35 + 2 * chainId + tx.parity
        | none => 27 + tx.parity
      encodeList (encodeNat tx.nonce ++ encodeNat gasPrice ++ call ++
        encodeSignature tx.signature v)
  | .eip2930 gasPrice => 1 :: encodeList (first ++ encodeNat gasPrice ++ call ++ access ++ signed)
  | .eip1559 _ _ => 2 :: encodeList (first ++ price ++ call ++ access ++ signed)
  | .eip4844 _ _ maxFeePerBlobGas hashes =>
      3 :: encodeList (first ++ price ++ call ++ access ++ encodeNat maxFeePerBlobGas ++
        encodeList (hashes.flatMap encodeWord) ++ signed)
  | .eip7702 _ _ authorizations =>
      4 :: encodeList (first ++ price ++ call ++ access ++ encodeList authorizations.flatten ++
        signed)

def Log.encode (log : Log) : Bytes :=
  encodeList (encodeBytes log.address.bytes ++ encodeList (log.topics.flatMap encodeWord) ++
    encodeBytes log.data)

def Receipt.encode2718 (receipt : Receipt) : Bytes :=
  let status := match receipt.status with
    | .eip658 success => encodeNat (if success then 1 else 0)
    | .postState root => encodeWord root
  let body := encodeList (status ++ encodeNat receipt.cumulativeGasUsed ++
    encodeBytes (beBytes 256 receipt.logsBloom.toNat) ++
    encodeList (receipt.logs.flatMap Log.encode))
  if receipt.txType = 0 then body else UInt8.ofNat receipt.txType :: body

def Withdrawal.encode (withdrawal : Withdrawal) : Bytes :=
  encodeList (encodeNat withdrawal.index ++ encodeNat withdrawal.validatorIndex ++
    encodeBytes withdrawal.address.bytes ++ encodeNat withdrawal.amount)

end Encode

/-! ## Hashes and roots -/

section Hash

variable [Keccak256]

/-- The root of the trie over a list, keyed by position. -/
def orderedRoot (items : List Bytes) : B256 :=
  keccak256 (YellowPaper.node 65 (items.zipIdx.map fun item =>
    (unpackBytes (encodeNat item.2), item.1)))

@[reducible] def keccakProofs : Proofs where
  calculateTransactionRoot transactions := orderedRoot (transactions.map Transaction.encode2718)
  calculateReceiptRoot receipts := orderedRoot (receipts.map Receipt.encode2718)
  calculateWithdrawalsRoot withdrawals := orderedRoot (withdrawals.map Withdrawal.encode)
  ommersHash ommers := keccak256 (encodeList (ommers.flatMap Header.encode))

@[reducible] def keccakHashing : BlockHashing where
  hashSlow header := keccak256 header.encode
  txHash tx := keccak256 tx.encode2718

/-- Hashes that are looked up where they are known. -/
@[reducible] def lookupHashing (known : List (Header × B256)) : BlockHashing where
  hashSlow header := (known.lookup header).getD (keccak256 header.encode)
  txHash tx := keccak256 tx.encode2718

/-- Looking up right answers changes nothing. -/
theorem lookupHashing_eq {known : List (Header × B256)}
    (h : ∀ entry ∈ known, keccak256 entry.1.encode = entry.2) :
    lookupHashing known = keccakHashing := by
  have hlookup : ∀ header, (known.lookup header).getD (keccak256 header.encode) =
      keccak256 header.encode := by
    intro header
    induction known with
    | nil => rfl
    | cons entry rest ih =>
        rw [List.lookup_cons]
        split
        next heq =>
          rw [beq_iff_eq] at heq
          rw [Option.getD_some, heq, h entry List.mem_cons_self]
        next => exact ih fun entry hentry => h entry (List.mem_cons_of_mem _ hentry)
  simp only [lookupHashing, keccakHashing, hlookup]

end Hash

/-! ## A small chain

Empty blocks after the merge, before the forks by timestamp. -/

section Sample

attribute [local instance] keccak

def sampleConfig : ChainConfig := { (default : ChainConfig) with
  chainId := 1
  homesteadBlock := some 0
  eip150Block := some 0
  eip155Block := some 0
  eip158Block := some 0
  byzantiumBlock := some 0
  constantinopleBlock := some 0
  petersburgBlock := some 0
  istanbulBlock := some 0
  berlinBlock := some 0
  londonBlock := some 0
  mergeNetsplitBlock := some 0 }

/-- The root of the empty trie. -/
def sampleRoot : B256 :=
  B256.ofNat 0x56e81f171bcc55a6ff8345e692c0f86e5b48e01b996cadc001622fb5e363b421

def sampleHeader (parentHash : B256) (number timestamp baseFee : Nat) : Header :=
  { (default : Header) with
    parentHash
    ommersHash :=
      B256.ofNat 0x1dcc4de8dec75d7aab85b567b6ccd41ad312451b948a7413f0a142fd40d49347
    stateRoot := sampleRoot
    transactionsRoot := sampleRoot
    receiptsRoot := sampleRoot
    number
    gasLimit := 30000000
    timestamp
    baseFeePerGas := some baseFee }

def emptyBlock (header : Header) : Block := ⟨header, ⟨[], [], none⟩⟩

@[irreducible] def genesisHash : B256 :=
  B256.ofNat 0x1a33392c3b77b01d6046d9bcb42638cf69cced478254e6b80107860b6f8fe1d9

@[irreducible] def firstHash : B256 :=
  B256.ofNat 0x126711a343cfbaaea9fcc3e13c2b524ae877bd66c7eae108833d9a3e26855b50

@[irreducible] def sideHash : B256 :=
  B256.ofNat 0x2012b5b11f6381dd4922ec5d8d931b2e78a73a2ebd51d87b59528f386be495ec

@[irreducible] def secondHash : B256 :=
  B256.ofNat 0xb89a55494acc80b0c1d4049bd028f55d18a268a768eea226011e0094aa131deb

def genesisHeader : Header := sampleHeader B256.zero 0 0 1000000000

def firstHeader : Header := sampleHeader genesisHash 1 12 875000000

/-- Another child of the genesis block. -/
def sideHeader : Header := sampleHeader genesisHash 1 13 875000000

def secondHeader : Header := sampleHeader firstHash 2 24 765625000

def sampleHashes : List (Header × B256) :=
  [(genesisHeader, genesisHash), (firstHeader, firstHash), (sideHeader, sideHash),
    (secondHeader, secondHash)]

theorem keccak256_sampleHashes : ∀ entry ∈ sampleHashes, keccak256 entry.1.encode = entry.2 := by
  decide +kernel

theorem sampleHashing_eq : lookupHashing sampleHashes = keccakHashing :=
  lookupHashing_eq keccak256_sampleHashes

@[irreducible] def thirdHash : B256 :=
  B256.ofNat 0xe6afc047802b99b36a850734857ab6f00931bf744d589eb397b702ecc678c42f

@[irreducible] def brokenHash : B256 :=
  B256.ofNat 0xe06258e37570cf627501b59a4cbf9a2b86ff362e92be3679ffdada14d84677cd

@[irreducible] def waitingHash : B256 :=
  B256.ofNat 0x9d1af50ec39df94bc407cf305852bef099beb793823ec09e26b2778f3fcf2320

def thirdHeader : Header := sampleHeader secondHash 3 36 669921875

/-- A child of the genesis block with the wrong base fee. -/
def brokenHeader : Header := sampleHeader genesisHash 1 12 1

def waitingHeader : Header := sampleHeader brokenHash 2 24 1

def longerHashes : List (Header × B256) :=
  [(thirdHeader, thirdHash), (brokenHeader, brokenHash), (waitingHeader, waitingHash)] ++
    sampleHashes

theorem longerHashing_eq : lookupHashing longerHashes = keccakHashing := by
  have hnew : ∀ entry ∈ [(thirdHeader, thirdHash), (brokenHeader, brokenHash),
      (waitingHeader, waitingHash)], keccak256 entry.1.encode = entry.2 := by
    decide +kernel
  apply lookupHashing_eq
  intro entry hentry
  rcases List.mem_append.mp hentry with hmem | hmem
  · exact hnew entry hmem
  · exact keccak256_sampleHashes entry hmem

end Sample

end WasixEth
