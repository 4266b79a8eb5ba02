import WasixEth.BlockCodec
import WasixEth.PassedChecks

/-! # Execution payloads

`EngineMapper` turns blocks into the payloads of the engine API and payloads
back into blocks. On the way back most of the header is copied; the rest is
derived again from the fork that the number and the timestamp tell.
-/

namespace WasixEth

structure ExecutionPayloadV1 where
  parentHash : B256
  feeRecipient : Address
  stateRoot : B256
  receiptsRoot : B256
  logsBloom : Bloom
  prevRandao : B256
  blockNumber : Nat
  gasLimit : Nat
  gasUsed : Nat
  timestamp : Nat
  extraData : Bytes
  baseFeePerGas : Nat
  blockHash : B256
  transactions : List Bytes

structure ExecutionPayloadV2 where
  payloadInner : ExecutionPayloadV1
  withdrawals : Option (List Withdrawal)

/-- The second version as the later ones contain it. -/
structure AlloyExecutionPayloadV2 where
  payloadInner : ExecutionPayloadV1
  withdrawals : List Withdrawal

structure ExecutionPayloadV3 where
  payloadInner : AlloyExecutionPayloadV2
  blobGasUsed : Nat
  excessBlobGas : Nat

structure ExecutionPayloadV4 where
  payloadInner : ExecutionPayloadV3
  blockAccessList : Bytes

namespace EngineMapper

section Conversion

variable [BlockHashing] [Proofs]

/-! ## From blocks to payloads -/

def toExecutionPayloadV1 (block : Block) (config : ChainConfig) : ExecutionPayloadV1 :=
  let fork := Hardfork.getActiveFork config block.header.number block.header.timestamp
  { parentHash := block.header.parentHash
    feeRecipient := block.header.beneficiary
    stateRoot := block.header.stateRoot
    receiptsRoot := block.header.receiptsRoot
    logsBloom := block.header.logsBloom
    prevRandao := block.header.mixHash
    blockNumber := block.header.number
    gasLimit := block.header.gasLimit
    gasUsed := block.header.gasUsed
    timestamp := block.header.timestamp
    extraData := block.header.extraData
    baseFeePerGas := if .london ≤ fork then block.header.baseFeePerGas.getD 0 else 0
    blockHash := hashSlow block.header
    transactions := block.body.transactions.map Transaction.encode2718 }

def toExecutionPayloadV2 (block : Block) (config : ChainConfig) : ExecutionPayloadV2 where
  payloadInner := toExecutionPayloadV1 block config
  withdrawals := block.body.withdrawals

/-- `From<ExecutionPayloadV2>`. -/
def fromExecutionPayloadV2 (payload : ExecutionPayloadV2) : AlloyExecutionPayloadV2 :=
  ⟨payload.payloadInner, payload.withdrawals.getD []⟩

def toExecutionPayloadV3 (block : Block) (config : ChainConfig) : ExecutionPayloadV3 where
  payloadInner := fromExecutionPayloadV2 (toExecutionPayloadV2 block config)
  blobGasUsed := block.header.blobGasUsed.getD 0
  excessBlobGas := block.header.excessBlobGas.getD 0

def toExecutionPayloadV4 (block : Block) (config : ChainConfig) : ExecutionPayloadV4 where
  payloadInner := toExecutionPayloadV3 block config
  blockAccessList := []

/-! ## From payloads to blocks -/

def payloadV1ToBlock (payload : ExecutionPayloadV1) (transactions : List Transaction)
    (withdrawals : Option (List Withdrawal)) (config : ChainConfig)
    (blobGasUsed excessBlobGas : Option Nat) (parentBeaconBlockRoot : Option B256) : Block :=
  let fork := Hardfork.getActiveFork config payload.blockNumber payload.timestamp
  { header := {
      parentHash := payload.parentHash
      beneficiary := payload.feeRecipient
      stateRoot := payload.stateRoot
      transactionsRoot := calculateTransactionRoot transactions
      receiptsRoot := payload.receiptsRoot
      logsBloom := payload.logsBloom
      mixHash := payload.prevRandao
      number := payload.blockNumber
      gasLimit := payload.gasLimit
      gasUsed := payload.gasUsed
      timestamp := payload.timestamp
      extraData := payload.extraData
      baseFeePerGas := if .london ≤ fork then some payload.baseFeePerGas else none
      withdrawalsRoot := if .shanghai ≤ fork then
        (withdrawals.map calculateWithdrawalsRoot).or (some (calculateWithdrawalsRoot []))
        else none
      blobGasUsed := if .cancun ≤ fork then some (blobGasUsed.getD 0) else none
      excessBlobGas := if .cancun ≤ fork then some (excessBlobGas.getD 0) else none
      parentBeaconBlockRoot := if .cancun ≤ fork then
        some (parentBeaconBlockRoot.getD B256.zero) else none
      ommersHash := ommersHash []
      difficulty := if .paris ≤ fork then 0 else 0x30000
      nonce := if .paris ≤ fork then 0 else 0x42
      requestsHash := none }
    body := {
      transactions
      ommers := []
      withdrawals := if .shanghai ≤ fork then some (withdrawals.getD []) else none } }

def payloadV3ToBlock (payload : ExecutionPayloadV3) (transactions : List Transaction)
    (parentBeaconBlockRoot : B256) (config : ChainConfig) : Block :=
  payloadV1ToBlock payload.payloadInner.payloadInner transactions
    (some payload.payloadInner.withdrawals) config (some payload.blobGasUsed)
    (some payload.excessBlobGas) (some parentBeaconBlockRoot)

/-- The requests are not looked at. -/
def payloadV4ToBlock (payload : ExecutionPayloadV4) (transactions : List Transaction)
    (parentBeaconBlockRoot : B256) (_executionRequests : List Bytes) (config : ChainConfig) :
    Block :=
  payloadV3ToBlock payload.payloadInner transactions parentBeaconBlockRoot config

section Decode

variable (decode2718 : Bytes → Except String Transaction)

/-- `decode_transactions`. -/
def decodeTransactions (transactions : List Bytes) : Except String (List Transaction) :=
  transactions.mapM fun bytes =>
    (decode2718 bytes).mapError fun message => s!"Failed to decode transaction: {message}"

/-- There and back, in the version of a fork. -/
def roundTrip (config : ChainConfig) (fork : Hardfork) (block : Block)
    (executionRequests : List Bytes) : Except String Block := do
  let beaconRoot := block.header.parentBeaconBlockRoot.getD B256.zero
  if .prague ≤ fork then
    let payload := toExecutionPayloadV4 block config
    let transactions ← decodeTransactions decode2718
      payload.payloadInner.payloadInner.payloadInner.transactions
    return payloadV4ToBlock payload transactions beaconRoot executionRequests config
  else if .cancun ≤ fork then
    let payload := toExecutionPayloadV3 block config
    let transactions ← decodeTransactions decode2718 payload.payloadInner.payloadInner.transactions
    return payloadV3ToBlock payload transactions beaconRoot config
  else if .shanghai ≤ fork then
    let payload := toExecutionPayloadV2 block config
    let transactions ← decodeTransactions decode2718 payload.payloadInner.transactions
    return payloadV1ToBlock payload.payloadInner transactions payload.withdrawals config none none
      none
  else
    let payload := toExecutionPayloadV1 block config
    let transactions ← decodeTransactions decode2718 payload.transactions
    return payloadV1ToBlock payload transactions none config none none none

omit [BlockHashing] [Proofs] in
theorem decodeTransactions_encode {decode2718 : Bytes → Except String Transaction}
    {transactions : List Transaction}
    (h : ∀ tx ∈ transactions, decode2718 tx.encode2718 = .ok tx) :
    decodeTransactions decode2718 (transactions.map Transaction.encode2718) = .ok transactions := by
  induction transactions with
  | nil => rfl
  | cons tx rest ih =>
      have hrest := ih fun tx hmem => h tx (List.mem_cons_of_mem _ hmem)
      unfold decodeTransactions at hrest ⊢
      rw [List.map_cons, List.mapM_cons, h tx List.mem_cons_self, hrest]
      rfl

/-- The block that comes back. -/
def backBlock (config : ChainConfig) (fork : Hardfork) (block : Block) : Block :=
  payloadV1ToBlock (toExecutionPayloadV1 block config) block.body.transactions
    (if .cancun ≤ fork then some (block.body.withdrawals.getD [])
      else if .shanghai ≤ fork then block.body.withdrawals else none) config
    (if .cancun ≤ fork then some (block.header.blobGasUsed.getD 0) else none)
    (if .cancun ≤ fork then some (block.header.excessBlobGas.getD 0) else none)
    (if .cancun ≤ fork then some (block.header.parentBeaconBlockRoot.getD B256.zero) else none)

theorem roundTrip_eq {decode2718 : Bytes → Except String Transaction} {block : Block}
    (h : ∀ tx ∈ block.body.transactions, decode2718 tx.encode2718 = .ok tx)
    (config : ChainConfig) (fork : Hardfork) (executionRequests : List Bytes) :
    roundTrip decode2718 config fork block executionRequests =
      .ok (backBlock config fork block) := by
  have hfirst : decodeTransactions decode2718 (toExecutionPayloadV1 block config).transactions =
      .ok block.body.transactions := decodeTransactions_encode h
  have hsecond : decodeTransactions decode2718
      (toExecutionPayloadV2 block config).payloadInner.transactions =
        .ok block.body.transactions := hfirst
  have hthird : decodeTransactions decode2718
      (toExecutionPayloadV3 block config).payloadInner.payloadInner.transactions =
        .ok block.body.transactions := hfirst
  have hfourth : decodeTransactions decode2718
      (toExecutionPayloadV4 block config).payloadInner.payloadInner.payloadInner.transactions =
        .ok block.body.transactions := hfirst
  have hlater : Hardfork.prague ≤ fork → Hardfork.cancun ≤ fork :=
    fun hprague => Nat.le_trans (by decide) hprague
  unfold roundTrip backBlock
  dsimp only
  rw [hfirst, hsecond, hthird, hfourth]
  by_cases hprague : Hardfork.prague ≤ fork
  · simp only [hprague, hlater hprague, if_true]
    rfl
  · by_cases hcancun : Hardfork.cancun ≤ fork
    · simp only [hprague, hcancun, if_true, if_false]
      rfl
    · by_cases hshanghai : Hardfork.shanghai ≤ fork
      · simp only [hprague, hcancun, hshanghai, if_true, if_false]
        rfl
      · simp only [hprague, hcancun, hshanghai, if_false]
        rfl

end Decode

/-! ## The header that comes back -/

attribute [local ext] Header

section Header

open EthConsensus

variable {config : ChainConfig} {headerTd : Table B256 U256} {now : Nat} {block : Block}
  {parent : Header}

/-- What the checks of a block from the merge on say about the fields that the
way back derives again. -/
structure Derived (fork : Hardfork) (block : Block) : Prop where
  baseFee : block.header.baseFeePerGas.isSome
  difficulty : block.header.difficulty = 0
  nonce : block.header.nonce = 0
  ommersHash_eq : block.header.ommersHash = ommersHash []
  transactionsRoot : calculateTransactionRoot block.body.transactions =
    block.header.transactionsRoot
  withdrawalsRoot : block.body.withdrawals.map calculateWithdrawalsRoot =
    block.header.withdrawalsRoot
  withdrawals : block.header.withdrawalsRoot.isSome = decide (.shanghai ≤ fork)
  blobGasUsed : block.header.blobGasUsed.isSome = decide (.cancun ≤ fork)
  excessBlobGas : block.header.excessBlobGas.isSome = decide (.cancun ≤ fork)
  parentBeaconBlockRoot : block.header.parentBeaconBlockRoot.isSome = decide (.cancun ≤ fork)
  requestsHash : block.header.requestsHash.isSome = decide (.prague ≤ fork)

theorem derived_of_checks
    (hheader : validateHeader config headerTd now block.header parent = .ok ())
    (hbody : validateBody config headerTd block = .ok ())
    (hparis : .paris ≤ childFork config headerTd parent block.header.timestamp) :
    Derived (childFork config headerTd parent block.header.timestamp) block := by
  obtain ⟨-, -, -, -, hfee, hmerge, hwithdrawals, hblobs, hrequests⟩ := validateHeader_ok.mp hheader
  obtain ⟨htransactions, -, hroot, -⟩ := validateBody_ok.mp hbody
  obtain ⟨hdifficulty, hnonce, hommers⟩ := validateMerge_ok.mp hmerge hparis
  obtain ⟨hused, hexcess, hbeacon, -⟩ := validateBlobGas_ok.mp hblobs
  obtain ⟨fee, hfee, -⟩ := validateBaseFee_ok.mp hfee (Nat.le_trans (by decide) hparis)
  exact ⟨by rw [hfee]; rfl, hdifficulty, hnonce, hommers, htransactions, hroot, hwithdrawals,
    hused, hexcess, hbeacon, hrequests⟩

omit [BlockHashing] [Proofs] in
/-- A field of Cancun that is there exactly from Cancun on comes back. -/
theorem restore_field {α : Type} {fork active : Hardfork} {field : Option α} {value : α}
    (hsame : .cancun ≤ fork ↔ .cancun ≤ active)
    (hfield : field.isSome = decide (.cancun ≤ fork)) :
    (if .cancun ≤ active then
      some ((if .cancun ≤ fork then some (field.getD value) else none).getD value) else none) =
        field := by
  by_cases hcancun : Hardfork.cancun ≤ fork
  · rw [decide_eq_true hcancun] at hfield
    obtain ⟨content, rfl⟩ := Option.isSome_iff_exists.mp hfield
    rw [if_pos (hsame.mp hcancun), if_pos hcancun]
    rfl
  · rw [decide_eq_false hcancun, Option.isSome_eq_false_iff, Option.isNone_iff_eq_none] at hfield
    rw [if_neg fun hactive => hcancun (hsame.mpr hactive), hfield]

omit [BlockHashing] in
/-- So does the root of the withdrawals. -/
theorem restore_withdrawals {fork active : Hardfork} {withdrawals : Option (List Withdrawal)}
    {root : Option B256} (hsame : .shanghai ≤ fork ↔ .shanghai ≤ active)
    (hroot : root.isSome = decide (.shanghai ≤ fork))
    (hbody : withdrawals.map calculateWithdrawalsRoot = root) :
    (if .shanghai ≤ active then
      ((if .cancun ≤ fork then some (withdrawals.getD [])
        else if .shanghai ≤ fork then withdrawals else none).map calculateWithdrawalsRoot).or
          (some (calculateWithdrawalsRoot [])) else none) = root := by
  subst hbody
  by_cases hshanghai : Hardfork.shanghai ≤ fork
  · rw [decide_eq_true hshanghai, Option.isSome_map] at hroot
    obtain ⟨entries, rfl⟩ := Option.isSome_iff_exists.mp hroot
    rw [if_pos (hsame.mp hshanghai), if_pos hshanghai]
    split <;> rfl
  · rw [decide_eq_false hshanghai, Option.isSome_eq_false_iff, Option.isNone_iff_eq_none] at hroot
    rw [if_neg fun hactive => hshanghai (hsame.mpr hactive), hroot]

theorem backBlock_header_iff {fork : Hardfork} (h : Derived fork block)
    (hshanghai : .shanghai ≤ fork ↔
      .shanghai ≤ Hardfork.getActiveFork config block.header.number block.header.timestamp)
    (hcancun : .cancun ≤ fork ↔
      .cancun ≤ Hardfork.getActiveFork config block.header.number block.header.timestamp) :
    (backBlock config fork block).header = block.header ↔
      .paris ≤ Hardfork.getActiveFork config block.header.number block.header.timestamp ∧
        ¬ .prague ≤ fork := by
  unfold backBlock payloadV1ToBlock toExecutionPayloadV1
  dsimp only
  generalize Hardfork.getActiveFork config block.header.number block.header.timestamp = active at *
  constructor
  · intro heq
    constructor
    · by_contra hparis
      have hdifficulty := congrArg Header.difficulty heq
      rw [h.difficulty] at hdifficulty
      dsimp only at hdifficulty
      rw [if_neg hparis] at hdifficulty
      exact absurd hdifficulty (by decide)
    · intro hprague
      have hrequests := h.requestsHash
      rw [← congrArg Header.requestsHash heq, decide_eq_true hprague] at hrequests
      cases hrequests
  · rintro ⟨hparis, hprague⟩
    have hlondon : Hardfork.london ≤ active := Nat.le_trans (by decide) hparis
    obtain ⟨fee, hfee⟩ := Option.isSome_iff_exists.mp h.baseFee
    have hrequests := h.requestsHash
    rw [decide_eq_false hprague, Option.isSome_eq_false_iff, Option.isNone_iff_eq_none] at hrequests
    apply Header.ext <;> dsimp only
    · exact h.ommersHash_eq.symm
    · exact h.transactionsRoot
    · rw [if_pos hparis, h.difficulty]
    · rw [if_pos hparis, h.nonce]
    · rw [if_pos hlondon, if_pos hlondon, hfee, Option.getD_some]
    · exact restore_withdrawals hshanghai h.withdrawals h.withdrawalsRoot
    · exact restore_field hcancun h.blobGasUsed
    · exact restore_field hcancun h.excessBlobGas
    · exact restore_field hcancun h.parentBeaconBlockRoot
    · exact hrequests.symm

/-- A checked block from the merge on comes back with its hash exactly if the
merge is told by the number of the block or its timestamp and Prague is not
active. Only the way from the hash needs that the two headers do not collide. -/
theorem roundTrip_hash_iff (config : ChainConfig) (headerTd : Table B256 U256) (now : Nat)
    (block : Block) (parent : Header) (decode2718 : Bytes → Except String Transaction)
    (executionRequests : List Bytes)
    (hheader : validateHeader config headerTd now block.header parent = .ok ())
    (hbody : validateBody config headerTd block = .ok ())
    (hparis : .paris ≤ childFork config headerTd parent block.header.timestamp)
    (hdecode : ∀ tx ∈ block.body.transactions, decode2718 tx.encode2718 = .ok tx) :
    ∃ back, roundTrip decode2718 config (childFork config headerTd parent block.header.timestamp)
        block executionRequests = .ok back ∧
      (.paris ≤ Hardfork.getActiveFork config block.header.number block.header.timestamp ∧
          ¬ .prague ≤ childFork config headerTd parent block.header.timestamp →
        hashSlow back.header = hashSlow block.header) ∧
      (Set.InjOn hashSlow {back.header, block.header} →
        hashSlow back.header = hashSlow block.header →
          .paris ≤ Hardfork.getActiveFork config block.header.number block.header.timestamp ∧
            ¬ .prague ≤ childFork config headerTd parent block.header.timestamp) := by
  refine ⟨_, roundTrip_eq hdecode config _ executionRequests, ?_⟩
  have hderived := derived_of_checks hheader hbody hparis
  have hnumber := number_of_validateHeader hheader
  have hsame : ∀ fork : Hardfork, .paris < fork →
      (fork ≤ childFork config headerTd parent block.header.timestamp ↔
        fork ≤ Hardfork.getActiveFork config block.header.number block.header.timestamp) := by
    intro fork hfork
    rw [hnumber]
    exact Hardfork.le_withTotalDifficulty hfork
  rw [← backBlock_header_iff hderived (hsame .shanghai (by decide)) (hsame .cancun (by decide))]
  constructor
  · intro heq
    rw [heq]
  · intro hinjective hhash
    exact hinjective (Set.mem_insert _ _) (Set.mem_insert_of_mem _ rfl) hhash

end Header

end Conversion

section Sample

open EthConsensus

attribute [local instance] keccak keccakHashing keccakProofs

/-- The chain of the samples, merged by its total difficulty alone. -/
def ttdConfig : ChainConfig :=
  { sampleConfig with mergeNetsplitBlock := none, terminalTotalDifficulty := some 0 }

/-- The total difficulty of the genesis block of the samples. -/
def genesisTd : Table B256 U256 := (∅ : Table B256 U256).insert genesisHash 0

/-- The checks of the first block, against either config. -/
theorem validates_first {config : ChainConfig} (h : config = sampleConfig ∨ config = ttdConfig) :
    validateHeader config genesisTd 100 firstHeader genesisHeader = .ok () ∧
    validateBody config genesisTd (emptyBlock firstHeader) = .ok () ∧
    childFork config genesisTd genesisHeader firstHeader.timestamp = .paris := by
  rw [← sampleHashing_eq]
  rcases h with rfl | rfl
  · decide +kernel
  · decide +kernel

/-- The first block comes back with its hash where the merge has a number, and
with another hash where it is told by the total difficulty alone. -/
theorem roundTrip_first :
    ∃ back, roundTrip (fun _ => .error "") sampleConfig .paris (emptyBlock firstHeader) [] =
      .ok back ∧ hashSlow back.header = hashSlow firstHeader := by
  obtain ⟨hheader, hbody, hfork⟩ := validates_first (.inl rfl)
  obtain ⟨back, hback, hsame, -⟩ := roundTrip_hash_iff sampleConfig genesisTd 100
    (emptyBlock firstHeader) genesisHeader (fun _ => .error "") [] hheader hbody
    (by rw [show (emptyBlock firstHeader).header = firstHeader from rfl, hfork]; decide)
    (fun tx hmem => absurd hmem List.not_mem_nil)
  rw [show (emptyBlock firstHeader).header = firstHeader from rfl, hfork] at hback hsame
  exact ⟨back, hback, hsame (by decide +kernel)⟩

theorem ttd_roundTrip :
    validateHeader ttdConfig genesisTd 100 firstHeader genesisHeader = .ok () ∧
    validateBody ttdConfig genesisTd (emptyBlock firstHeader) = .ok () ∧
    childFork ttdConfig genesisTd genesisHeader firstHeader.timestamp = .paris ∧
    ∃ back, roundTrip (fun _ => .error "") ttdConfig .paris (emptyBlock firstHeader) [] =
      .ok back ∧ hashSlow back.header ≠ hashSlow firstHeader := by
  obtain ⟨hheader, hbody, hfork⟩ := validates_first (.inr rfl)
  refine ⟨hheader, hbody, hfork, backBlock ttdConfig .paris (emptyBlock firstHeader),
    roundTrip_eq (fun tx hmem => absurd hmem List.not_mem_nil) _ _ _, ?_⟩
  rw [← sampleHashing_eq]
  decide +kernel

end Sample

end EngineMapper

end WasixEth
