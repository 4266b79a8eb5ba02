import WasixEth.BlockCodec
import WasixEth.Lib.Machine
import WasixEth.PassedChecks

/-! # The base fee

The checks of a header as they run on machine words, where sums and products may
wrap around or stop the program. The base fee of a header is compared with the one
that follows from its parent, and with nothing where the parent has none.
-/

namespace WasixEth

namespace EthConsensus

namespace Words

open Machine

section Checks

variable (mode : Mode)

/-- `(base_fee as u128 * gas_used_delta as u128) / target as u128 / 8`, cast to 64 bits. -/
def baseFeeDelta (baseFee gasUsedDelta target : Nat) : Except Fault Nat := do
  let product ← mul mode 128 baseFee gasUsedDelta
  let quotient ← div product target
  cast mode 64 (quotient / 8)

def calculateNextBaseFee (parent : Header) : Except Fault (Option Nat) :=
  match parent.baseFeePerGas with
  | none => .ok none
  | some baseFee =>
      let target := parent.gasLimit / 2
      if parent.gasUsed = target then .ok (some baseFee)
      else if target < parent.gasUsed then do
        let gasUsedDelta ← sub mode 64 parent.gasUsed target
        let delta ← baseFeeDelta mode baseFee gasUsedDelta target
        let next ← add mode 64 baseFee (max delta 1)
        return some next
      else do
        let gasUsedDelta ← sub mode 64 target parent.gasUsed
        let delta ← baseFeeDelta mode baseFee gasUsedDelta target
        return some (baseFee - delta)

section Header

variable (header parent : Header) (parentFork currentFork : Hardfork)

def validateTimestamp (now : Nat) : Run String Unit := do
  if header.timestamp ≤ parent.timestamp then
    throw (s!"Invalid timestamp: must be greater than parent " ++
      s!"({header.timestamp} <= {parent.timestamp})")
  let latest ← add mode 64 now 15
  if latest < header.timestamp then
    throw s!"Invalid timestamp: block is too far in the future ({header.timestamp} > {now} + 15)"

/-- The gas limit of the parent, doubled at the London transition. -/
def targetGasLimit (transition : Bool) : Except Fault Nat :=
  if transition then mul mode 64 parent.gasLimit 2 else .ok parent.gasLimit

def validateGasLimit : Run String Unit := do
  if header.gasLimit < 5000 then
    throw s!"Gas limit too low: {header.gasLimit} < 5000"
  let transition : Bool := parentFork < .london && Hardfork.london ≤ currentFork
  let target ← targetGasLimit mode parent transition
  let diff := if target < header.gasLimit then header.gasLimit - target
    else target - header.gasLimit
  if target / 1024 ≤ diff then
    throw (s!"Invalid gas limit change: parent={parent.gasLimit}, current={header.gasLimit}, " ++
      s!"diff={diff}, max_diff={target / 1024 - 1}, is_london_transition={transition}")
  if header.gasLimit < header.gasUsed then
    throw s!"Gas used exceeds gas limit: used={header.gasUsed}, limit={header.gasLimit}"

def validateBaseFee : Run String Unit := do
  if Hardfork.london ≤ currentFork then
    match header.baseFeePerGas with
    | none => throw "Base fee missing in post-London block"
    | some actual =>
        match ← calculateNextBaseFee mode parent with
        | none => pure ()
        | some next =>
            -- The first case is never taken: without a base fee in the parent there is no
            -- next one.
            let expected := if parent.baseFeePerGas.isNone then 1000000000 else next
            if actual ≠ expected then
              throw s!"Invalid base fee: expected {expected}, got {actual}"

/-- A number of blobs in gas. -/
def blobGas (count : Option Nat) (default : Nat) : Except Fault Nat :=
  match count with
  | some count => mul mode 64 count dataGasPerBlob
  | none => .ok default

def validateBlobGas (config : ChainConfig) : Run String Unit := do
  let active := currentFork.isCancunActive
  lift (validatePresence "Cancun" "blob_gas_used" active header.blobGasUsed.isSome)
  lift (validatePresence "Cancun" "excess_blob_gas" active header.excessBlobGas.isSome)
  lift (validatePresence "Cancun" "parent_beacon_block_root" active
    header.parentBeaconBlockRoot.isSome)
  if active then
    let params := currentFork.blobParams config
    let target ← blobGas mode (params.map BlobParams.targetBlobCount) targetBlobGasPerBlock
    let maximum ← blobGas mode (params.map BlobParams.maxBlobCount) maxBlobGasPerBlock
    if parentFork.isCancunActive then
      let total ← add mode 64 (parent.excessBlobGas.getD 0) (parent.blobGasUsed.getD 0)
      let expected := total - target
      if header.excessBlobGas.getD 0 ≠ expected then
        throw s!"Invalid excess blob gas: expected {expected}, got {header.excessBlobGas.getD 0}"
    else if header.excessBlobGas.getD 0 ≠ 0 then
      throw (s!"Invalid excess blob gas for Cancun transition: expected 0, " ++
        s!"got {header.excessBlobGas.getD 0}")
    if maximum < header.blobGasUsed.getD 0 then
      throw s!"Blob gas used exceeds maximum: used={header.blobGasUsed.getD 0}, max={maximum}"

end Header

variable [BlockHashing] [Proofs] (config : ChainConfig) (headerTd : Table B256 U256) (now : Nat)
  (header parent : Header)

/-- The fork of a header, judged by the total difficulty up to its parent. -/
def currentFork : Hardfork :=
  Hardfork.getActiveForkWithTotalDifficulty config header.number header.timestamp
    (headerTd.get (hashSlow parent))

def validateHeader : Run String Unit := do
  let number ← add mode 64 parent.number 1
  if header.number ≠ number then
    throw s!"Invalid block number: expected {number}, got {header.number}"
  validateTimestamp mode header parent now
  let parentFork := ownFork config headerTd parent
  let currentFork := currentFork config headerTd header parent
  validateGasLimit mode header parent parentFork currentFork
  if 32 < header.extraData.length then
    throw s!"Extra data too long: {header.extraData.length} > 32"
  validateBaseFee mode header parent currentFork
  lift (validateMerge header currentFork)
  lift (validatePresence "Shanghai" "withdrawals_root" (Hardfork.shanghai ≤ currentFork)
    header.withdrawalsRoot.isSome)
  validateBlobGas mode header parent parentFork currentFork config
  lift (validatePresence "Prague" "requests_hash" (Hardfork.prague ≤ currentFork)
    header.requestsHash.isSome)

end Checks

/-! ## Without overflow -/

section Exact

variable {header parent : Header} {parentFork currentFork : Hardfork} {now : Nat}

theorem validateTimestamp_agrees :
    Agrees (validateTimestamp .exact header parent now)
      (EthConsensus.validateTimestamp header parent now) := by
  refine agrees_ite (fun _ => agrees_throw) fun _ => ?_
  refine agrees_monadLift_bind fun latest hlatest => ?_
  obtain ⟨rfl, -⟩ := fit_exact hlatest
  exact agrees_ite (fun _ => agrees_throw) fun _ => agrees_pure

theorem targetGasLimit_exact {transition : Bool} {target : Nat}
    (h : targetGasLimit .exact parent transition = .ok target) :
    target = if transition then parent.gasLimit * 2 else parent.gasLimit := by
  unfold targetGasLimit at h
  cases transition with
  | true => exact (fit_exact h).1
  | false => exact (Except.ok.inj h).symm

theorem validateGasLimit_agrees :
    Agrees (validateGasLimit .exact header parent parentFork currentFork)
      (EthConsensus.validateGasLimit header parent parentFork currentFork) := by
  refine agrees_ite (fun _ => agrees_throw) fun _ => ?_
  refine agrees_monadLift_bind fun target htarget => ?_
  obtain rfl := targetGasLimit_exact htarget
  refine agrees_ite (fun _ => agrees_throw) fun _ => ?_
  exact agrees_ite (fun _ => agrees_throw) fun _ => agrees_pure

theorem baseFeeDelta_exact {baseFee gasUsedDelta target delta : Nat}
    (h : baseFeeDelta .exact baseFee gasUsedDelta target = .ok delta) :
    delta = baseFee * gasUsedDelta / target / 8 ∧
      baseFee * gasUsedDelta / target / 8 < 2 ^ 64 := by
  obtain ⟨product, hmul, h⟩ := bind_ok.mp h
  obtain ⟨quotient, hdiv, hcast⟩ := bind_ok.mp h
  obtain ⟨rfl, -⟩ := fit_exact hmul
  obtain ⟨-, rfl⟩ := eq_of_div hdiv
  exact cast_exact hcast

/-- Where nothing is lost on the way, the next base fee is the one over the numbers. -/
theorem calculateNextBaseFee_exact {next : Option Nat}
    (h : calculateNextBaseFee .exact parent = .ok next) :
    EthConsensus.calculateNextBaseFee parent = next := by
  unfold calculateNextBaseFee at h
  unfold EthConsensus.calculateNextBaseFee
  cases hfee : parent.baseFeePerGas with
  | none =>
      rw [hfee] at h
      exact Except.ok.inj h
  | some baseFee =>
      rw [hfee] at h
      dsimp only at h
      rw [Option.bind_eq_bind, Option.bind_some]
      dsimp only
      split at h
      next heq => rw [if_pos heq, Except.ok.inj h]
      next hne =>
        rw [if_neg hne]
        split at h
        next hover =>
          rw [if_pos hover]
          obtain ⟨gasUsedDelta, hsub, h⟩ := bind_ok.mp h
          obtain ⟨delta, hdelta, h⟩ := bind_ok.mp h
          obtain ⟨fee, hadd, h⟩ := bind_ok.mp h
          obtain ⟨rfl, -⟩ := sub_exact hsub
          obtain ⟨rfl, hlt⟩ := baseFeeDelta_exact hdelta
          obtain ⟨rfl, -⟩ := fit_exact hadd
          rw [← Except.ok.inj h, Nat.mod_eq_of_lt hlt]
        next hunder =>
          rw [if_neg hunder]
          obtain ⟨gasUsedDelta, hsub, h⟩ := bind_ok.mp h
          obtain ⟨delta, hdelta, h⟩ := bind_ok.mp h
          obtain ⟨rfl, -⟩ := sub_exact hsub
          obtain ⟨rfl, hlt⟩ := baseFeeDelta_exact hdelta
          rw [← Except.ok.inj h, Nat.mod_eq_of_lt hlt]

/-- There is a next base fee only after one. -/
theorem not_isNone_of_calculateNextBaseFee {mode : Mode} {next : Nat}
    (h : calculateNextBaseFee mode parent = .ok (some next)) :
    ¬ parent.baseFeePerGas.isNone := by
  cases hfee : parent.baseFeePerGas with
  | some baseFee => exact Bool.false_ne_true
  | none =>
      unfold calculateNextBaseFee at h
      rw [hfee] at h
      cases h

theorem validateBaseFee_agrees :
    Agrees (validateBaseFee .exact header parent currentFork)
      (EthConsensus.validateBaseFee header parent currentFork) := by
  refine agrees_ite (fun _ => ?_) fun _ => agrees_pure
  cases header.baseFeePerGas with
  | none => exact agrees_throw
  | some actual =>
      refine agrees_monadLift_bind fun next hnext => ?_
      rw [calculateNextBaseFee_exact hnext]
      cases next with
      | none => exact agrees_pure
      | some next =>
          dsimp only
          rw [if_neg (not_isNone_of_calculateNextBaseFee hnext)]
          exact agrees_ite (fun _ => agrees_throw) fun _ => agrees_pure

theorem blobGas_exact {count : Option Nat} {default gas : Nat}
    (h : blobGas .exact count default = .ok gas) :
    gas = (count.map (· * dataGasPerBlob)).getD default := by
  unfold blobGas at h
  cases count with
  | none => exact (Except.ok.inj h).symm
  | some count => exact (fit_exact h).1

theorem validateBlobGas_agrees {config : ChainConfig} :
    Agrees (validateBlobGas .exact header parent parentFork currentFork config)
      (EthConsensus.validateBlobGas header parent parentFork currentFork config) := by
  refine agrees_bind agrees_lift fun _ => ?_
  refine agrees_bind agrees_lift fun _ => ?_
  refine agrees_bind agrees_lift fun _ => ?_
  refine agrees_ite (fun _ => ?_) fun _ => agrees_pure
  refine agrees_monadLift_bind fun target htarget => ?_
  refine agrees_monadLift_bind fun maximum hmaximum => ?_
  obtain rfl := blobGas_exact htarget
  obtain rfl := blobGas_exact hmaximum
  rw [Option.map_map, Option.map_map]
  -- The last check follows whichever of the two the parent calls for.
  refine agrees_ite (fun _ => ?_) fun _ => ?_
  · refine agrees_monadLift_bind fun total htotal => ?_
    obtain ⟨rfl, -⟩ := fit_exact htotal
    refine agrees_ite (fun _ => agrees_throw) fun _ => ?_
    exact agrees_ite (fun _ => agrees_throw) fun _ => agrees_pure
  · refine agrees_ite (fun _ => agrees_throw) fun _ => ?_
    exact agrees_ite (fun _ => agrees_throw) fun _ => agrees_pure

/-- On numbers that stay words the checks are those over the numbers. -/
theorem validateHeader_agrees [BlockHashing] [Proofs] {config : ChainConfig}
    {headerTd : Table B256 U256} :
    Agrees (validateHeader .exact config headerTd now header parent)
      (EthConsensus.validateHeader config headerTd now header parent) := by
  refine agrees_monadLift_bind fun number hnumber => ?_
  obtain ⟨rfl, -⟩ := fit_exact hnumber
  refine agrees_ite (fun _ => agrees_throw) fun _ => ?_
  refine agrees_bind validateTimestamp_agrees fun _ => ?_
  refine agrees_bind validateGasLimit_agrees fun _ => ?_
  refine agrees_ite (fun _ => agrees_throw) fun _ => ?_
  refine agrees_bind validateBaseFee_agrees fun _ => ?_
  refine agrees_bind agrees_lift fun _ => ?_
  refine agrees_bind agrees_lift fun _ => ?_
  refine agrees_bind validateBlobGas_agrees fun _ => ?_
  exact agrees_lift

end Exact

/-! ## EIP-1559 -/

section Eip1559

/-- The base fee, moved by the distance of the gas used from the target, which is half the
gas limit. -/
def feeChange (parent : Header) (baseFee : Nat) : Nat :=
  let target := parent.gasLimit / 2
  baseFee * ((parent.gasUsed : Int) - (target : Int)).natAbs / target / 8

/-- The base fee after a parent with a base fee. -/
def movedBaseFee (parent : Header) (baseFee : Nat) : Nat :=
  if parent.gasLimit / 2 < parent.gasUsed then baseFee + max (feeChange parent baseFee) 1
  else baseFee - feeChange parent baseFee

/-- The same on words of 64 bits. -/
def wrappedBaseFee (parent : Header) (baseFee : Nat) : Nat :=
  if parent.gasLimit / 2 < parent.gasUsed then
    (baseFee + max (feeChange parent baseFee % 2 ^ 64) 1) % 2 ^ 64
  else baseFee - feeChange parent baseFee

/-- The base fee that EIP-1559 asks for: one gwei after a parent without London. -/
def eip1559BaseFee (parentFork : Hardfork) (parent : Header) : Option Nat :=
  if .london ≤ parentFork then parent.baseFeePerGas.map (movedBaseFee parent)
  else some 1000000000

/-- The fields that the next base fee is computed from are words. -/
structure OfWords (parent : Header) : Prop where
  gasLimit : parent.gasLimit < 2 ^ 64
  gasUsed : parent.gasUsed < 2 ^ 64
  baseFee : ∀ baseFee, parent.baseFeePerGas = some baseFee → baseFee < 2 ^ 64

variable {mode : Mode} {parent : Header} {baseFee : Nat}

theorem feeChange_over (h : parent.gasLimit / 2 ≤ parent.gasUsed) :
    feeChange parent baseFee =
      baseFee * (parent.gasUsed - parent.gasLimit / 2) / (parent.gasLimit / 2) / 8 := by
  have habs : ((parent.gasUsed : Int) - ((parent.gasLimit / 2 : Nat) : Int)).natAbs =
      parent.gasUsed - parent.gasLimit / 2 := by
    omega
  unfold feeChange
  dsimp only
  rw [habs]

theorem feeChange_under (h : parent.gasUsed ≤ parent.gasLimit / 2) :
    feeChange parent baseFee =
      baseFee * (parent.gasLimit / 2 - parent.gasUsed) / (parent.gasLimit / 2) / 8 := by
  have habs : ((parent.gasUsed : Int) - ((parent.gasLimit / 2 : Nat) : Int)).natAbs =
      parent.gasLimit / 2 - parent.gasUsed := by
    omega
  unfold feeChange
  dsimp only
  rw [habs]

theorem feeChange_at_target (h : parent.gasUsed = parent.gasLimit / 2) :
    feeChange parent baseFee = 0 := by
  rw [feeChange_over h.ge, h, Nat.sub_self, Nat.mul_zero, Nat.zero_div, Nat.zero_div]

/-- Up to twice the target the fee changes by a quarter at most. -/
theorem feeChange_le (baseFee : Nat) {distance target : Nat} (h : distance ≤ 2 * target) :
    baseFee * distance / target / 8 ≤ baseFee / 4 := by
  have hquotient : baseFee * distance / target ≤ 2 * baseFee := by
    apply Nat.div_le_of_le_mul
    calc baseFee * distance ≤ baseFee * (2 * target) := Nat.mul_le_mul_left _ h
      _ = target * (2 * baseFee) := by ring
  omega

/-! ### What is computed -/

theorem baseFeeDelta_of_lt {gasUsedDelta target : Nat} (hpos : 0 < target)
    (hproduct : baseFee * gasUsedDelta < 2 ^ 128)
    (hdelta : baseFee * gasUsedDelta / target / 8 < 2 ^ 64) :
    baseFeeDelta mode baseFee gasUsedDelta target =
      .ok (baseFee * gasUsedDelta / target / 8) := by
  unfold baseFeeDelta
  rw [mul_of_lt hproduct]
  exact bind_ok.mpr ⟨_, rfl, bind_ok.mpr ⟨_, div_of_pos hpos, cast_of_lt hdelta⟩⟩

theorem eq_of_baseFeeDelta {gasUsedDelta target delta : Nat} (hfee : baseFee < 2 ^ 64)
    (hgas : gasUsedDelta < 2 ^ 64)
    (h : baseFeeDelta mode baseFee gasUsedDelta target = .ok delta) :
    delta = baseFee * gasUsedDelta / target / 8 % 2 ^ 64 := by
  have hproduct : baseFee * gasUsedDelta < 2 ^ 128 := by
    calc baseFee * gasUsedDelta < 2 ^ 64 * 2 ^ 64 := Nat.mul_lt_mul'' hfee hgas
      _ = 2 ^ 128 := by norm_num
  unfold baseFeeDelta at h
  rw [mul_of_lt hproduct] at h
  obtain ⟨product, hmul, hrest⟩ := bind_ok.mp h
  obtain ⟨quotient, hdiv, hcast⟩ := bind_ok.mp hrest
  rw [eq_of_cast hcast, (eq_of_div hdiv).2, Except.ok.inj hmul]

/-- Whatever the build, the next base fee is that of 64 bits. -/
theorem eq_of_calculateNextBaseFee {next : Option Nat} (hwords : OfWords parent)
    (hfee : parent.baseFeePerGas = some baseFee)
    (h : calculateNextBaseFee mode parent = .ok next) :
    next = some (wrappedBaseFee parent baseFee) := by
  have hlt := hwords.baseFee baseFee hfee
  have hused := hwords.gasUsed
  have hlimit := hwords.gasLimit
  unfold calculateNextBaseFee at h
  rw [hfee] at h
  dsimp only at h
  unfold wrappedBaseFee
  split at h
  next heq =>
    rw [if_neg (Nat.not_lt.mpr heq.le), feeChange_at_target heq]
    exact (Except.ok.inj h).symm
  next hne =>
    split at h
    next hover =>
      obtain ⟨gasUsedDelta, hsub, hrest⟩ := bind_ok.mp h
      obtain ⟨delta, hdelta, hlast⟩ := bind_ok.mp hrest
      obtain ⟨fee, hadd, hnext⟩ := bind_ok.mp hlast
      rw [sub_of_le hover.le] at hsub
      obtain rfl := Except.ok.inj hsub
      have hdelta' := eq_of_baseFeeDelta hlt (by omega) hdelta
      rw [if_pos hover, feeChange_over hover.le, ← hdelta', ← eq_of_add hadd]
      exact (Except.ok.inj hnext).symm
    next hunder =>
      have hle : parent.gasUsed ≤ parent.gasLimit / 2 := Nat.not_lt.mp hunder
      obtain ⟨gasUsedDelta, hsub, hrest⟩ := bind_ok.mp h
      obtain ⟨delta, hdelta, hnext⟩ := bind_ok.mp hrest
      rw [sub_of_le hle] at hsub
      obtain rfl := Except.ok.inj hsub
      have hdelta' := eq_of_baseFeeDelta hlt (by omega) hdelta
      have hsmall := feeChange_le baseFee
        (show parent.gasLimit / 2 - parent.gasUsed ≤ 2 * (parent.gasLimit / 2) by omega)
      rw [Nat.mod_eq_of_lt (by omega)] at hdelta'
      rw [if_neg hunder, feeChange_under hle, ← hdelta']
      exact (Except.ok.inj hnext).symm

theorem wrappedBaseFee_lt (hwords : OfWords parent)
    (hfee : parent.baseFeePerGas = some baseFee) :
    wrappedBaseFee parent baseFee < 2 ^ 64 := by
  have hlt := hwords.baseFee baseFee hfee
  unfold wrappedBaseFee
  split
  · exact Nat.mod_lt _ (by norm_num)
  · omega

theorem wrappedBaseFee_eq (h : movedBaseFee parent baseFee < 2 ^ 64) :
    wrappedBaseFee parent baseFee = movedBaseFee parent baseFee := by
  unfold movedBaseFee at h ⊢
  unfold wrappedBaseFee
  split
  next hover =>
    rw [if_pos hover] at h
    rw [Nat.mod_eq_of_lt (a := feeChange parent baseFee) (by omega), Nat.mod_eq_of_lt h]
  next => rfl

/-- A block with a gas limit of its own leaves room for the next base fee. -/
theorem calculateNextBaseFee_ok (hlimit : parent.gasLimit < 2 ^ 64)
    (hlow : 5000 ≤ parent.gasLimit) (hused : parent.gasUsed ≤ parent.gasLimit)
    (hfee : ∀ baseFee, parent.baseFeePerGas = some baseFee → baseFee < 2 ^ 63) :
    calculateNextBaseFee mode parent =
      .ok (parent.baseFeePerGas.map (movedBaseFee parent)) := by
  unfold calculateNextBaseFee
  cases hbase : parent.baseFeePerGas with
  | none => rfl
  | some baseFee =>
      have hlt := hfee baseFee hbase
      have hpos : 0 < parent.gasLimit / 2 := by omega
      have hproduct : ∀ {distance : Nat}, distance < 2 ^ 64 → baseFee * distance < 2 ^ 128 := by
        intro distance hdistance
        calc baseFee * distance < 2 ^ 64 * 2 ^ 64 := Nat.mul_lt_mul'' (by omega) hdistance
          _ = 2 ^ 128 := by norm_num
      dsimp only [Option.map_some]
      unfold movedBaseFee
      split
      next heq =>
        rw [if_neg (Nat.not_lt.mpr heq.le), feeChange_at_target heq]
        rfl
      next hne =>
        split
        next hover =>
          have hsmall := feeChange_le baseFee
            (show parent.gasUsed - parent.gasLimit / 2 ≤ 2 * (parent.gasLimit / 2) by omega)
          rw [sub_of_le hover.le, feeChange_over hover.le]
          refine bind_ok.mpr ⟨_, rfl, bind_ok.mpr ⟨_, baseFeeDelta_of_lt hpos
            (hproduct (by omega)) (by omega), bind_ok.mpr ⟨_, add_of_lt (by omega), rfl⟩⟩⟩
        next hunder =>
          have hle : parent.gasUsed ≤ parent.gasLimit / 2 := Nat.not_lt.mp hunder
          have hsmall := feeChange_le baseFee
            (show parent.gasLimit / 2 - parent.gasUsed ≤ 2 * (parent.gasLimit / 2) by omega)
          rw [sub_of_le hle, feeChange_under hle]
          exact bind_ok.mpr ⟨_, rfl, bind_ok.mpr ⟨_, baseFeeDelta_of_lt hpos
            (hproduct (by omega)) (by omega), rfl⟩⟩

end Eip1559

/-! ## Enforcing it -/

section Enforced

variable [BlockHashing] [Proofs] {mode : Mode} {config : ChainConfig} {headerTd : Table B256 U256}
  {now : Nat} {header parent : Header}

/-- What a header must pass besides the check of its base fee. -/
structure PassesOthers (mode : Mode) (config : ChainConfig) (headerTd : Table B256 U256)
    (now : Nat) (header parent : Header) : Prop where
  number : add mode 64 parent.number 1 = .ok header.number
  timestamp : Passes (validateTimestamp mode header parent now) ()
  gasLimit : Passes (validateGasLimit mode header parent (ownFork config headerTd parent)
    (currentFork config headerTd header parent)) ()
  extraData : header.extraData.length ≤ 32
  merge : validateMerge header (currentFork config headerTd header parent) = .ok ()
  withdrawals : validatePresence "Shanghai" "withdrawals_root"
    (Hardfork.shanghai ≤ currentFork config headerTd header parent)
    header.withdrawalsRoot.isSome = .ok ()
  blobGas : Passes (validateBlobGas mode header parent (ownFork config headerTd parent)
    (currentFork config headerTd header parent) config) ()
  requests : validatePresence "Prague" "requests_hash"
    (Hardfork.prague ≤ currentFork config headerTd header parent)
    header.requestsHash.isSome = .ok ()

theorem passes_validateHeader :
    Passes (validateHeader mode config headerTd now header parent) () ↔
      PassesOthers mode config headerTd now header parent ∧
        Passes (validateBaseFee mode header parent (currentFork config headerTd header parent))
          () := by
  unfold validateHeader
  constructor
  · intro h
    obtain ⟨number, hnumber, h⟩ := passes_bind.mp h
    obtain ⟨heq, h⟩ := passes_guard.mp h
    obtain ⟨_, htimestamp, h⟩ := passes_bind.mp h
    obtain ⟨_, hgas, h⟩ := passes_bind.mp h
    obtain ⟨hextra, h⟩ := passes_guard.mp h
    obtain ⟨_, hfee, h⟩ := passes_bind.mp h
    obtain ⟨_, hmerge, h⟩ := passes_bind.mp h
    obtain ⟨_, hwithdrawals, h⟩ := passes_bind.mp h
    obtain ⟨_, hblob, h⟩ := passes_bind.mp h
    have hadd := passes_monadLift.mp hnumber
    rw [← not_not.mp heq] at hadd
    exact ⟨⟨hadd, htimestamp, hgas, Nat.not_lt.mp hextra, passes_lift.mp hmerge,
      passes_lift.mp hwithdrawals, hblob, passes_lift.mp h⟩, hfee⟩
  · rintro ⟨⟨hnumber, htimestamp, hgas, hextra, hmerge, hwithdrawals, hblob, hrequests⟩, hfee⟩
    refine passes_bind.mpr ⟨_, passes_monadLift.mpr hnumber, ?_⟩
    refine passes_guard.mpr ⟨fun hne => hne rfl, ?_⟩
    refine passes_bind.mpr ⟨_, htimestamp, ?_⟩
    refine passes_bind.mpr ⟨_, hgas, ?_⟩
    refine passes_guard.mpr ⟨Nat.not_lt.mpr hextra, ?_⟩
    refine passes_bind.mpr ⟨_, hfee, ?_⟩
    refine passes_bind.mpr ⟨_, passes_lift.mpr hmerge, ?_⟩
    refine passes_bind.mpr ⟨_, passes_lift.mpr hwithdrawals, ?_⟩
    exact passes_bind.mpr ⟨_, hblob, passes_lift.mpr hrequests⟩

omit [BlockHashing] [Proofs] in
theorem passes_validateBaseFee {currentFork : Hardfork} (hlondon : .london ≤ currentFork) :
    Passes (validateBaseFee mode header parent currentFork) () ↔
      ∃ actual next, header.baseFeePerGas = some actual ∧
        calculateNextBaseFee mode parent = .ok next ∧
        ∀ expected, next = some expected → actual = expected := by
  unfold validateBaseFee
  rw [if_pos hlondon]
  cases hactual : header.baseFeePerGas with
  | none => simp [passes_throw]
  | some actual =>
      constructor
      · intro h
        obtain ⟨next, hnext, h⟩ := passes_bind.mp h
        have hcalculated := passes_monadLift.mp hnext
        refine ⟨actual, next, rfl, hcalculated, ?_⟩
        rintro expected rfl
        obtain ⟨hfee, -⟩ := passes_guard.mp h
        rw [if_neg (not_isNone_of_calculateNextBaseFee hcalculated)] at hfee
        exact not_not.mp hfee
      · rintro ⟨actual', next, hsame, hcalculated, hexpected⟩
        cases hsame
        refine passes_bind.mpr ⟨next, passes_monadLift.mpr hcalculated, ?_⟩
        cases next with
        | none => exact passes_pure.mpr rfl
        | some expected =>
            refine passes_guard.mpr ⟨?_, passes_pure.mpr rfl⟩
            rw [if_neg (not_isNone_of_calculateNextBaseFee hcalculated)]
            exact not_not.mpr (hexpected expected rfl)

/-- The header is accepted with the base fee. -/
def Accepts (mode : Mode) (config : ChainConfig) (headerTd : Table B256 U256) (now : Nat)
    (header parent : Header) (baseFee : Option Nat) : Prop :=
  Passes (validateHeader mode config headerTd now { header with baseFeePerGas := baseFee } parent)
    ()

/-- The header is accepted with the base fee of EIP-1559 only. -/
def EnforcesBaseFee (mode : Mode) (config : ChainConfig) (headerTd : Table B256 U256) (now : Nat)
    (header parent : Header) : Prop :=
  ∀ baseFee : Option Nat, (∀ amount, baseFee = some amount → amount < 2 ^ 64) →
    Accepts mode config headerTd now header parent baseFee →
      baseFee = eip1559BaseFee (ownFork config headerTd parent) parent

/-- The parent has a base fee, and what 64 bits make of it is what EIP-1559 asks for. -/
def PinsBaseFee (parentFork : Hardfork) (parent : Header) : Prop :=
  ∃ baseFee, parent.baseFeePerGas = some baseFee ∧
    if .london ≤ parentFork then movedBaseFee parent baseFee < 2 ^ 64
    else wrappedBaseFee parent baseFee = 1000000000

theorem accepts_iff (hlondon : .london ≤ currentFork config headerTd header parent)
    {baseFee : Option Nat} :
    Accepts mode config headerTd now header parent baseFee ↔
      PassesOthers mode config headerTd now { header with baseFeePerGas := baseFee } parent ∧
        ∃ actual next, baseFee = some actual ∧ calculateNextBaseFee mode parent = .ok next ∧
          ∀ expected, next = some expected → actual = expected := by
  unfold Accepts
  rw [passes_validateHeader]
  exact and_congr_right fun _ => passes_validateBaseFee hlondon

/-- Without a base fee in the parent every base fee is accepted. -/
theorem accepts_of_none (hlondon : .london ≤ currentFork config headerTd header parent)
    (hnone : parent.baseFeePerGas = none) {baseFee : Option Nat}
    (h : Accepts mode config headerTd now header parent baseFee) (other : Nat) :
    Accepts mode config headerTd now header parent (some other) := by
  obtain ⟨⟨hnumber, htimestamp, hgas, hextra, hmerge, hwithdrawals, hblob, hrequests⟩, -⟩ :=
    (accepts_iff hlondon).mp h
  have hnext : calculateNextBaseFee mode parent = .ok none := by
    unfold calculateNextBaseFee
    rw [hnone]
  refine (accepts_iff hlondon).mpr ⟨⟨hnumber, htimestamp, hgas, hextra, hmerge, hwithdrawals,
    hblob, hrequests⟩, other, none, rfl, hnext, ?_⟩
  intro expected hexpected
  cases hexpected

theorem eq_of_accepts (hlondon : .london ≤ currentFork config headerTd header parent)
    (hwords : OfWords parent) {fee : Nat} (hfee : parent.baseFeePerGas = some fee)
    {baseFee : Option Nat} (h : Accepts mode config headerTd now header parent baseFee) :
    baseFee = some (wrappedBaseFee parent fee) := by
  obtain ⟨-, actual, next, rfl, hnext, hexpected⟩ := (accepts_iff hlondon).mp h
  rw [hexpected _ (eq_of_calculateNextBaseFee hwords hfee hnext)]

omit [BlockHashing] [Proofs] in
/-- With a base fee in the parent the two base fees have to agree. -/
theorem pinsBaseFee_iff {parentFork : Hardfork} (hwords : OfWords parent) {fee : Nat}
    (hfee : parent.baseFeePerGas = some fee) :
    PinsBaseFee parentFork parent ↔
      some (wrappedBaseFee parent fee) = eip1559BaseFee parentFork parent := by
  unfold PinsBaseFee eip1559BaseFee
  rw [hfee]
  split
  next =>
    constructor
    · rintro ⟨_, ⟨⟩, hlt⟩
      rw [Option.map_some, wrappedBaseFee_eq hlt]
    · intro hsame
      have heq : wrappedBaseFee parent fee = movedBaseFee parent fee := Option.some.inj hsame
      exact ⟨fee, rfl, heq ▸ wrappedBaseFee_lt hwords hfee⟩
  next =>
    constructor
    · rintro ⟨_, ⟨⟩, heq⟩
      rw [heq]
    · intro hsame
      exact ⟨fee, rfl, Option.some.inj hsame⟩

theorem enforcesBaseFee_iff (hwords : OfWords parent)
    (hlondon : .london ≤ currentFork config headerTd header parent)
    (haccepted : ∃ baseFee, Accepts mode config headerTd now header parent baseFee) :
    EnforcesBaseFee mode config headerTd now header parent ↔
      PinsBaseFee (ownFork config headerTd parent) parent := by
  obtain ⟨accepted, haccepted⟩ := haccepted
  cases hfee : parent.baseFeePerGas with
  | none =>
      constructor
      · intro henforced
        have hzero := henforced (some 0) (by rintro _ ⟨⟩; norm_num)
          (accepts_of_none hlondon hfee haccepted 0)
        have hone := henforced (some 1) (by rintro _ ⟨⟩; norm_num)
          (accepts_of_none hlondon hfee haccepted 1)
        rw [← hone] at hzero
        cases hzero
      · rintro ⟨fee, hsome, -⟩
        rw [hfee] at hsome
        cases hsome
  | some fee =>
      rw [pinsBaseFee_iff hwords hfee]
      have heq := eq_of_accepts hlondon hwords hfee haccepted
      constructor
      · intro henforced
        rw [← heq]
        refine henforced accepted ?_ haccepted
        rw [heq]
        rintro amount ⟨⟩
        exact wrappedBaseFee_lt hwords hfee
      · intro hsame baseFee _ haccepts
        rw [eq_of_accepts hlondon hwords hfee haccepts, hsame]

/-- Base fees are enforced as far as the parent has one that pins the next, and the next
base fee is computed without a fault after every parent of some size. -/
theorem baseFees_enforced_iff :
    (∀ (mode : Mode) (config : ChainConfig) (headerTd : Table B256 U256) (now : Nat)
        (header parent : Header), OfWords parent →
      .london ≤ currentFork config headerTd header parent →
      (∃ baseFee, Accepts mode config headerTd now header parent baseFee) →
        (EnforcesBaseFee mode config headerTd now header parent ↔
          PinsBaseFee (ownFork config headerTd parent) parent)) ∧
    ∀ (mode : Mode) (parent : Header), OfWords parent → 5000 ≤ parent.gasLimit →
      parent.gasUsed ≤ parent.gasLimit →
      (∀ baseFee, parent.baseFeePerGas = some baseFee → baseFee < 2 ^ 63) →
        calculateNextBaseFee mode parent =
          .ok (parent.baseFeePerGas.map (movedBaseFee parent)) := by
  refine ⟨?_, ?_⟩
  · intro mode config headerTd now header parent hwords hlondon haccepted
    exact enforcesBaseFee_iff hwords hlondon haccepted
  · intro mode parent hwords hlow hused hfee
    exact calculateNextBaseFee_ok hwords.gasLimit hlow hused hfee

end Enforced

section Sample

attribute [local instance] keccak keccakHashing keccakProofs

def londonConfig (block : Nat) : ChainConfig :=
  { (default : ChainConfig) with londonBlock := some block }

/-- The block before London, and one as full after it. -/
def transitionParent (baseFee : Option Nat) : Header :=
  { (default : Header) with
    number := 4
    gasLimit := 30000000
    gasUsed := 15000000
    baseFeePerGas := baseFee }

def transitionHeader (gasLimit : Nat) (baseFee : Option Nat) : Header :=
  { (default : Header) with
    number := 5
    timestamp := 12
    gasLimit
    baseFeePerGas := baseFee }

/-- A parent without a base fee lets every base fee through. -/
theorem not_enforcesBaseFee_transition :
    Hardfork.london ≤ currentFork (londonConfig 5) ∅ (transitionHeader 60000000 none)
        (transitionParent none) ∧
      Accepts .wrapping (londonConfig 5) ∅ 12 (transitionHeader 60000000 none)
        (transitionParent none) (some 7) ∧
      ¬ EnforcesBaseFee .wrapping (londonConfig 5) ∅ 12 (transitionHeader 60000000 none)
        (transitionParent none) := by
  have haccepts : Accepts .wrapping (londonConfig 5) ∅ 12 (transitionHeader 60000000 none)
      (transitionParent none) (some 7) := by
    unfold Accepts
    decide +kernel
  refine ⟨by decide +kernel, haccepts, fun henforces => ?_⟩
  have hseven := henforces (some 7) (by rintro _ ⟨⟩; decide) haccepts
  exact absurd hseven (by decide +kernel)

theorem baseFees_enforced_london :
    (EnforcesBaseFee .checked (londonConfig 0) ∅ 12 (transitionHeader 30000000 none)
        (transitionParent (some 7)) ↔
      PinsBaseFee .london (transitionParent (some 7))) ∧
      calculateNextBaseFee .exact (transitionParent (some 7)) = .ok (some 7) := by
  have hwords : OfWords (transitionParent (some 7)) :=
    ⟨by decide, by decide, by rintro _ ⟨⟩; decide⟩
  have haccepts : Accepts .checked (londonConfig 0) ∅ 12 (transitionHeader 30000000 none)
      (transitionParent (some 7)) (some 7) := by
    unfold Accepts
    decide +kernel
  have hfee : ∀ baseFee, (transitionParent (some 7)).baseFeePerGas = some baseFee →
      baseFee < 2 ^ 63 := by
    rintro _ ⟨⟩
    decide
  exact ⟨baseFees_enforced_iff.1 .checked (londonConfig 0) ∅ 12
      (transitionHeader 30000000 none) (transitionParent (some 7)) hwords (by decide +kernel)
      ⟨_, haccepts⟩,
    baseFees_enforced_iff.2 .exact (transitionParent (some 7)) hwords (by decide) (by decide)
      hfee⟩

end Sample

end Words

end EthConsensus

end WasixEth
