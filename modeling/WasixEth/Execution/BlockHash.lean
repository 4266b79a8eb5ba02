import WasixEth.Execution.Admissible

/-! # Hashes of earlier blocks

A contract may ask for the hash of an earlier block. The environment knows
none, so the answer comes from the storage of the history contract, a ring of
8192 slots. Executing a block does not write to the ring, and of the number
that is asked for only the lower 64 bits are looked at.
-/

namespace WasixEth

open Storage Routine BatchWriter

section Backend

variable [Keccak256]

/-! ## The backend -/

namespace SputnikBackend

/-- The hashes the environment knows: `prepare_execution_env` puts none in. -/
def blockHashes (_ : Environment) : Table U256 B256 := ∅

/-- `HISTORY_STORAGE_ADDRESS`. -/
def historyStorageAddress : Address :=
  ⟨[0x00, 0x00, 0xF9, 0x08, 0x27, 0xF1, 0xC5, 0x3A, 0x10, 0xCB, 0x7A, 0x02, 0x33, 0x5B, 0x17, 0x53,
    0x20, 0x00, 0x29, 0x35], rfl⟩

/-- The window of the history contract. -/
def historyWindow : Nat := 8192

/-- The target of an account whose code only names one. -/
def checkDelegation (backend : SputnikBackend) (address : Address) : Option Address := do
  let account ← backend.account address
  if account.codeHash = keccak256Empty then none
  else do
    let code ← backend.bytecode account.codeHash
    if h : [0xef, 0x01, 0x00].isPrefixOf code ∧ code.length = 23 then
      some ⟨code.drop 3, by rw [List.length_drop, h.2]⟩
    else none

/-- `SputnikBackend::storage`, which follows delegations for as long as there
are any. -/
def storageAt (backend : SputnikBackend) : Nat → Address → B256 → Option U256
  | 0, _, _ => none
  | fuel + 1, address, slot =>
      match backend.checkDelegation address with
      | some target => backend.storageAt fuel target slot
      | none => some (backend.storage address slot)

/-- Whether the ring is asked, in 64-bit arithmetic. -/
def inRing (current target : Nat) : Prop :=
  target < current ∧ current ≤ (target + historyWindow) % 2 ^ 64

instance (current target : Nat) : Decidable (inRing current target) :=
  inferInstanceAs (Decidable (_ ∧ _))

def blockHash (backend : SputnikBackend) (fuel : Nat) (number : U256) : Option U256 :=
  match (blockHashes backend.environment).get number with
  | some hash => some (BlockProcessor.wordOf hash)
  | none =>
      let target := number.toNat % 2 ^ 64
      let current := backend.environment.blockNumber % 2 ^ 64
      if inRing current target then
        backend.storageAt fuel historyStorageAddress (B256.ofNat (target % historyWindow))
      else some 0

/-! ## What is answered -/

/-- The call returns, with this answer. -/
def Answers (backend : SputnikBackend) (number : U256) (answer : U256) : Prop :=
  ∃ fuel, backend.blockHash fuel number = some answer

/-- The slot of the ring for a block is read as this value. -/
def HoldsSlot (backend : SputnikBackend) (target : Nat) (value : U256) : Prop :=
  ∃ fuel, backend.storageAt fuel historyStorageAddress (B256.ofNat (target % historyWindow)) =
    some value

variable {backend : SputnikBackend}

theorem storageAt_mono {fuel more : Nat} (hle : fuel ≤ more) {address : Address} {slot : B256}
    {value : U256} (h : backend.storageAt fuel address slot = some value) :
    backend.storageAt more address slot = some value := by
  induction fuel generalizing more address with
  | zero => cases h
  | succ fuel ih =>
      obtain ⟨more, rfl⟩ : ∃ n, more = n + 1 := ⟨more - 1, by omega⟩
      unfold storageAt at h ⊢
      cases hdelegation : backend.checkDelegation address with
      | none =>
          rw [hdelegation] at h
          exact h
      | some target =>
          rw [hdelegation] at h
          exact ih (by omega) h

/-- The ring has one value for a block. -/
theorem HoldsSlot.unique {target : Nat} {value value' : U256} (h : HoldsSlot backend target value)
    (h' : HoldsSlot backend target value') : value = value' := by
  obtain ⟨fuel, h⟩ := h
  obtain ⟨fuel', h'⟩ := h'
  have hmax := storageAt_mono (Nat.le_max_left fuel fuel') h
  rw [storageAt_mono (Nat.le_max_right fuel fuel') h'] at hmax
  exact (Option.some.inj hmax).symm

/-- The answer is what the ring holds, and zero where the ring is not asked. -/
theorem answers_iff {number answer : U256} :
    Answers backend number answer ↔
      if inRing (backend.environment.blockNumber % 2 ^ 64) (number.toNat % 2 ^ 64) then
        HoldsSlot backend (number.toNat % 2 ^ 64) answer
      else answer = 0 := by
  have hnone : (blockHashes backend.environment).get number = none := rfl
  unfold Answers blockHash
  simp only [hnone]
  split
  · rfl
  · constructor
    · rintro ⟨_, hzero⟩
      exact (Option.some.inj hzero).symm
    · rintro rfl
      exact ⟨0, rfl⟩

end SputnikBackend

/-! ## The chain -/

variable [BlockHashing]

/-- The headers from genesis up to the one below this header. -/
inductive ChainTo : List Header → Header → Prop
  | genesis {header : Header} (number : header.number = 0) : ChainTo [] header
  | child {chain : List Header} {parent header : Header} (below : ChainTo chain parent)
      (number : header.number = parent.number + 1) (parentHash : header.parentHash = hashSlow parent) :
      ChainTo (chain ++ [parent]) header

omit [Keccak256] in
theorem ChainTo.length {chain : List Header} {header : Header} (h : ChainTo chain header) :
    chain.length = header.number := by
  induction h with
  | genesis number => exact number.symm
  | child below number parentHash ih => rw [List.length_append, ih, number]; rfl

omit [Keccak256] in
/-- The header of a chain at a height has that number. -/
theorem ChainTo.number_of_getElem {chain : List Header} {header ancestor : Header}
    (h : ChainTo chain header) {height : Nat} (hget : chain[height]? = some ancestor) :
    ancestor.number = height := by
  induction h generalizing height with
  | genesis number => cases hget
  | @child chain parent header below number parentHash ih =>
      by_cases hlt : height < chain.length
      · rw [List.getElem?_append_left hlt] at hget
        exact ih hget
      · rw [List.getElem?_append_right (by omega)] at hget
        cases hrest : height - chain.length with
        | zero =>
            rw [hrest] at hget
            obtain rfl := Option.some.inj hget
            rw [← below.length]
            omega
        | succ k =>
            rw [hrest] at hget
            cases hget

/-- What is to be answered: the hashes of the last 256 ancestors. -/
def ancestorHash (chain : List Header) (current : Nat) (number : U256) : U256 :=
  if current ≤ number.toNat + 256 ∧ number.toNat < current then
    (chain[number.toNat]?.map fun ancestor => BlockProcessor.wordOf (hashSlow ancestor)).getD 0
  else 0

/-- Where a block is asked for an ancestor, the ring has to hold its hash; and
it has to hold nothing for the other numbers that lead to it. -/
def RingHolds (backend : SputnikBackend) (chain : List Header) (current : Nat) (number : U256) :
    Prop :=
  if SputnikBackend.inRing current (number.toNat % 2 ^ 64) then
    SputnikBackend.HoldsSlot backend (number.toNat % 2 ^ 64) (ancestorHash chain current number)
  else ancestorHash chain current number = 0

/-- Nothing is in the ring, and there is nothing to be answered. -/
structure NothingToAnswer (backend : SputnikBackend) (chain : List Header) (current : Nat) :
    Prop where
  ring : ∀ target < 2 ^ 64, SputnikBackend.inRing current target →
    SputnikBackend.HoldsSlot backend target 0
  hashes : ∀ ancestor ∈ chain, current ≤ ancestor.number + 256 →
    BlockProcessor.wordOf (hashSlow ancestor) = 0

omit [Keccak256] in
theorem ancestorHash_of_getElem {chain : List Header} {ancestor : Header} {current height : Nat}
    (hheight : height < 2 ^ 256) (hwindow : current ≤ height + 256) (hlt : height < current)
    (hget : chain[height]? = some ancestor) :
    ancestorHash chain current (BitVec.ofNat 256 height) =
      BlockProcessor.wordOf (hashSlow ancestor) := by
  have hnat : (BitVec.ofNat 256 height).toNat = height := by
    rw [BitVec.toNat_ofNat, Nat.mod_eq_of_lt hheight]
  unfold ancestorHash
  rw [hnat, if_pos ⟨hwindow, hlt⟩, hget]
  rfl

theorem ancestorHash_eq_zero {backend : SputnikBackend} {chain : List Header} {header : Header}
    (hchain : ChainTo chain header) (h : NothingToAnswer backend chain header.number)
    (number : U256) : ancestorHash chain header.number number = 0 := by
  unfold ancestorHash
  split
  next hwindow =>
    cases hget : chain[number.toNat]? with
    | none => rfl
    | some ancestor =>
        refine h.hashes ancestor (List.mem_of_getElem? hget) ?_
        rw [hchain.number_of_getElem hget]
        exact hwindow.1
  · rfl

/-- The numbers that differ by a multiple of 2^64 get the same answer, so all
are answered as they should be only if that is zero. -/
theorem forall_ringHolds_iff {backend : SputnikBackend} {chain : List Header} {header : Header}
    (hchain : ChainTo chain header) (hnumber : header.number < 2 ^ 64) :
    (∀ number, RingHolds backend chain header.number number) ↔
      NothingToAnswer backend chain header.number := by
  constructor
  · intro hall
    have hring : ∀ target < 2 ^ 64, SputnikBackend.inRing header.number target →
        SputnikBackend.HoldsSlot backend target 0 := by
      intro target htarget hin
      have hnat : (BitVec.ofNat 256 (target + 2 ^ 64)).toNat = target + 2 ^ 64 := by
        rw [BitVec.toNat_ofNat]
        exact Nat.mod_eq_of_lt (by omega)
      have hfar := hall (BitVec.ofNat 256 (target + 2 ^ 64))
      unfold RingHolds ancestorHash at hfar
      rw [hnat, Nat.add_mod_right, Nat.mod_eq_of_lt htarget, if_pos hin,
        if_neg (by omega : ¬ (_ ∧ _))] at hfar
      exact hfar
    refine ⟨hring, ?_⟩
    intro ancestor hmem hwindow
    obtain ⟨height, hget⟩ := List.mem_iff_getElem?.mp hmem
    have hheight := hchain.number_of_getElem hget
    have hlt : height < header.number := by
      rw [← hchain.length]
      exact (List.getElem?_eq_some_iff.mp hget).1
    rw [hheight] at hwindow
    have hnear := hall (BitVec.ofNat 256 height)
    have hnat : (BitVec.ofNat 256 height).toNat % 2 ^ 64 = height := by
      rw [BitVec.toNat_ofNat]
      omega
    unfold RingHolds at hnear
    rw [hnat, ancestorHash_of_getElem (by omega) hwindow hlt hget] at hnear
    split at hnear
    next hin => exact hnear.unique (hring height (by omega) hin)
    · exact hnear
  · intro hnothing number
    unfold RingHolds
    rw [ancestorHash_eq_zero hchain hnothing]
    split
    next hin => exact hnothing.ring _ (Nat.mod_lt _ (by decide)) hin
    · rfl

/-- Whatever state a block is executed on, a number is answered as it should be
exactly if the ring holds the answer, and all numbers are exactly if there is
nothing to be answered. -/
theorem blockHash_right_iff [Evm] (provider : EthExecutionProvider) (database : Database)
    (chain : List Header) (header : Header) (root : Option B256) (tx : Transaction)
    (sender : Address) (batch : BatchWriter) (hchain : ChainTo chain header)
    (hnumber : header.number < 2 ^ 64) :
    (∀ number,
      ((provider.executorFor database header root).prepareBackend tx sender batch).Answers number
          (ancestorHash chain header.number number) ↔
        RingHolds ((provider.executorFor database header root).prepareBackend tx sender batch)
          chain header.number number) ∧
    ((∀ number,
      ((provider.executorFor database header root).prepareBackend tx sender batch).Answers number
        (ancestorHash chain header.number number)) ↔
      NothingToAnswer ((provider.executorFor database header root).prepareBackend tx sender batch)
        chain header.number) := by
  have henv : ((provider.executorFor database header root).prepareBackend tx sender
      batch).environment.blockNumber % 2 ^ 64 = header.number := by
    unfold TransactionExecutor.prepareBackend
    dsimp only
    split
    · exact Nat.mod_eq_of_lt hnumber
    · exact Nat.mod_eq_of_lt hnumber
  generalize (provider.executorFor database header root).prepareBackend tx sender batch = backend
    at henv ⊢
  have hone : ∀ number, backend.Answers number (ancestorHash chain header.number number) ↔
      RingHolds backend chain header.number number := by
    intro number
    rw [SputnikBackend.answers_iff, henv]
    rfl
  exact ⟨hone, (forall_congr' hone).trans (forall_ringHolds_iff hchain hnumber)⟩

end Backend

section Sample

attribute [local instance] keccak keccakHashing idleEvm

open EthExecutionProvider SputnikBackend

/-- What a block of the samples is executed on, when nothing has been written. -/
def sampleBackend (header : Header) : SputnikBackend :=
  (executorFor ⟨sampleConfig, .inOrder⟩ emptyDatabase header (some emptyRootHash)).prepareBackend
    default default (beginBatch .inOrder emptyDatabase)

/-- The genesis block has no ancestors. -/
theorem blockHash_right_genesis :
    (sampleBackend genesisHeader).Answers 7 (ancestorHash [] genesisHeader.number 7) := by
  refine (blockHash_right_iff ⟨sampleConfig, .inOrder⟩ emptyDatabase []
    genesisHeader (some emptyRootHash) default default _ (.genesis rfl) (by decide)).2.mpr
      ⟨?_, ?_⟩ 7
  · rintro target - ⟨hlt, -⟩
    exact absurd hlt (Nat.not_lt_zero target)
  · intro ancestor hmem
    cases hmem

/-- The first block asks for the hash of the genesis block and gets zero. -/
theorem blockHash_zero_first :
    ChainTo [genesisHeader] firstHeader ∧ (sampleBackend firstHeader).Answers 0 0 ∧
      ¬ (sampleBackend firstHeader).Answers 0
        (ancestorHash [genesisHeader] firstHeader.number 0) := by
  have hchain : ChainTo [genesisHeader] firstHeader := by
    change ChainTo ([] ++ [genesisHeader]) firstHeader
    refine .child (.genesis rfl) rfl ?_
    rw [← sampleHashing_eq]
    decide +kernel
  have hzero : HoldsSlot (sampleBackend firstHeader) 0 0 := ⟨1, by decide +kernel⟩
  have hanswers : ∀ answer, (sampleBackend firstHeader).Answers 0 answer ↔
      HoldsSlot (sampleBackend firstHeader) 0 answer := fun _ => answers_iff.trans (by rfl)
  refine ⟨hchain, (hanswers 0).mpr hzero, ?_⟩
  rw [hanswers]
  intro hhash
  have hne : ancestorHash [genesisHeader] firstHeader.number 0 ≠ 0 := by
    rw [← sampleHashing_eq]
    decide +kernel
  exact hne (hhash.unique hzero)

end Sample

end WasixEth
