import WasixEth.Lib.Machine
import WasixEth.Lib.RlpItem
import WasixEth.Lib.Slices
import WasixEth.Types

/-! # Deposits out of logs

The deposit contract logs five byte strings, with an offset for each of them in front. An
offset and a length are 256-bit numbers. Both are turned into indices and added up before they
are compared with the data, so a number that is no index stops the program instead of being
refused.
-/

namespace WasixEth.Deposits

open Machine Rlp Slices

/-- The machines that the client is built for. -/
inductive Target
  | wasm32
  | native64
  deriving DecidableEq

def Target.usizeBits : Target → Nat
  | wasm32 => 32
  | native64 => 64

inductive Panic
  | conversion
  | arithmetic (fault : Fault)
  | slice
  deriving DecidableEq

structure DepositRequest where
  pubkey : FixedBytes 48
  withdrawalCredentials : B256
  amount : Nat
  signature : FixedBytes 96
  index : Nat
  deriving DecidableEq

/-- `u64::from_le_bytes`. -/
def fromLeBytes (bytes : Bytes) : Nat := fromBytes bytes.reverse

/-! ## The decoder -/

section Decoder

variable (mode : Mode) (target : Target)

/-- `U256::to::<usize>`. -/
def toUsize (n : Nat) : Except Panic Nat :=
  if n < 2 ^ target.usizeBits then .ok n else .error .conversion

def addUsize (a b : Nat) : Except Panic Nat :=
  (add mode target.usizeBits a b).mapError .arithmetic

/-- `U256::from_be_slice(&data[start..stop]).to::<usize>()`. -/
def readUsize (data : Bytes) (start stop : Nat) : Except Panic Nat := do
  let word ← slice Panic.slice data start stop
  toUsize target (fromBytes word)

/-- The bytes of one field. -/
def fieldData (data : Bytes) (i : Fin 5) : ExceptT String (Except Panic) Bytes := do
  let offset ← readUsize target data (i * 32) ((i + 1) * 32)
  let start ← addUsize mode target offset 32
  if data.length < start then throw "Invalid offset in deposit log" else do
  let len ← readUsize target data offset start
  let stop ← addUsize mode target start len
  if data.length < stop then throw "Invalid length in deposit log" else
  slice Panic.slice data start stop

/-- A check that stops nothing. -/
def liftExcept {α : Type} (check : Except String α) : ExceptT String (Except Panic) α :=
  ExceptT.mk (.ok check)

def storeField (i : Fin 5) (field : Bytes) (deposit : DepositRequest) :
    Except String DepositRequest :=
  match i with
  | 0 =>
      if h : field.length = 48 then .ok { deposit with pubkey := ⟨field, h⟩ }
      else .error "Invalid pubkey length"
  | 1 =>
      if h : field.length = 32 then .ok { deposit with withdrawalCredentials := ⟨field, h⟩ }
      else .error "Invalid withdrawal_credentials length"
  | 2 =>
      if field.length = 8 then .ok { deposit with amount := fromLeBytes field }
      else .error "Invalid amount length"
  | 3 =>
      if h : field.length = 96 then .ok { deposit with signature := ⟨field, h⟩ }
      else .error "Invalid signature length"
  | 4 =>
      if field.length = 8 then .ok { deposit with index := fromLeBytes field }
      else .error "Invalid index length"

def zeroDeposit : DepositRequest where
  pubkey := ⟨List.replicate 48 0, List.length_replicate⟩
  withdrawalCredentials := B256.zero
  amount := 0
  signature := ⟨List.replicate 96 0, List.length_replicate⟩
  index := 0

/-- One turn of the loop over the fields. -/
def decodeField (data : Bytes) (deposit : DepositRequest) (i : Fin 5) :
    ExceptT String (Except Panic) DepositRequest := do
  let field ← fieldData mode target data i
  liftExcept (storeField i field deposit)

def decodeDepositLog (data : Bytes) : ExceptT String (Except Panic) DepositRequest :=
  if data.length < 160 then throw "Invalid deposit log data length"
  else (List.finRange 5).foldlM (decodeField mode target data) zeroDeposit

/-- `DEPOSIT_EVENT_SIGNATURE`. -/
def depositEventSignature : B256 :=
  ⟨[0x64, 0x9b, 0xbe, 0x30, 0xd5, 0xd0, 0x36, 0x23, 0x72, 0x48, 0x06, 0x4a, 0x38, 0xd5, 0x8c, 0x14,
    0x2c, 0x30, 0x98, 0x52, 0x89, 0x94, 0x53, 0x9a, 0x82, 0x04, 0x64, 0x65, 0x49, 0x41, 0x91, 0xc0],
    by decide⟩

variable (depositContract : Address)

/-- A log that the deposit contract has written about a deposit. -/
def IsDeposit (log : Log) : Prop :=
  log.address = depositContract ∧ log.topics.head? = some depositEventSignature

instance : DecidablePred (IsDeposit depositContract) :=
  fun _ => inferInstanceAs (Decidable (_ ∧ _))

def collectLog (deposits : List DepositRequest) (log : Log) :
    Except Panic (List DepositRequest) := do
  if IsDeposit depositContract log then
    match ← (decodeDepositLog mode target log.data).run with
    | .ok deposit => return deposits ++ [deposit]
    | .error _ => return deposits
  else return deposits

def collectDeposits (receipts : List Receipt) : Except Panic (List DepositRequest) :=
  receipts.foldlM (fun deposits receipt =>
    receipt.logs.foldlM (collectLog mode target depositContract) deposits) []

end Decoder

/-! ## What the data holds -/

def fieldLength (i : Fin 5) : Nat :=
  match i with
  | 0 => 48
  | 1 => 32
  | 2 => 8
  | 3 => 96
  | 4 => 8

/-- The offset of a field points to a length, which that many bytes follow. -/
def FieldAt (data : Bytes) (i : Fin 5) (field : Bytes) : Prop :=
  ∃ offsetWord lenWord : Bytes, offsetWord.length = 32 ∧ lenWord.length = 32 ∧
    At data (i * 32) offsetWord ∧ At data (fromBytes offsetWord) (lenWord ++ field) ∧
    fromBytes lenWord = field.length

/-- The data is the five fields of the deposit, each of its length. -/
structure Holds (data : Bytes) (deposit : DepositRequest) : Prop where
  pubkey : FieldAt data 0 deposit.pubkey.bytes
  withdrawalCredentials : FieldAt data 1 deposit.withdrawalCredentials.bytes
  amount : ∃ field, FieldAt data 2 field ∧ field.length = 8 ∧ deposit.amount = fromLeBytes field
  signature : FieldAt data 3 deposit.signature.bytes
  index : ∃ field, FieldAt data 4 field ∧ field.length = 8 ∧ deposit.index = fromLeBytes field

/-- The number in the 32 bytes from a position on. -/
def wordAt (data : Bytes) (position : Nat) : Nat := fromBytes (window data position 32)

def offsetAt (data : Bytes) (i : Fin 5) : Nat := wordAt data (i * 32)

/-- The numbers of one field are indices, and so are their sums. -/
structure Fits (target : Target) (data : Bytes) (i : Fin 5) : Prop where
  offset : offsetAt data i + 32 < 2 ^ target.usizeBits
  len : offsetAt data i + 32 ≤ data.length →
    offsetAt data i + 32 + wordAt data (offsetAt data i) < 2 ^ target.usizeBits

/-- The numbers of the fields are indices as far as the fields before them are in place. -/
def Convertible (target : Target) (data : Bytes) : List (Fin 5) → Prop
  | [] => True
  | i :: rest => Fits target data i ∧
      ((∃ field, FieldAt data i field ∧ field.length = fieldLength i) →
        Convertible target data rest)

/-! ## Reading with numbers of any size -/

/-- The bytes of one field, as they would be read if every number were an index. -/
def exactField (data : Bytes) (i : Fin 5) : Except String Bytes :=
  if data.length < offsetAt data i + 32 then .error "Invalid offset in deposit log"
  else if data.length < offsetAt data i + 32 + wordAt data (offsetAt data i) then
    .error "Invalid length in deposit log"
  else .ok (window data (offsetAt data i + 32) (wordAt data (offsetAt data i)))

def exactStep (data : Bytes) (deposit : DepositRequest) (i : Fin 5) :
    Except String DepositRequest :=
  exactField data i >>= fun field => storeField i field deposit

section Reading

variable {mode : Mode} {target : Target} {data : Bytes} {i : Fin 5} {field : Bytes}
  {deposit deposit' : DepositRequest}

theorem index_le (hlen : 160 ≤ data.length) (i : Fin 5) : i * 32 + 32 ≤ data.length := by
  omega

theorem exactField_eq_ok (hlen : 160 ≤ data.length) :
    exactField data i = .ok field ↔ FieldAt data i field := by
  have hindex := index_le hlen i
  unfold exactField
  constructor
  · intro hread
    split at hread
    · cases hread
    next hstart =>
      split at hread
      · cases hread
      next hstop =>
        cases hread
        have hstart := Nat.not_lt.mp hstart
        have hstop := Nat.not_lt.mp hstop
        have hword := length_window hstart
        refine ⟨window data (i * 32) 32, window data (offsetAt data i) 32, length_window hindex,
          hword, at_window hindex, at_append.mpr ⟨at_window hstart, ?_⟩,
          (length_window hstop).symm⟩
        rw [hword]
        exact at_window hstop
  · rintro ⟨offsetWord, lenWord, hoffset, hword, hat, hfield, hlength⟩
    obtain ⟨hlenAt, hfieldAt⟩ := at_append.mp hfield
    have hbound := hfield.bound
    have hoffsetEq : offsetAt data i = fromBytes offsetWord := by
      rw [offsetAt, wordAt, hat.window_eq hoffset]
    have hlenEq : wordAt data (fromBytes offsetWord) = field.length := by
      rw [wordAt, hlenAt.window_eq hword, hlength]
    rw [List.length_append, hword] at hbound
    rw [hword] at hfieldAt
    rw [hoffsetEq, hlenEq, if_neg (by omega), if_neg (by omega), hfieldAt.window_eq rfl]

theorem FieldAt.unique {other : Bytes} (hlen : 160 ≤ data.length) (hfield : FieldAt data i field)
    (hother : FieldAt data i other) : field = other :=
  Except.ok.inj <| ((exactField_eq_ok hlen).mpr hfield).symm.trans
    ((exactField_eq_ok hlen).mpr hother)

theorem exactStep_eq_ok (hlen : 160 ≤ data.length) :
    exactStep data deposit i = .ok deposit' ↔
      ∃ field, FieldAt data i field ∧ storeField i field deposit = .ok deposit' := by
  unfold exactStep
  cases hread : exactField data i with
  | error message =>
      refine ⟨nofun, fun ⟨field, hfield, _⟩ => ?_⟩
      rw [(exactField_eq_ok hlen).mpr hfield] at hread
      cases hread
  | ok field =>
      have hfield := (exactField_eq_ok hlen).mp hread
      refine ⟨fun hstore => ⟨field, hfield, hstore⟩, fun ⟨other, hother, hstore⟩ => ?_⟩
      rw [← hother.unique hlen hfield]
      exact hstore

/-! ### The fields of a deposit -/

/-- The deposit has these bytes in a field. -/
def Stores (deposit : DepositRequest) (i : Fin 5) (field : Bytes) : Prop :=
  match i with
  | 0 => field = deposit.pubkey.bytes
  | 1 => field = deposit.withdrawalCredentials.bytes
  | 2 => field.length = 8 ∧ deposit.amount = fromLeBytes field
  | 3 => field = deposit.signature.bytes
  | 4 => field.length = 8 ∧ deposit.index = fromLeBytes field

theorem holds_iff : Holds data deposit ↔ ∀ i, ∃ field, FieldAt data i field ∧
    Stores deposit i field := by
  constructor
  · intro hholds i
    match i with
    | 0 => exact ⟨_, hholds.pubkey, rfl⟩
    | 1 => exact ⟨_, hholds.withdrawalCredentials, rfl⟩
    | 2 => exact hholds.amount
    | 3 => exact ⟨_, hholds.signature, rfl⟩
    | 4 => exact hholds.index
  · intro h
    obtain ⟨_, hpubkey, rfl⟩ := h 0
    obtain ⟨_, hcredentials, rfl⟩ := h 1
    obtain ⟨_, hsignature, rfl⟩ := h 3
    exact ⟨hpubkey, hcredentials, h 2, hsignature, h 4⟩

theorem Stores.ext {fields : Fin 5 → Bytes} (h : ∀ i, Stores deposit i (fields i))
    (h' : ∀ i, Stores deposit' i (fields i)) : deposit = deposit' := by
  obtain ⟨⟨pubkey, _⟩, ⟨credentials, _⟩, amount, ⟨signature, _⟩, index⟩ := deposit
  obtain ⟨⟨pubkey', _⟩, ⟨credentials', _⟩, amount', ⟨signature', _⟩, index'⟩ := deposit'
  obtain rfl : pubkey = pubkey' := (h 0).symm.trans (h' 0)
  obtain rfl : credentials = credentials' := (h 1).symm.trans (h' 1)
  obtain rfl : amount = amount' := (h 2).2.trans (h' 2).2.symm
  obtain rfl : signature = signature' := (h 3).symm.trans (h' 3)
  obtain rfl : index = index' := (h 4).2.trans (h' 4).2.symm
  rfl

/-- A field of the right length is stored, and the others are left as they were. -/
theorem storeField_eq_ok (h : storeField i field deposit = .ok deposit') :
    field.length = fieldLength i ∧ Stores deposit' i field ∧
      ∀ j ≠ i, ∀ other, Stores deposit j other → Stores deposit' j other := by
  unfold storeField at h
  split at h <;> split at h <;> cases h
  all_goals
    rename_i hlength
    refine ⟨hlength, by first | rfl | exact ⟨hlength, rfl⟩, fun j hne other hstores => ?_⟩
    unfold Stores at hstores
    split at hstores <;> first | exact hstores | exact absurd rfl hne

theorem exists_storeField (h : field.length = fieldLength i) (deposit : DepositRequest) :
    ∃ deposit', storeField i field deposit = .ok deposit' := by
  unfold storeField
  unfold fieldLength at h
  split <;> exact ⟨_, dif_pos h⟩

theorem Stores.length (h : Stores deposit i field) : field.length = fieldLength i := by
  unfold Stores at h
  split at h
  · exact h ▸ deposit.pubkey.length_eq
  · exact h ▸ deposit.withdrawalCredentials.length_eq
  · exact h.1
  · exact h ▸ deposit.signature.length_eq
  · exact h.1

/-! ## Where every number is an index -/

theorem addUsize_of_lt {a b : Nat} (h : a + b < 2 ^ target.usizeBits) :
    addUsize mode target a b = .ok (a + b) := by
  rw [addUsize, add_of_lt h]
  rfl

theorem readUsize_eq {position : Nat} (h : position + 32 ≤ data.length) :
    readUsize target data position (position + 32) =
      toUsize target (wordAt data position) := by
  rw [readUsize, slice_of_le h]
  rfl

theorem readUsize_index (hlen : 160 ≤ data.length) (i : Fin 5) :
    readUsize target data (i * 32) ((i + 1) * 32) = toUsize target (offsetAt data i) := by
  rw [Nat.add_mul, Nat.one_mul, readUsize_eq (index_le hlen i), offsetAt]

theorem toUsize_of_lt {n : Nat} (h : n < 2 ^ target.usizeBits) : toUsize target n = .ok n :=
  if_pos h

theorem run_bind_ok {α β : Type} {x : Except Panic α} {a : α}
    {f : α → ExceptT String (Except Panic) β} (h : x = .ok a) :
    (liftM x >>= f).run = (f a).run := by
  subst x
  rfl

theorem run_bind_error {α β : Type} {x : Except Panic α} {panic : Panic}
    {f : α → ExceptT String (Except Panic) β} (h : x = .error panic) :
    (liftM x >>= f).run = .error panic := by
  subst x
  rfl

theorem run_ite {α : Type} {c : Prop} [Decidable c] {x y : ExceptT String (Except Panic) α} :
    (if c then x else y).run = if c then x.run else y.run := by
  split <;> rfl

theorem fieldData_of_fits (hlen : 160 ≤ data.length) (hfits : Fits target data i) :
    (fieldData mode target data i).run = .ok (exactField data i) := by
  have hoffset := hfits.offset
  have hread : readUsize target data (i * 32) ((i + 1) * 32) = .ok (offsetAt data i) := by
    rw [readUsize_index hlen, toUsize_of_lt (Nat.lt_of_add_right_lt hoffset)]
  unfold fieldData exactField
  rw [run_bind_ok hread, run_bind_ok (addUsize_of_lt hoffset), run_ite]
  split
  · rfl
  next hstart =>
    have hstart := Nat.not_lt.mp hstart
    have hsum := hfits.len hstart
    have hlen : readUsize target data (offsetAt data i) (offsetAt data i + 32) =
        .ok (wordAt data (offsetAt data i)) := by
      rw [readUsize_eq hstart, toUsize_of_lt (Nat.lt_of_add_left_lt hsum)]
    rw [run_bind_ok hlen, run_bind_ok (addUsize_of_lt hsum), run_ite]
    split
    · rfl
    next hstop =>
      rw [slice_of_le (Nat.not_lt.mp hstop)]
      rfl

/-! ## Where one is not -/

theorem two_pow_gt (target : Target) : 64 < 2 ^ target.usizeBits := by
  cases target <;> decide

/-- A sum that is no index stops the program, or it wraps around to an index before the one it
was to start from. -/
theorem addUsize_of_ge (mode : Mode) {a b : Nat} (ha : a < 2 ^ target.usizeBits)
    (hb : b < 2 ^ target.usizeBits) (h : 2 ^ target.usizeBits ≤ a + b) :
    (∃ panic, addUsize mode target a b = .error panic) ∨
      ∃ sum, addUsize mode target a b = .ok sum ∧ sum < a ∧ sum < b := by
  by_cases hmode : mode = .wrapping
  · subst hmode
    have hsum : (a + b) % 2 ^ target.usizeBits = a + b - 2 ^ target.usizeBits := by
      rw [Nat.mod_eq_sub_mod h, Nat.mod_eq_of_lt (by omega)]
    refine .inr ⟨a + b - 2 ^ target.usizeBits, ?_, by omega, by omega⟩
    rw [addUsize, add_wrapping, hsum]
    rfl
  · refine .inl ⟨.arithmetic .overflow, ?_⟩
    rw [addUsize, add_of_le hmode h]
    rfl

theorem panics_fieldData (mode : Mode) (hlen : 160 ≤ data.length) (hfits : ¬ Fits target data i) :
    ∃ panic, (fieldData mode target data i).run = .error panic := by
  have hwide := two_pow_gt target
  unfold fieldData
  -- The numbers come up in this order: the offset, where its word ends, the length, where the
  -- field ends. The first that is no index decides.
  by_cases hindex : offsetAt data i < 2 ^ target.usizeBits
  swap
  · refine ⟨.conversion, run_bind_error ?_⟩
    rw [readUsize_index hlen]
    exact if_neg hindex
  have hread : readUsize target data (i * 32) ((i + 1) * 32) = .ok (offsetAt data i) := by
    rw [readUsize_index hlen, toUsize_of_lt hindex]
  rw [run_bind_ok hread]
  by_cases hoffset : offsetAt data i + 32 < 2 ^ target.usizeBits
  swap
  · obtain ⟨panic, hadd⟩ | ⟨start, hadd, hlt, hsmall⟩ :=
      addUsize_of_ge mode hindex (by omega) (Nat.not_lt.mp hoffset)
    · exact ⟨panic, run_bind_error hadd⟩
    · refine ⟨.slice, ?_⟩
      -- The sum wrapped around to less than 32, which is no more than the data has.
      rw [run_bind_ok hadd, run_ite, if_neg (by omega)]
      apply run_bind_error
      rw [readUsize, slice_of_lt hlt]
      rfl
  rw [run_bind_ok (addUsize_of_lt hoffset), run_ite]
  have hlenFits : ¬ (offsetAt data i + 32 ≤ data.length →
      offsetAt data i + 32 + wordAt data (offsetAt data i) < 2 ^ target.usizeBits) :=
    fun hlen => hfits ⟨hoffset, hlen⟩
  obtain ⟨hstart, hsum⟩ := Classical.not_imp.mp hlenFits
  rw [if_neg (Nat.not_lt.mpr hstart)]
  by_cases hword : wordAt data (offsetAt data i) < 2 ^ target.usizeBits
  swap
  · refine ⟨.conversion, run_bind_error ?_⟩
    rw [readUsize_eq hstart]
    exact if_neg hword
  have hlenRead : readUsize target data (offsetAt data i) (offsetAt data i + 32) =
      .ok (wordAt data (offsetAt data i)) := by
    rw [readUsize_eq hstart, toUsize_of_lt hword]
  rw [run_bind_ok hlenRead]
  obtain ⟨panic, hadd⟩ | ⟨stop, hadd, hlt, -⟩ :=
    addUsize_of_ge mode hoffset hword (Nat.not_lt.mp hsum)
  · exact ⟨panic, run_bind_error hadd⟩
  · refine ⟨.slice, ?_⟩
    rw [run_bind_ok hadd, run_ite, if_neg (by omega), slice_of_lt hlt]
    rfl

/-! ## Whole logs -/

/-- A log, as it would be read if every number were an index. -/
def exactLog (data : Bytes) : Except String DepositRequest :=
  (List.finRange 5).foldlM (exactStep data) zeroDeposit

theorem run_bind_check {α β : Type} {x : ExceptT String (Except Panic) α}
    {check : Except String α} {f : α → ExceptT String (Except Panic) β} (h : x.run = .ok check) :
    (x >>= f).run = (liftExcept check >>= f).run := by
  rw [ExceptT.run_bind, h]
  rfl

theorem decodeField_of_fits (hlen : 160 ≤ data.length) (hfits : Fits target data i) :
    (decodeField mode target data deposit i).run = .ok (exactStep data deposit i) := by
  rw [decodeField, run_bind_check (fieldData_of_fits hlen hfits), exactStep]
  cases exactField data i <;> rfl

theorem panics_decodeField (mode : Mode) (deposit : DepositRequest)
    (hlen : 160 ≤ data.length) (hfits : ¬ Fits target data i) :
    ∃ panic, (decodeField mode target data deposit i).run = .error panic := by
  obtain ⟨panic, hpanic⟩ := panics_fieldData mode hlen hfits
  refine ⟨panic, ?_⟩
  rw [decodeField, ExceptT.run_bind, hpanic]
  rfl

theorem inPlace_of_exactStep (hlen : 160 ≤ data.length)
    (h : exactStep data deposit i = .ok deposit') :
    ∃ field, FieldAt data i field ∧ field.length = fieldLength i := by
  obtain ⟨field, hfield, hstore⟩ := (exactStep_eq_ok hlen).mp h
  exact ⟨field, hfield, (storeField_eq_ok hstore).1⟩

theorem run_foldlM (hlen : 160 ≤ data.length) {fields : List (Fin 5)}
    (h : Convertible target data fields) :
    (fields.foldlM (decodeField mode target data) deposit).run =
      .ok (fields.foldlM (exactStep data) deposit) := by
  induction fields generalizing deposit with
  | nil => rfl
  | cons i fields ih =>
      rw [List.foldlM_cons, run_bind_check (decodeField_of_fits hlen h.1), List.foldlM_cons]
      cases hstep : exactStep data deposit i with
      | error message => rfl
      | ok deposit' => exact ih (h.2 (inPlace_of_exactStep hlen hstep))

theorem panics_foldlM (hlen : 160 ≤ data.length) {fields : List (Fin 5)}
    (h : ¬ Convertible target data fields) :
    ∃ panic, (fields.foldlM (decodeField mode target data) deposit).run = .error panic := by
  induction fields generalizing deposit with
  | nil => exact absurd trivial h
  | cons i fields ih =>
      rw [List.foldlM_cons]
      by_cases hfits : Fits target data i
      · have hrest := not_and.mp h hfits
        obtain ⟨⟨field, hfield, hlength⟩, hrest⟩ := Classical.not_imp.mp hrest
        obtain ⟨deposit', hstore⟩ := exists_storeField hlength deposit
        have hstep := (exactStep_eq_ok hlen).mpr ⟨field, hfield, hstore⟩
        rw [run_bind_check (decodeField_of_fits hlen hfits), hstep]
        exact ih hrest
      · obtain ⟨panic, hpanic⟩ := panics_decodeField mode deposit hlen hfits
        refine ⟨panic, ?_⟩
        rw [ExceptT.run_bind, hpanic]
        rfl

/-- Every field that was read is stored, and stays so. -/
theorem stores_foldlM (hlen : 160 ≤ data.length) {fields : List (Fin 5)} (hnodup : fields.Nodup)
    (h : fields.foldlM (exactStep data) deposit = .ok deposit') :
    (∀ j ∈ fields, ∃ field, FieldAt data j field ∧ Stores deposit' j field) ∧
      ∀ j ∉ fields, ∀ field, Stores deposit j field → Stores deposit' j field := by
  induction fields generalizing deposit with
  | nil =>
      cases h
      exact ⟨fun j hmem => absurd hmem List.not_mem_nil, fun _ _ _ hstores => hstores⟩
  | cons i fields ih =>
      obtain ⟨hnot, hnodup⟩ := List.nodup_cons.mp hnodup
      rw [List.foldlM_cons] at h
      cases hstep : exactStep data deposit i with
      | error message =>
          rw [hstep] at h
          cases h
      | ok next =>
          rw [hstep] at h
          obtain ⟨field, hfield, hstore⟩ := (exactStep_eq_ok hlen).mp hstep
          obtain ⟨-, hstored, hframe⟩ := storeField_eq_ok hstore
          -- No field after this one is the same, so what was stored here is kept.
          obtain ⟨hread, hkept⟩ := ih hnodup h
          refine ⟨fun j hmem => ?_, fun j hout other hstores => ?_⟩
          · rcases List.mem_cons.mp hmem with rfl | hmem
            · exact ⟨field, hfield, hkept j hnot field hstored⟩
            · exact hread j hmem
          · obtain ⟨hne, hout⟩ := List.ne_and_not_mem_of_not_mem_cons hout
            exact hkept j hout other (hframe j hne other hstores)

theorem exists_foldlM (hlen : 160 ≤ data.length) (fields : List (Fin 5))
    (h : ∀ i, ∃ field, FieldAt data i field ∧ field.length = fieldLength i)
    (deposit : DepositRequest) :
    ∃ deposit', fields.foldlM (exactStep data) deposit = .ok deposit' := by
  induction fields generalizing deposit with
  | nil => exact ⟨deposit, rfl⟩
  | cons i fields ih =>
      obtain ⟨field, hfield, hlength⟩ := h i
      obtain ⟨next, hstore⟩ := exists_storeField hlength deposit
      rw [List.foldlM_cons, (exactStep_eq_ok hlen).mpr ⟨field, hfield, hstore⟩]
      exact ih next

theorem Holds.length (h : Holds data deposit) : 160 ≤ data.length := by
  obtain ⟨_, ⟨offsetWord, _, hoffset, -, hat, -⟩, -⟩ := h.index
  have hbound := hat.bound
  rw [hoffset] at hbound
  exact hbound

theorem exactLog_eq_ok (hlen : 160 ≤ data.length) :
    exactLog data = .ok deposit ↔ Holds data deposit := by
  have hread : ∀ {result}, exactLog data = .ok result → Holds data result := fun hresult =>
    holds_iff.mpr fun i =>
      (stores_foldlM hlen (List.nodup_finRange 5) hresult).1 i (List.mem_finRange i)
  refine ⟨hread, fun hholds => ?_⟩
  -- A deposit is read, and no two deposits have the same fields.
  choose fields hfields hstores using holds_iff.mp hholds
  obtain ⟨result, hresult⟩ := exists_foldlM hlen (List.finRange 5)
    (fun i => ⟨fields i, hfields i, (hstores i).length⟩) zeroDeposit
  have hsame : ∀ i, Stores result i (fields i) := by
    intro i
    obtain ⟨field, hfield, hstored⟩ := holds_iff.mp (hread hresult) i
    rw [(hfields i).unique hlen hfield]
    exact hstored
  rw [Stores.ext hstores hsame]
  exact hresult

/-- The deposit that a log holds. -/
def depositOf (data : Bytes) : Option DepositRequest :=
  if data.length < 160 then none else (exactLog data).toOption

theorem depositOf_eq_some : depositOf data = some deposit ↔ Holds data deposit := by
  unfold depositOf
  split
  next hshort =>
    exact ⟨nofun, fun hholds => absurd hholds.length (Nat.not_le.mpr hshort)⟩
  next hlen =>
    rw [← exactLog_eq_ok (Nat.not_lt.mp hlen)]
    cases exactLog data <;> simp [Except.toOption]

/-- The numbers of a log are indices as far as the decoder gets. -/
def AllConvertible (target : Target) (data : Bytes) : Prop :=
  160 ≤ data.length → Convertible target data (List.finRange 5)

theorem run_decodeDepositLog (mode : Mode) (h : AllConvertible target data) :
    ∃ result, (decodeDepositLog mode target data).run = .ok result ∧
      result.toOption = depositOf data := by
  unfold decodeDepositLog depositOf
  rw [run_ite]
  split
  · exact ⟨_, rfl, rfl⟩
  next hlen =>
    have hlen := Nat.not_lt.mp hlen
    exact ⟨_, run_foldlM hlen (h hlen), rfl⟩

theorem panics_decodeDepositLog (mode : Mode) (h : ¬ AllConvertible target data) :
    ∃ panic, (decodeDepositLog mode target data).run = .error panic := by
  obtain ⟨hlen, hnot⟩ := Classical.not_imp.mp h
  unfold decodeDepositLog
  rw [if_neg (Nat.not_lt.mpr hlen)]
  exact panics_foldlM hlen hnot

/-- A log is decoded as the format says exactly if its numbers are indices as far as the decoder
gets. -/
theorem decodeDepositLog_safe_iff (mode : Mode) (target : Target) (data : Bytes) :
    (∃ result, (decodeDepositLog mode target data).run = .ok result ∧
        ∀ deposit, result = .ok deposit ↔ Holds data deposit) ↔
      AllConvertible target data := by
  constructor
  · rintro ⟨result, hrun, -⟩
    by_contra hnot
    obtain ⟨panic, hpanic⟩ := panics_decodeDepositLog mode hnot
    rw [hpanic] at hrun
    cases hrun
  · intro hconvertible
    obtain ⟨result, hrun, hresult⟩ := run_decodeDepositLog mode hconvertible
    refine ⟨result, hrun, fun deposit => ?_⟩
    rw [← depositOf_eq_some, ← hresult]
    cases result <;> simp [Except.toOption]

/-- Offsets that are no indices. -/
def wildOffsets : Bytes := List.replicate 160 0xFF

theorem decodeDepositLog_wildOffsets :
    ¬ ∃ result, (decodeDepositLog .wrapping .native64 wildOffsets).run = .ok result ∧
      ∀ deposit, result = .ok deposit ↔ Holds wildOffsets deposit := by
  rintro ⟨result, hrun, -⟩
  have hpanic : (decodeDepositLog .wrapping .native64 wildOffsets).run = .error .conversion := by
    decide +kernel
  rw [hpanic] at hrun
  cases hrun

/-! ## Deposits of a block -/

section Collecting

variable {depositContract : Address} {deposits : List DepositRequest}

def depositOfLog (depositContract : Address) (log : Log) : Option DepositRequest :=
  if IsDeposit depositContract log then depositOf log.data else none

theorem collectLog_of_convertible {log : Log}
    (h : IsDeposit depositContract log → AllConvertible target log.data) :
    collectLog mode target depositContract deposits log =
      .ok (deposits ++ (depositOfLog depositContract log).toList) := by
  unfold collectLog depositOfLog
  split
  next hdeposit =>
    obtain ⟨result, hrun, hresult⟩ := run_decodeDepositLog mode (h hdeposit)
    rw [hrun, ← hresult]
    cases result with
    | error message =>
        rw [Except.toOption, Option.toList_none, List.append_nil]
        rfl
    | ok deposit => rfl
  next =>
    rw [Option.toList_none, List.append_nil]
    rfl

theorem panics_collectLog (mode : Mode) (deposits : List DepositRequest) {log : Log}
    (hdeposit : IsDeposit depositContract log)
    (h : ¬ AllConvertible target log.data) :
    ∃ panic, collectLog mode target depositContract deposits log = .error panic := by
  obtain ⟨panic, hpanic⟩ := panics_decodeDepositLog mode h
  refine ⟨panic, ?_⟩
  rw [collectLog, if_pos hdeposit, hpanic]
  rfl

theorem collectLogs_of_convertible {logs : List Log}
    (h : ∀ log ∈ logs, IsDeposit depositContract log → AllConvertible target log.data) :
    logs.foldlM (collectLog mode target depositContract) deposits =
      .ok (deposits ++ logs.filterMap (depositOfLog depositContract)) := by
  induction logs generalizing deposits with
  | nil =>
      rw [List.filterMap_nil, List.append_nil]
      rfl
  | cons log logs ih =>
      rw [List.foldlM_cons, collectLog_of_convertible (h log List.mem_cons_self)]
      change logs.foldlM _ _ = _
      rw [ih fun other hmem => h other (List.mem_cons_of_mem _ hmem), List.append_assoc]
      congr 2
      cases hlog : depositOfLog depositContract log with
      | none => rw [List.filterMap_cons_none hlog, Option.toList_none, List.nil_append]
      | some deposit =>
          rw [List.filterMap_cons_some hlog, Option.toList_some, List.singleton_append]

theorem panics_collectLogs {logs : List Log} {log : Log} (hmem : log ∈ logs)
    (hdeposit : IsDeposit depositContract log) (h : ¬ AllConvertible target log.data) :
    ∃ panic, logs.foldlM (collectLog mode target depositContract) deposits = .error panic := by
  induction logs generalizing deposits with
  | nil => cases hmem
  | cons first logs ih =>
      rw [List.foldlM_cons]
      by_cases hfirst : IsDeposit depositContract first → AllConvertible target first.data
      · rw [collectLog_of_convertible hfirst]
        rcases List.mem_cons.mp hmem with rfl | hmem
        · exact absurd (hfirst hdeposit) h
        · exact ih hmem
      · obtain ⟨hfirst, hnot⟩ := Classical.not_imp.mp hfirst
        obtain ⟨panic, hpanic⟩ :=
          panics_collectLog mode deposits hfirst hnot
        rw [hpanic]
        exact ⟨panic, rfl⟩

theorem collectDeposits_eq_logs (receipts : List Receipt) (deposits : List DepositRequest) :
    receipts.foldlM (fun deposits receipt =>
        receipt.logs.foldlM (collectLog mode target depositContract) deposits) deposits =
      (receipts.flatMap (·.logs)).foldlM (collectLog mode target depositContract) deposits := by
  induction receipts generalizing deposits with
  | nil => rfl
  | cons receipt receipts ih =>
      rw [List.foldlM_cons, List.flatMap_cons, List.foldlM_append]
      congr 1
      funext next
      exact ih next

/-- The deposits of a block are those that its logs hold, in their order. -/
theorem collectDeposits_of_convertible {receipts : List Receipt}
    (h : ∀ log ∈ receipts.flatMap (·.logs), IsDeposit depositContract log →
      AllConvertible target log.data) :
    collectDeposits mode target depositContract receipts =
      .ok ((receipts.flatMap (·.logs)).filterMap (depositOfLog depositContract)) := by
  rw [collectDeposits, collectDeposits_eq_logs, collectLogs_of_convertible h, List.nil_append]

/-- One log with a number that is no index stops the node. -/
theorem panics_collectDeposits {receipts : List Receipt} {log : Log}
    (hmem : log ∈ receipts.flatMap (·.logs)) (hdeposit : IsDeposit depositContract log)
    (h : ¬ AllConvertible target log.data) :
    ∃ panic, collectDeposits mode target depositContract receipts = .error panic := by
  rw [collectDeposits, collectDeposits_eq_logs]
  exact panics_collectLogs hmem hdeposit h

end Collecting

end Reading

end WasixEth.Deposits
