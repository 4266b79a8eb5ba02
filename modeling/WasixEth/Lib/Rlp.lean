import Mathlib.Data.List.Basic
import Mathlib.Data.UInt
import Mathlib.Tactic.SplitIfs

/-! # Recursive length prefix encoding

Headers and byte strings of the RLP format, with the canonicity checks of a
strict decoder. Every encoded item is self-delimiting: a decoder that reads it
in front of an arbitrary suffix finds its exact extent.
-/

namespace WasixEth

abbrev Bytes := List UInt8

namespace Rlp

/-- Why a strict decoder refuses an input. -/
inductive Error where
  | inputTooShort
  | nonCanonicalSingleByte
  | nonCanonicalSize
  | leadingZero
  | unexpectedList
  | unexpectedString
  | unexpectedLength
  | overflow
  | listLengthMismatch (expected got : Nat)
  | custom (message : String)
  deriving DecidableEq, Repr

instance : ToString Error where
  toString
    | .inputTooShort => "input too short"
    | .nonCanonicalSingleByte => "non-canonical single byte"
    | .nonCanonicalSize => "non-canonical size"
    | .leadingZero => "leading zero"
    | .unexpectedList => "unexpected list"
    | .unexpectedString => "unexpected string"
    | .unexpectedLength => "unexpected length"
    | .overflow => "overflow"
    | .listLengthMismatch expected got =>
        s!"unexpected list length (got {got}, expected {expected})"
    | .custom message => message

/-- The kind and payload size announced by the first bytes of an item. -/
structure Header where
  list : Bool
  payloadLength : Nat
  deriving DecidableEq, Repr

/-- The eight big-endian bytes of a 64-bit length without its leading zeros. -/
def trimmedBytes (n : Nat) : Bytes :=
  ([n / 2 ^ 56, n / 2 ^ 48, n / 2 ^ 40, n / 2 ^ 32, n / 2 ^ 24, n / 2 ^ 16, n / 2 ^ 8, n].map
    UInt8.ofNat).dropWhile (· == 0)

/-- The number a big-endian byte string denotes. -/
def fromBytes (bytes : Bytes) : Nat :=
  bytes.foldl (fun acc b => acc * 256 + b.toNat) 0

/-- The size of a header in front of `n` payload bytes. -/
def lengthOfLength (n : Nat) : Nat :=
  if n < 56 then 1 else 1 + (trimmedBytes n).length

def Header.encode (h : Header) : Bytes :=
  if h.payloadLength < 56 then
    [(if h.list then 0xC0 else 0x80) + UInt8.ofNat h.payloadLength]
  else
    let len := trimmedBytes h.payloadLength
    ((if h.list then 0xF7 else 0xB7) + UInt8.ofNat len.length) :: len

/-- Read the bytes of a header, without looking at the payload. A byte below
`0x80` is its own payload, so it is announced without being consumed. -/
def Header.decodePrefix (buf : Bytes) : Except Error (Header × Bytes) :=
  match buf with
  | [] => .error .inputTooShort
  | b :: rest =>
      if b.toNat < 0x80 then .ok (⟨false, 1⟩, b :: rest)
      else if b.toNat ≤ 0xB7 then
        if b.toNat = 0x81 then
          match rest with
          | [] => .error .inputTooShort
          | c :: _ =>
              if c.toNat < 0x80 then .error .nonCanonicalSingleByte else .ok (⟨false, 1⟩, rest)
        else .ok (⟨false, b.toNat - 0x80⟩, rest)
      else if b.toNat ≤ 0xBF ∨ 0xF8 ≤ b.toNat then
        let list := decide (0xF8 ≤ b.toNat)
        let lenOfLen := b.toNat - (if list then 0xF7 else 0xB7)
        if rest.length < lenOfLen then .error .inputTooShort
        else if (rest.take lenOfLen).head? = some 0 then .error .leadingZero
        else if fromBytes (rest.take lenOfLen) < 56 then .error .nonCanonicalSize
        else .ok (⟨list, fromBytes (rest.take lenOfLen)⟩, rest.drop lenOfLen)
      else .ok (⟨true, b.toNat - 0xC0⟩, rest)

/-- Read a header and return what follows it, which must hold the payload. -/
def Header.decode (buf : Bytes) : Except Error (Header × Bytes) :=
  match Header.decodePrefix buf with
  | .error e => .error e
  | .ok (h, after) =>
      if after.length < h.payloadLength then .error .inputTooShort else .ok (h, after)

/-- A byte string as an RLP item. -/
def encodeBytes (bytes : Bytes) : Bytes :=
  match bytes with
  | [b] => if b.toNat < 0x80 then [b] else Header.encode ⟨false, 1⟩ ++ [b]
  | _ => Header.encode ⟨false, bytes.length⟩ ++ bytes

/-- A list item around the items of its payload. -/
def encodeList (payload : Bytes) : Bytes :=
  Header.encode ⟨true, payload.length⟩ ++ payload

/-- The announced size of a byte string item. -/
def bytesLength (bytes : Bytes) : Nat :=
  match bytes with
  | [b] => if b.toNat < 0x80 then 1 else 1 + lengthOfLength 1
  | _ => bytes.length + lengthOfLength bytes.length

/-- Read one byte string and return it with what follows it. -/
def decodeBytes (buf : Bytes) : Except Error (Bytes × Bytes) :=
  match Header.decode buf with
  | .error e => .error e
  | .ok (h, after) =>
      if h.list then .error .unexpectedList
      else .ok (after.take h.payloadLength, after.drop h.payloadLength)

/-! ## Lengths as bytes -/

theorem fromBytes_dropWhile (bytes : Bytes) :
    fromBytes (bytes.dropWhile (· == 0)) = fromBytes bytes := by
  induction bytes with
  | nil => rfl
  | cons b rest ih =>
      by_cases hb : b = 0
      · subst b
        simpa [fromBytes] using ih
      · simp [hb]

theorem fromBytes_trimmedBytes {n : Nat} (hn : n < 2 ^ 64) : fromBytes (trimmedBytes n) = n := by
  rw [trimmedBytes, fromBytes_dropWhile]
  simp only [fromBytes, List.map_cons, List.map_nil, List.foldl_cons, List.foldl_nil,
    UInt8.toNat_ofNat', Nat.reducePow]
  omega

theorem length_trimmedBytes_le (n : Nat) : (trimmedBytes n).length ≤ 8 :=
  (List.dropWhile_sublist _).length_le.trans (by simp)

theorem trimmedBytes_ne_nil {n : Nat} (hn : n < 2 ^ 64) (hpos : 0 < n) : trimmedBytes n ≠ [] := by
  intro hnil
  have hvalue := fromBytes_trimmedBytes hn
  rw [hnil] at hvalue
  simp [fromBytes] at hvalue
  omega

theorem head?_trimmedBytes (n : Nat) : (trimmedBytes n).head? ≠ some 0 := by
  intro hhead
  have hnot := List.head?_dropWhile_not (· == (0 : UInt8))
    ([n / 2 ^ 56, n / 2 ^ 48, n / 2 ^ 40, n / 2 ^ 32, n / 2 ^ 24, n / 2 ^ 16, n / 2 ^ 8, n].map
      UInt8.ofNat)
  rw [trimmedBytes] at hhead
  rw [hhead] at hnot
  simp at hnot

/-! ## Headers -/

theorem length_encode (h : Header) : h.encode.length = lengthOfLength h.payloadLength := by
  unfold Header.encode lengthOfLength
  split
  · rfl
  · simp [Nat.add_comm]

theorem lengthOfLength_pos (n : Nat) : 0 < lengthOfLength n := by
  unfold lengthOfLength
  split <;> omega

theorem lengthOfLength_le (n : Nat) : lengthOfLength n ≤ 9 := by
  unfold lengthOfLength
  have := length_trimmedBytes_le n
  split <;> omega

/-- A single byte below `0x80` must not be announced as a string of length one. -/
def Header.Announces (h : Header) (payload : Bytes) : Prop :=
  payload.length = h.payloadLength ∧ h.payloadLength < 2 ^ 64 ∧
    (h.list = false → ∀ b, payload = [b] → 0x80 ≤ b.toNat)

theorem toNat_add_ofNat {code : UInt8} {n : Nat} (h : code.toNat + n < 256) :
    (code + UInt8.ofNat n).toNat = code.toNat + n := by
  rw [UInt8.toNat_add, UInt8.toNat_ofNat']
  omega

theorem decodePrefix_encode_short {list : Bool} {payload : Bytes} (hshort : payload.length < 56)
    (hsingle : list = false → ∀ b, payload = [b] → 0x80 ≤ b.toNat) (rest : Bytes) :
    Header.decodePrefix (Header.encode ⟨list, payload.length⟩ ++ (payload ++ rest)) =
      .ok (⟨list, payload.length⟩, payload ++ rest) := by
  simp only [Header.encode, hshort, if_true, List.singleton_append]
  cases list with
  | true =>
      have hcode : ((0xC0 : UInt8) + UInt8.ofNat payload.length).toNat = 0xC0 + payload.length :=
        toNat_add_ofNat (by simp; omega)
      simp only [if_true, Header.decodePrefix, hcode]
      rw [if_neg (by omega), if_neg (by omega), if_neg (by omega)]
      simp
  | false =>
      have hcode : ((0x80 : UInt8) + UInt8.ofNat payload.length).toNat = 0x80 + payload.length :=
        toNat_add_ofNat (by simp; omega)
      simp only [Bool.false_eq_true, if_false, Header.decodePrefix, hcode]
      rw [if_neg (by omega), if_pos (by omega)]
      split
      next hone =>
        obtain ⟨b, rfl⟩ := List.length_eq_one_iff.mp (by omega : payload.length = 1)
        have hb := hsingle rfl b rfl
        simp only [List.singleton_append, List.length_singleton]
        rw [if_neg (by omega)]
      next => simp

theorem decodePrefix_encode_long {list : Bool} {n : Nat} (hlong : 56 ≤ n) (hlt : n < 2 ^ 64)
    (rest : Bytes) :
    Header.decodePrefix (Header.encode ⟨list, n⟩ ++ rest) = .ok (⟨list, n⟩, rest) := by
  have hle := length_trimmedBytes_le n
  have hpos : 0 < (trimmedBytes n).length :=
    List.length_pos_iff.mpr (trimmedBytes_ne_nil hlt (by omega))
  simp only [Header.encode, show ¬ n < 56 by omega, if_false, List.cons_append]
  have hcode : ((if list = true then 0xF7 else 0xB7 : UInt8) +
      UInt8.ofNat (trimmedBytes n).length).toNat =
        (if list = true then 0xF7 else 0xB7) + (trimmedBytes n).length := by
    cases list <;> exact toNat_add_ofNat (by simp; omega)
  simp only [Header.decodePrefix, hcode]
  have hlist : decide (0xF8 ≤ (if list = true then 0xF7 else 0xB7) + (trimmedBytes n).length) =
      list := by
    cases list <;> simp <;> omega
  rw [if_neg (by split <;> omega), if_neg (by split <;> omega),
    if_pos (by cases list <;> simp <;> omega)]
  simp only [hlist, Nat.add_sub_cancel_left]
  rw [if_neg (by simp)]
  simp [head?_trimmedBytes, fromBytes_trimmedBytes hlt, show ¬ n < 56 by omega]

/-- Decoding recovers the header in front of its payload and any suffix. -/
theorem decode_encode {h : Header} {payload : Bytes} (hann : h.Announces payload)
    (rest : Bytes) :
    Header.decode (h.encode ++ (payload ++ rest)) = .ok (h, payload ++ rest) := by
  obtain ⟨list, n⟩ := h
  obtain ⟨hlen, hlt, hsingle⟩ := hann
  simp only at hlen hlt hsingle
  subst hlen
  have hheader : Header.decodePrefix (Header.encode ⟨list, payload.length⟩ ++ (payload ++ rest)) =
      .ok (⟨list, payload.length⟩, payload ++ rest) := by
    by_cases hshort : payload.length < 56
    · exact decodePrefix_encode_short hshort hsingle rest
    · exact decodePrefix_encode_long (by omega) hlt _
  simp [Header.decode, hheader]

/-! ## Byte strings -/

theorem encodeBytes_of_length_ne_one {bytes : Bytes} (h : bytes.length ≠ 1) :
    encodeBytes bytes = Header.encode ⟨false, bytes.length⟩ ++ bytes := by
  match bytes with
  | [] => rfl
  | [b] => simp at h
  | _ :: _ :: _ => rfl

theorem length_encodeBytes (bytes : Bytes) : (encodeBytes bytes).length = bytesLength bytes := by
  match bytes with
  | [] => rfl
  | [b] =>
      simp only [encodeBytes, bytesLength]
      split <;> simp [length_encode, Nat.add_comm]
  | a :: b :: rest => simp [encodeBytes, bytesLength, length_encode, Nat.add_comm]

theorem length_le_bytesLength (bytes : Bytes) : bytes.length ≤ bytesLength bytes := by
  unfold bytesLength
  split
  · split <;> simp
  · omega

theorem bytesLength_le (bytes : Bytes) : bytesLength bytes ≤ bytes.length + 9 := by
  have hone := lengthOfLength_le 1
  have hlength := lengthOfLength_le bytes.length
  unfold bytesLength
  split
  · split
    · simp
    · simp only [List.length_singleton]
      omega
  · omega

theorem bytesLength_pos (bytes : Bytes) : 0 < bytesLength bytes := by
  have hlength := lengthOfLength_pos bytes.length
  unfold bytesLength
  split
  · split <;> omega
  · omega

/-- The header in front of an encoded byte string announces exactly that string. -/
theorem decode_encodeBytes (bytes : Bytes) (hlt : bytes.length < 2 ^ 64) (rest : Bytes) :
    Header.decode (encodeBytes bytes ++ rest) = .ok (⟨false, bytes.length⟩, bytes ++ rest) := by
  by_cases hone : bytes.length = 1
  · obtain ⟨b, rfl⟩ := List.length_eq_one_iff.mp hone
    by_cases hb : b.toNat < 0x80
    · simp [encodeBytes, hb, Header.decode, Header.decodePrefix]
    · simp only [encodeBytes, hb, if_false, List.append_assoc, List.length_singleton]
      refine decode_encode ⟨rfl, by simp, ?_⟩ rest
      intro _ c hc
      obtain rfl : b = c := by simpa using hc
      omega
  · rw [encodeBytes_of_length_ne_one hone, List.append_assoc]
    refine decode_encode ⟨rfl, hlt, ?_⟩ rest
    intro _ c hc
    simp [hc] at hone

theorem decodeBytes_encodeBytes (bytes : Bytes) (hlt : bytes.length < 2 ^ 64) (rest : Bytes) :
    decodeBytes (encodeBytes bytes ++ rest) = .ok (bytes, rest) := by
  simp [decodeBytes, decode_encodeBytes bytes hlt]

/-! ## Self-delimiting items -/

/-- A decoder in front of `item` and any suffix finds the extent of `item`. -/
def IsItem (item : Bytes) : Prop :=
  item ≠ [] ∧ ∀ rest, ∃ h after, Header.decode (item ++ rest) = .ok (h, after ++ rest) ∧
    after.length = h.payloadLength ∧ after.length ≤ item.length

theorem isItem_encodeBytes (bytes : Bytes) (hlt : bytes.length < 2 ^ 64) :
    IsItem (encodeBytes bytes) := by
  refine ⟨?_, fun rest => ⟨_, bytes, decode_encodeBytes bytes hlt rest, rfl, ?_⟩⟩
  · intro hnil
    have hdecode := decode_encodeBytes bytes hlt []
    rw [hnil] at hdecode
    simp [Header.decode, Header.decodePrefix] at hdecode
  · rw [length_encodeBytes]
    match bytes with
    | [] => simp
    | [b] =>
        simp only [bytesLength]
        split <;> simp
    | a :: b :: rest => simp [bytesLength]

theorem isItem_list {payload : Bytes} (hlt : payload.length < 2 ^ 64) :
    IsItem (encodeList payload) := by
  have hpos : 0 < (Header.encode ⟨true, payload.length⟩).length := by
    rw [length_encode]
    exact lengthOfLength_pos _
  unfold encodeList
  refine ⟨fun hnil => ?_, fun rest => ⟨⟨true, payload.length⟩, payload, ?_, rfl, by simp⟩⟩
  · simp only [List.append_eq_nil_iff] at hnil
    simp [hnil.1] at hpos
  · rw [List.append_assoc]
    exact decode_encode ⟨rfl, hlt, by simp⟩ rest

end Rlp

end WasixEth
