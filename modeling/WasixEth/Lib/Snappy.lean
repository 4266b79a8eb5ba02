import Mathlib.Tactic.Ring
import WasixEth.Lib.Rlp

/-! # Snappy

The raw format: the length of the payload, then elements that are literals or copies of what
was written before. The decoder reads all of it. The encoder writes the payload as one
literal, as any encoder does where nothing repeats.
-/

namespace WasixEth.SnappyFormat

inductive Error where
  | tooBig (given max : Nat)
  | empty
  | header
  | headerMismatch (expectedLen gotLen : Nat)
  | literal (len srcLen dstLen : Nat)
  | copyRead (len srcLen : Nat)
  | copyWrite (len dstLen : Nat)
  | offset (offset dstPos : Nat)
  deriving DecidableEq

instance instToStringError : ToString Error where
  toString
    | .tooBig given max =>
        s!"snappy: input buffer (size = {given}) is larger than allowed (size = {max})"
    | .empty => "snappy: corrupt input (empty)"
    | .header => "snappy: corrupt input (invalid header)"
    | .headerMismatch expected got =>
        s!"snappy: corrupt input (header mismatch; expected {expected} decompressed bytes " ++
          s!"but got {got})"
    | .literal len srcLen dstLen =>
        s!"snappy: corrupt input (expected literal read of length {len}; " ++
          s!"remaining src: {srcLen}; remaining dst: {dstLen})"
    | .copyRead len srcLen =>
        s!"snappy: corrupt input (expected copy read of length {len}; remaining src: {srcLen})"
    | .copyWrite len dstLen =>
        s!"snappy: corrupt input (expected copy write of length {len}; " ++
          s!"remaining dst: {dstLen})"
    | .offset offset dstPos =>
        s!"snappy: corrupt input (expected valid offset but got offset {offset}; " ++
          s!"dst position: {dstPos})"

/-- No payload is longer. -/
def maxInputSize : Nat := 2 ^ 32 - 1

/-! ## Decoding -/

/-- Seven bits a byte, the lowest first. Bits that leave the 64 are lost. -/
def readVaru64 (n shift : Nat) : Bytes → Option (Nat × Bytes)
  | [] => none
  | b :: rest =>
      if 64 ≤ shift then none
      else if b.toNat < 128 then some (n + b.toNat * 2 ^ shift % 2 ^ 64, rest)
      else readVaru64 (n + b.toNat % 128 * 2 ^ shift % 2 ^ 64) (shift + 7) rest

/-- The length of the payload, and the elements. -/
def readHeader (input : Bytes) : Except Error (Nat × Bytes) :=
  match readVaru64 0 0 input with
  | none => .error .header
  | some (len, src) =>
      if maxInputSize < len then .error (.tooBig len maxInputSize) else .ok (len, src)

/-- A number in little-endian bytes. -/
def fromLittle (bytes : Bytes) : Nat := bytes.foldr (fun b acc => b.toNat + 256 * acc) 0

/-- A literal, of which the tag told the length or the number of bytes of the length. -/
def readLiteral (total tagged : Nat) (src out : Bytes) : Except Error (Bytes × Bytes) :=
  let byteCount := tagged - 60
  if 61 ≤ tagged ∧ src.length < byteCount then
    .error (.literal byteCount src.length (total - out.length))
  else
    let len := if 61 ≤ tagged then fromLittle (src.take byteCount) + 1 else tagged
    let src := src.drop byteCount
    if total - out.length < len ∨ src.length < len then
      .error (.literal len src.length (total - out.length))
    else .ok (src.drop len, out ++ src.take len)

/-- One byte after the other, so that a copy may read what it writes. -/
def copyFrom (offset : Nat) : Nat → Bytes → Bytes
  | 0, out => out
  | len + 1, out => copyFrom offset len (out ++ [out.getD (out.length - offset) 0])

/-- The length of a copy, the number of bytes of its offset, and the part of the offset that
is in the tag. -/
def copyTag (tag : Nat) : Nat × Nat × Nat :=
  if tag % 4 = 1 then (tag / 4 % 8 + 4, 1, tag / 32)
  else if tag % 4 = 2 then (tag / 4 + 1, 2, 0)
  else (tag / 4 + 1, 4, 0)

def readCopy (total tag : Nat) (src out : Bytes) : Except Error (Bytes × Bytes) :=
  let (len, byteCount, high) := copyTag tag
  if src.length < byteCount then .error (.copyRead byteCount src.length)
  else
    let offset := high * 256 + fromLittle (src.take byteCount)
    if offset = 0 ∨ out.length < offset then .error (.offset offset out.length)
    else if total < out.length + len then .error (.copyWrite len (total - out.length))
    else .ok (src.drop byteCount, copyFrom offset len out)

/-- The elements, to the end. Each takes up a byte, so the number of bytes is enough fuel. -/
def readElements (total : Nat) : Nat → Bytes → Bytes → Except Error Bytes
  | _, [], out => .ok out
  | 0, _ :: _, _ => .error .empty
  | fuel + 1, b :: src, out => do
      let (src, out) ←
        if b.toNat % 4 = 0 then readLiteral total (b.toNat / 4 + 1) src out
        else readCopy total b.toNat src out
      readElements total fuel src out

def decompressLen (input : Bytes) : Except Error Nat :=
  if input.isEmpty then .ok 0 else (readHeader input).map Prod.fst

def decompressVec (input : Bytes) : Except Error Bytes :=
  if input.isEmpty then .error .empty
  else do
    let (total, src) ← readHeader input
    let out ← readElements total src.length src []
    if out.length ≠ total then throw (.headerMismatch total out.length)
    return out

/-! ## One literal -/

/-- Seven bits a byte, for numbers below `2 ^ (7 * (fuel + 1))`. -/
def writeVaru64 : Nat → Nat → Bytes
  | 0, n => [UInt8.ofNat n]
  | fuel + 1, n =>
      if n < 128 then [UInt8.ofNat n]
      else UInt8.ofNat (n % 128 + 128) :: writeVaru64 fuel (n / 128)

def littleBytes : Nat → Nat → Bytes
  | 0, _ => []
  | width + 1, n => UInt8.ofNat n :: littleBytes width (n / 256)

/-- The tag of a literal, with its length less one in as many bytes as it takes. -/
def literalTag (n : Nat) : Bytes :=
  if n < 60 then [UInt8.ofNat (n * 4)]
  else if n < 2 ^ 8 then 240 :: littleBytes 1 n
  else if n < 2 ^ 16 then 244 :: littleBytes 2 n
  else 252 :: littleBytes 4 n

/-- The payload as it is. -/
def store (payload : Bytes) : Bytes :=
  writeVaru64 4 payload.length ++
    if payload.isEmpty then [] else literalTag (payload.length - 1) ++ payload

theorem toNat_ofNat_of_lt {n : Nat} (h : n < 256) : (UInt8.ofNat n).toNat = n :=
  UInt8.toNat_ofNat_of_lt' h

theorem shifted_of_lt {n shift : Nat} (hn : n < 128) (hshift : shift + 7 ≤ 64) :
    n * 2 ^ shift % 2 ^ 64 = n * 2 ^ shift := by
  apply Nat.mod_eq_of_lt
  calc n * 2 ^ shift < 2 ^ 7 * 2 ^ shift := Nat.mul_lt_mul_of_pos_right hn (Nat.two_pow_pos _)
    _ = 2 ^ (7 + shift) := (Nat.pow_add 2 7 shift).symm
    _ ≤ 2 ^ 64 := Nat.pow_le_pow_right (by decide) (by omega)

theorem readVaru64_last {n shift : Nat} (acc : Nat) (hn : n < 128) (hshift : shift + 7 ≤ 64)
    (rest : Bytes) :
    readVaru64 acc shift (UInt8.ofNat n :: rest) = some (acc + n * 2 ^ shift, rest) := by
  rw [readVaru64, if_neg (by omega), toNat_ofNat_of_lt (by omega), if_pos hn,
    shifted_of_lt hn hshift]

theorem readVaru64_writeVaru64 (fuel : Nat) {n acc shift : Nat} (hn : n < 128 ^ (fuel + 1))
    (hshift : shift + 7 * fuel + 7 ≤ 64) (rest : Bytes) :
    readVaru64 acc shift (writeVaru64 fuel n ++ rest) = some (acc + n * 2 ^ shift, rest) := by
  induction fuel generalizing n acc shift with
  | zero => exact readVaru64_last acc (by simpa using hn) (by omega) rest
  | succ fuel ih =>
      rw [writeVaru64]
      split
      next hlt => exact readVaru64_last acc hlt (by omega) rest
      next hge =>
        have hlow : n % 128 < 128 := Nat.mod_lt _ (by decide)
        have hmod : (n % 128 + 128) % 128 = n % 128 := by omega
        have hdiv : n / 128 < 128 ^ (fuel + 1) := by
          rw [Nat.div_lt_iff_lt_mul (by decide), ← Nat.pow_succ]
          exact hn
        rw [List.cons_append, readVaru64, if_neg (by omega), toNat_ofNat_of_lt (by omega),
          if_neg (by omega), hmod, shifted_of_lt hlow (by omega), ih hdiv (by omega),
          Nat.pow_add]
        congr 2
        have hsplit := Nat.mod_add_div n 128
        calc acc + n % 128 * 2 ^ shift + n / 128 * (2 ^ shift * 2 ^ 7)
            = acc + (n % 128 + 128 * (n / 128)) * 2 ^ shift := by ring
          _ = acc + n * 2 ^ shift := by rw [hsplit]

theorem length_littleBytes (width n : Nat) : (littleBytes width n).length = width := by
  induction width generalizing n with
  | zero => rfl
  | succ width ih => rw [littleBytes, List.length_cons, ih]

theorem fromLittle_littleBytes {width n : Nat} (hn : n < 256 ^ width) :
    fromLittle (littleBytes width n) = n := by
  induction width generalizing n with
  | zero =>
      obtain rfl : n = 0 := by simpa using hn
      rfl
  | succ width ih =>
      have hdiv : n / 256 < 256 ^ width := by
        rw [Nat.div_lt_iff_lt_mul (by decide), ← Nat.pow_succ]
        exact hn
      have hlow : (UInt8.ofNat n).toNat = n % 256 := by simp
      change (UInt8.ofNat n).toNat + 256 * fromLittle (littleBytes width (n / 256)) = n
      rw [ih hdiv, hlow]
      exact Nat.mod_add_div n 256

/-- The length of a literal is in its tag, or in the bytes behind it. -/
inductive Tagged (n : Nat) : Bytes → Prop
  | here (h : n < 60) : Tagged n [UInt8.ofNat (n * 4)]
  | behind {width : Nat} (hwidth : 1 ≤ width ∧ width ≤ 4) (h : n < 256 ^ width) :
      Tagged n (UInt8.ofNat ((59 + width) * 4) :: littleBytes width n)

theorem tagged_literalTag {n : Nat} (h : n < 2 ^ 32) : Tagged n (literalTag n) := by
  unfold literalTag
  split
  next hshort => exact .here hshort
  next =>
    split
    next hone => exact @Tagged.behind n 1 (by decide) hone
    next =>
      split
      next htwo => exact @Tagged.behind n 2 (by decide) htwo
      next => exact @Tagged.behind n 4 (by decide) h

/-- A literal at the end is read, if it fills the payload. -/
theorem readElements_literal {payload tag : Bytes} {n : Nat} (htag : Tagged n tag)
    (hlength : payload.length = n + 1) :
    readElements (n + 1) (tag ++ payload).length (tag ++ payload) [] = .ok payload := by
  have hend : ∀ fuel, readElements (n + 1) fuel [] payload = .ok payload := by
    intro fuel
    cases fuel <;> rfl
  cases htag with
  | here h =>
      have hbyte : (UInt8.ofNat (n * 4)).toNat = n * 4 := toNat_ofNat_of_lt (by omega)
      have hread : readLiteral (n + 1) (n + 1) payload [] = .ok ([], payload) := by
        unfold readLiteral
        have hcount : n + 1 - 60 = 0 := by omega
        simp [hcount, hlength, show ¬ 61 ≤ n + 1 by omega]
      rw [List.singleton_append, List.length_cons, readElements, hbyte, if_pos (by omega),
        show n * 4 / 4 + 1 = n + 1 by omega, hread]
      exact hend _
  | behind hwidth h =>
      rename_i width
      have hbyte : (UInt8.ofNat ((59 + width) * 4)).toNat = (59 + width) * 4 :=
        toNat_ofNat_of_lt (by omega)
      have hlittle := length_littleBytes width n
      have htake : (littleBytes width n ++ payload).take width = littleBytes width n := by
        rw [List.take_append_of_le_length (by omega), List.take_of_length_le (by omega)]
      have hdrop : (littleBytes width n ++ payload).drop width = payload := by
        rw [List.drop_append_of_le_length (by omega), List.drop_of_length_le (by omega)]
        rfl
      have hread : readLiteral (n + 1) (59 + width + 1) (littleBytes width n ++ payload) [] =
          .ok ([], payload) := by
        unfold readLiteral
        have hcount : 59 + width + 1 - 60 = width := by omega
        simp [hcount, htake, hdrop, hlength, hlittle, fromLittle_littleBytes h,
          show 61 ≤ 59 + width + 1 by omega]
      rw [List.cons_append, List.length_cons, readElements, hbyte, if_pos (by omega),
        show (59 + width) * 4 / 4 + 1 = 59 + width + 1 by omega, hread]
      exact hend _

theorem store_ne_nil (payload : Bytes) : store payload ≠ [] := by
  have hvar : writeVaru64 4 payload.length ≠ [] := by
    rw [writeVaru64]
    split <;> simp
  unfold store
  intro hnil
  exact hvar (List.append_eq_nil_iff.mp hnil).1

theorem readHeader_store {payload : Bytes} (h : payload.length < 2 ^ 32) :
    readHeader (store payload) = .ok (payload.length,
      if payload.isEmpty then [] else literalTag (payload.length - 1) ++ payload) := by
  unfold readHeader store
  rw [readVaru64_writeVaru64 4 (by omega) (by decide)]
  dsimp only
  rw [Nat.zero_add, Nat.pow_zero, Nat.mul_one, if_neg]
  unfold maxInputSize
  omega

theorem decompressLen_store {payload : Bytes} (h : payload.length < 2 ^ 32) :
    decompressLen (store payload) = .ok payload.length := by
  unfold decompressLen
  rw [if_neg (by simpa using store_ne_nil payload), readHeader_store h]
  rfl

/-- What is stored is read back. -/
theorem decompressVec_store {payload : Bytes} (h : payload.length < 2 ^ 32) :
    decompressVec (store payload) = .ok payload := by
  unfold decompressVec
  rw [if_neg (by simpa using store_ne_nil payload), readHeader_store h]
  cases payload with
  | nil => rfl
  | cons byte bytes =>
      have htag : Tagged bytes.length (literalTag bytes.length) := by
        apply tagged_literalTag
        rw [List.length_cons] at h
        omega
      have hlength : (byte :: bytes).length = bytes.length + 1 := List.length_cons
      have hread := readElements_literal htag hlength
      change (readElements (bytes.length + 1) (literalTag bytes.length ++ byte :: bytes).length
        (literalTag bytes.length ++ byte :: bytes) [] >>= _) = _
      rw [hread]
      simp [bind, Except.bind, pure, Except.pure]

/-- Four bytes and a copy of six that reads two of its own. -/
example : decompressVec [0x0a, 0x0c, 1, 2, 3, 4, 0x09, 0x04] =
    .ok [1, 2, 3, 4, 1, 2, 3, 4, 1, 2] := by decide

end WasixEth.SnappyFormat
