import WasixEth.Lib.Keccak
import WasixEth.Lib.RlpUint
import Mathlib.Data.Fintype.Pi
import Mathlib.Data.List.FinRange

/-! # Words, nibbles and the hash function

`B256` words, the nibble paths a trie key unpacks to, and the hash function
as an instance argument. `keccak` is the function the client links against;
results about hashes are stated for an arbitrary one, restricted where needed
to the strings hashed in a run.
-/

namespace WasixEth

/-- A 32-byte word. -/
structure B256 where
  bytes : Bytes
  length_eq : bytes.length = 32
  deriving DecidableEq

instance : Inhabited B256 := ⟨⟨List.replicate 32 0, by simp⟩⟩

@[ext] theorem B256.ext {a b : B256} (h : a.bytes = b.bytes) : a = b := by
  cases a
  cases b
  simpa using h

/-- The word with value zero. -/
def B256.zero : B256 := default

/-- The word with this first byte and zeros after it. -/
def B256.leading (first : UInt8) : B256 := ⟨first :: List.replicate 31 0, by simp⟩

/-- The word with this last byte and zeros before it. -/
def B256.trailing (last : UInt8) : B256 := ⟨List.replicate 31 0 ++ [last], by simp⟩

/-- `B256::from(U256::from(n))`. -/
def B256.ofNat (n : Nat) : B256 := ⟨Rlp.beBytes 32 n, Rlp.length_beBytes 32 n⟩

class Keccak256 where
  keccak256 : Bytes → B256

export Keccak256 (keccak256)

/-- Keccak-256 itself. -/
@[reducible] def keccak : Keccak256 where
  keccak256 bytes := ⟨(Keccak.digest bytes).1, (Keccak.digest bytes).2⟩

abbrev Nibble := Fin 16

/-- A path in a trie, one nibble per branch level. -/
abbrev Nibbles := List Nibble

/-- Nibble paths are backed by one 256-bit word. -/
def Nibbles.capacity : Nat := 64

def highNibble (b : UInt8) : Nibble := Fin.ofNat 16 (b >>> 4).toNat

def lowNibble (b : UInt8) : Nibble := Fin.ofNat 16 (b &&& 0x0F).toNat

def packNibbles (high low : Nibble) : UInt8 :=
  (UInt8.ofNat high.val <<< 4) ||| UInt8.ofNat low.val

@[simp] theorem highNibble_packNibbles (high low : Nibble) :
    highNibble (packNibbles high low) = high := by
  revert high low
  decide

@[simp] theorem lowNibble_packNibbles (high low : Nibble) :
    lowNibble (packNibbles high low) = low := by
  revert high low
  decide

theorem packNibbles_nibbles (b : UInt8) : packNibbles (highNibble b) (lowNibble b) = b := by
  have hall : ∀ n : Fin 256, packNibbles (highNibble (UInt8.ofNat n)) (lowNibble (UInt8.ofNat n)) =
      UInt8.ofNat n := by
    decide +kernel
  have hb := hall ⟨b.toNat, b.toNat_lt⟩
  simpa using hb

/-- Two nibbles per byte, high nibble first. -/
def unpackBytes : Bytes → Nibbles
  | [] => []
  | b :: rest => highNibble b :: lowNibble b :: unpackBytes rest

def unpack (key : B256) : Nibbles := unpackBytes key.bytes

def hexDigit (n : Nibble) : Char :=
  if n.val < 10 then Char.ofNat (48 + n.val) else Char.ofNat (87 + n.val)

instance : ToString B256 := ⟨fun word => "0x" ++ String.ofList ((unpack word).map hexDigit)⟩

/-- How an optional word is printed in messages. -/
def B256.debugOption : Option B256 → String
  | none => "None"
  | some word => s!"Some({word})"

theorem length_unpackBytes (bytes : Bytes) : (unpackBytes bytes).length = 2 * bytes.length := by
  induction bytes with
  | nil => rfl
  | cons b rest ih =>
      simp only [unpackBytes, List.length_cons, ih]
      omega

@[simp] theorem length_unpack (key : B256) : (unpack key).length = 64 := by
  rw [unpack, length_unpackBytes, key.length_eq]

theorem unpackBytes_injective : Function.Injective unpackBytes := by
  intro xs
  induction xs with
  | nil =>
      intro ys h
      cases ys with
      | nil => rfl
      | cons y ys => simp [unpackBytes] at h
  | cons x xs ih =>
      intro ys h
      cases ys with
      | nil => simp [unpackBytes] at h
      | cons y ys =>
          simp only [unpackBytes, List.cons.injEq] at h
          obtain ⟨hhigh, hlow, hrest⟩ := h
          rw [ih hrest, ← packNibbles_nibbles x, ← packNibbles_nibbles y, hhigh, hlow]

theorem unpack_injective : Function.Injective unpack := fun _ _ h =>
  B256.ext (unpackBytes_injective h)

end WasixEth
