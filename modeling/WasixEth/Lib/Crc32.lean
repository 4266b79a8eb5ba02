import Mathlib.Data.List.Basic

/-! # CRC-32

The checksum with the reflected polynomial `0xEDB88320`, all bits set before
the first byte and all bits flipped after the last one. A digest is the state
between two bytes.
-/

namespace Crc32

abbrev Digest := UInt32

def polynomial : UInt32 := 0xEDB88320

def shift (state : Digest) : Digest :=
  if state &&& 1 = 1 then (state >>> 1) ^^^ polynomial else state >>> 1

def shifts : Nat → Digest → Digest
  | 0, state => state
  | count + 1, state => shifts count (shift state)

def feed (state : Digest) (byte : UInt8) : Digest := shifts 8 (state ^^^ byte.toUInt32)

def start : Digest := 0xFFFFFFFF

def update (state : Digest) (bytes : List UInt8) : Digest := bytes.foldl feed state

def finalize (state : Digest) : UInt32 := state ^^^ 0xFFFFFFFF

def checksum (bytes : List UInt8) : UInt32 := finalize (update start bytes)

/-- Bytes may be fed in pieces. -/
theorem update_append (state : Digest) (first second : List UInt8) :
    update state (first ++ second) = update (update state first) second :=
  List.foldl_append

example : checksum [0x31, 0x32, 0x33, 0x34, 0x35, 0x36, 0x37, 0x38, 0x39] = 0xCBF43926 := by
  decide +kernel

end Crc32
