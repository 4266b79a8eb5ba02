import Mathlib.Data.UInt

/-! # Keccak-256

The sponge over 25 lanes of 64 bits with rate 136 bytes and the original
padding. The whole state is one number whose lane `x + 5 y` occupies bits
`64 (x + 5 y)` and up, so that a step works on five lanes at once.
-/

namespace WasixEth.Keccak

def planeMask : Nat := 2 ^ 320 - 1

/-- One bit at the bottom of each of the five lanes of a plane. -/
def lowBits : Nat := 1 ||| 1 <<< 64 ||| 1 <<< 128 ||| 1 <<< 192 ||| 1 <<< 256

def lane (state index : Nat) : Nat :=
  (state >>> (64 * index)) &&& (2 ^ 64 - 1)

def plane (state y : Nat) : Nat :=
  (state >>> (320 * y)) &&& planeMask

/-- Rotate one lane to the left. -/
def rotateLane (x count : Nat) : Nat :=
  ((x <<< count) &&& (2 ^ 64 - 1)) ||| (x >>> (64 - count))

/-- The plane whose lane `x` is lane `x + k` of `p`. -/
def shiftLanes (p k : Nat) : Nat :=
  (p >>> (64 * k)) ||| ((p <<< (64 * (5 - k))) &&& planeMask)

/-- Rotate every lane of a plane by one bit. -/
def rotateLanes (p : Nat) : Nat :=
  ((p <<< 1) &&& (planeMask - lowBits)) ||| ((p >>> 63) &&& lowBits)

/-- Five copies of a plane. -/
def spread (p : Nat) : Nat :=
  p ||| p <<< 320 ||| p <<< 640 ||| p <<< 960 ||| p <<< 1280

def theta (state : Nat) : Nat :=
  let parity := plane state 0 ^^^ plane state 1 ^^^ plane state 2 ^^^ plane state 3 ^^^
    plane state 4
  state ^^^ spread (shiftLanes parity 4 ^^^ rotateLanes (shiftLanes parity 1))

/-- Target lane and rotation of each source lane. -/
def moves : List (Nat × Nat) :=
  [(0, 0), (10, 1), (20, 62), (5, 28), (15, 27), (16, 36), (1, 44), (11, 6), (21, 55), (6, 20),
   (7, 3), (17, 10), (2, 43), (12, 25), (22, 39), (23, 41), (8, 45), (18, 15), (3, 21), (13, 8),
   (14, 18), (24, 2), (9, 61), (19, 56), (4, 14)]

def rhoPi (state : Nat) : Nat :=
  moves.zipIdx.foldl
    (fun acc move => acc ||| rotateLane (lane state move.2) move.1.2 <<< (64 * move.1.1)) 0

def chiPlane (p : Nat) : Nat :=
  p ^^^ ((shiftLanes p 1 ^^^ planeMask) &&& shiftLanes p 2)

def chi (state : Nat) : Nat :=
  chiPlane (plane state 0) ||| chiPlane (plane state 1) <<< 320 |||
    chiPlane (plane state 2) <<< 640 ||| chiPlane (plane state 3) <<< 960 |||
    chiPlane (plane state 4) <<< 1280

def roundConstants : List Nat :=
  [0x0000000000000001, 0x0000000000008082, 0x800000000000808A, 0x8000000080008000,
   0x000000000000808B, 0x0000000080000001, 0x8000000080008081, 0x8000000000008009,
   0x000000000000008A, 0x0000000000000088, 0x0000000080008009, 0x000000008000000A,
   0x000000008000808B, 0x800000000000008B, 0x8000000000008089, 0x8000000000008003,
   0x8000000000008002, 0x8000000000000080, 0x000000000000800A, 0x800000008000000A,
   0x8000000080008081, 0x8000000000008080, 0x0000000080000001, 0x8000000080008008]

def permute (state : Nat) : Nat :=
  roundConstants.foldl (fun s rc => chi (rhoPi (theta s)) ^^^ rc) state

def fromLittleEndian : List UInt8 → Nat
  | [] => 0
  | b :: rest => b.toNat + 256 * fromLittleEndian rest

def littleEndian : Nat → Nat → List UInt8
  | 0, _ => []
  | count + 1, n => UInt8.ofNat n :: littleEndian count (n / 256)

/-- Fill up to a multiple of the rate, first bit and last bit set. -/
def pad (bytes : List UInt8) : List UInt8 :=
  let missing := 136 - bytes.length % 136
  if missing = 1 then bytes ++ [0x81]
  else bytes ++ [0x01] ++ List.replicate (missing - 2) 0 ++ [0x80]

def absorb : Nat → Nat → List UInt8 → Nat
  | 0, state, _ => state
  | blocks + 1, state, bytes =>
      absorb blocks (permute (state ^^^ fromLittleEndian (bytes.take 136))) (bytes.drop 136)

theorem length_littleEndian (count n : Nat) : (littleEndian count n).length = count := by
  induction count generalizing n with
  | zero => rfl
  | succ count ih => simp [littleEndian, ih]

/-- The 32 bytes squeezed after absorbing the padded input. -/
def digest (bytes : List UInt8) : { out : List UInt8 // out.length = 32 } :=
  let padded := pad bytes
  ⟨littleEndian 32 (absorb (padded.length / 136) 0 padded), length_littleEndian _ _⟩

end WasixEth.Keccak
