import WasixEth.Lib.RlpUint

/-! # SHA-256

The compression function over eight words of 32 bits, and the keyed hash built on it.
-/

namespace WasixEth.Sha256

def wordMask : Nat := 2 ^ 32 - 1

/-- Rotate a word to the right. -/
def rotate (x count : Nat) : Nat :=
  ((x >>> count) ||| (x <<< (32 - count))) &&& wordMask

def complement (x : Nat) : Nat := x ^^^ wordMask

def roundConstants : List Nat :=
  [0x428a2f98, 0x71374491, 0xb5c0fbcf, 0xe9b5dba5, 0x3956c25b, 0x59f111f1, 0x923f82a4, 0xab1c5ed5,
   0xd807aa98, 0x12835b01, 0x243185be, 0x550c7dc3, 0x72be5d74, 0x80deb1fe, 0x9bdc06a7, 0xc19bf174,
   0xe49b69c1, 0xefbe4786, 0x0fc19dc6, 0x240ca1cc, 0x2de92c6f, 0x4a7484aa, 0x5cb0a9dc, 0x76f988da,
   0x983e5152, 0xa831c66d, 0xb00327c8, 0xbf597fc7, 0xc6e00bf3, 0xd5a79147, 0x06ca6351, 0x14292967,
   0x27b70a85, 0x2e1b2138, 0x4d2c6dfc, 0x53380d13, 0x650a7354, 0x766a0abb, 0x81c2c92e, 0x92722c85,
   0xa2bfe8a1, 0xa81a664b, 0xc24b8b70, 0xc76c51a3, 0xd192e819, 0xd6990624, 0xf40e3585, 0x106aa070,
   0x19a4c116, 0x1e376c08, 0x2748774c, 0x34b0bcb5, 0x391c0cb3, 0x4ed8aa4a, 0x5b9cca4f, 0x682e6ff3,
   0x748f82ee, 0x78a5636f, 0x84c87814, 0x8cc70208, 0x90befffa, 0xa4506ceb, 0xbef9a3f7, 0xc67178f2]

/-- The words of the schedule after the first sixteen, the last word first. -/
def expand : Nat → List Nat → List Nat
  | 0, words => words
  | count + 1, words =>
      let x := words.getD 14 0
      let y := words.getD 1 0
      let small0 := rotate x 7 ^^^ rotate x 18 ^^^ (x >>> 3)
      let small1 := rotate y 17 ^^^ rotate y 19 ^^^ (y >>> 10)
      expand count
        (((words.getD 15 0 + small0 + words.getD 6 0 + small1) &&& wordMask) :: words)

def words : Nat → List UInt8 → List Nat
  | 0, _ => []
  | count + 1, bytes => Rlp.fromBytes (bytes.take 4) :: words count (bytes.drop 4)

def schedule (block : List UInt8) : List Nat := (expand 48 (words 16 block).reverse).reverse

/-- One round over the words `a` to `h`. -/
def round : List Nat → Nat × Nat → List Nat
  | [a, b, c, d, e, f, g, h], (constant, word) =>
      let big1 := rotate e 6 ^^^ rotate e 11 ^^^ rotate e 25
      let choice := (e &&& f) ^^^ (complement e &&& g)
      let first := h + big1 + choice + constant + word
      let big0 := rotate a 2 ^^^ rotate a 13 ^^^ rotate a 22
      let majority := (a &&& b) ^^^ (a &&& c) ^^^ (b &&& c)
      [(first + big0 + majority) &&& wordMask, a, b, c, (d + first) &&& wordMask, e, f, g]
  | state, _ => state

def compress (state : List Nat) (block : List UInt8) : List Nat :=
  List.zipWith (fun a b => (a + b) &&& wordMask) state
    ((roundConstants.zip (schedule block)).foldl round state)

def initial : List Nat :=
  [0x6a09e667, 0xbb67ae85, 0x3c6ef372, 0xa54ff53a, 0x510e527f, 0x9b05688c, 0x1f83d9ab, 0x5be0cd19]

/-- A bit, zeros and the length in bits, up to a multiple of the block. -/
def pad (bytes : List UInt8) : List UInt8 :=
  bytes ++ [0x80] ++ List.replicate ((119 - bytes.length % 64) % 64) 0 ++
    Rlp.beBytes 8 (8 * bytes.length)

def absorb : Nat → List Nat → List UInt8 → List Nat
  | 0, state, _ => state
  | blocks + 1, state, bytes =>
      absorb blocks (compress state (bytes.take 64)) (bytes.drop 64)

/-- The words of a state as one number. -/
def join (state : List Nat) : Nat := state.foldl (fun acc word => acc <<< 32 ||| word) 0

def digest (bytes : List UInt8) : { out : List UInt8 // out.length = 32 } :=
  let padded := pad bytes
  ⟨Rlp.beBytes 32 (join (absorb (padded.length / 64) initial padded)), Rlp.length_beBytes _ _⟩

/-- The key in a block, combined with the given byte. -/
def keyBlock (key : List UInt8) (byte : UInt8) : List UInt8 :=
  let key := if 64 < key.length then (digest key).1 else key
  (key ++ List.replicate (64 - key.length) 0).map (· ^^^ byte)

/-- HMAC with SHA-256. -/
def hmac (key bytes : List UInt8) : { out : List UInt8 // out.length = 32 } :=
  digest (keyBlock key 0x5c ++ (digest (keyBlock key 0x36 ++ bytes)).1)

example : (hmac (List.replicate 20 0x0b) [0x48, 0x69, 0x20, 0x54, 0x68, 0x65, 0x72, 0x65]).1 =
    Rlp.beBytes 32 0xb0344c61d8db38535ca8afceaf0bf12b881dc200c9833da726e9376c2e32cff7 := by
  decide +kernel

end WasixEth.Sha256
