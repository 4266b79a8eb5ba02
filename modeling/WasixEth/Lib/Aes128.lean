import WasixEth.Lib.Aes256
import WasixEth.Lib.RlpUint

/-! # AES with keys of 16 bytes

The rounds are those for long keys, ten of them; the key schedule is its own. In
counter mode the blocks of the key stream are the encrypted values of a counter.
-/

namespace Aes128

open Aes256 (Word subByte xorWord roundConstant chunks roundKey shiftRows round)

/-- The words of the key schedule after the first four, the last word first. -/
def expand : Nat → List Word → List Word
  | 0, words => words
  | count + 1, words =>
      let index := words.length
      let last := words.headD []
      let mixed :=
        if index % 4 = 0 then
          xorWord ((last.rotateLeft 1).map subByte) [roundConstant (index / 4 - 1), 0, 0, 0]
        else last
      expand count (xorWord (words.getD 3 []) mixed :: words)

def schedule (key : List UInt8) : List Word := (expand 40 (chunks 4 key).reverse).reverse

def encryptBlock (key block : List UInt8) : List UInt8 :=
  let words := schedule key
  let state := xorWord block (roundKey words 0)
  let state := (List.range' 1 9).foldl (round words) state
  xorWord (shiftRows (state.map subByte)) (roundKey words 10)

example : encryptBlock ((List.range 16).map UInt8.ofNat)
    ((List.range 16).map fun n => UInt8.ofNat (17 * n)) =
      [0x69, 0xc4, 0xe0, 0xd8, 0x6a, 0x7b, 0x04, 0x30, 0xd8, 0xcd, 0xb7, 0x80, 0x70, 0xb4, 0xc5,
        0x5a] := by
  decide +kernel

/-- `Ctr128BE`: the whole block counts. -/
def keystream (key iv : List UInt8) (position : Nat) : UInt8 :=
  let counter := (WasixEth.Rlp.fromBytes iv + position / 16) % 2 ^ 128
  (encryptBlock key (WasixEth.Rlp.beBytes 16 counter)).getD (position % 16) 0

end Aes128
