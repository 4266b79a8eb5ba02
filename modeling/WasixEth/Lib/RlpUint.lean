import Mathlib.Tactic.Ring
import WasixEth.Lib.Rlp

/-! # Unsigned integers in RLP

An unsigned integer is the byte string of its big-endian digits without
leading zeros. A decoder knows the width of the type it reads.
-/

namespace WasixEth.Rlp

/-- The last `width` digits in base 256, the highest first. -/
def beBytes : Nat → Nat → Bytes
  | 0, _ => []
  | width + 1, n => UInt8.ofNat (n / 256 ^ width) :: beBytes width n

/-- An integer below `256 ^ width` without leading zeros. -/
def uintBytes (width n : Nat) : Bytes := (beBytes width n).dropWhile (· == 0)

def encodeUint (width n : Nat) : Bytes := encodeBytes (uintBytes width n)

def decodeUint (width : Nat) (buf : Bytes) : Except Error (Nat × Bytes) :=
  match decodeBytes buf with
  | .error e => .error e
  | .ok (bytes, rest) =>
      if bytes.head? = some 0 then .error .leadingZero
      else if width < bytes.length then .error .overflow
      else .ok (fromBytes bytes, rest)

/-! ## Round trip -/

theorem length_beBytes (width n : Nat) : (beBytes width n).length = width := by
  induction width with
  | zero => rfl
  | succ width ih => simp [beBytes, ih]

theorem length_uintBytes_le (width n : Nat) : (uintBytes width n).length ≤ width :=
  (List.dropWhile_sublist _).length_le.trans (length_beBytes width n).le

theorem head?_uintBytes (width n : Nat) : (uintBytes width n).head? ≠ some 0 := by
  intro hhead
  have hnot := List.head?_dropWhile_not (· == (0 : UInt8)) (beBytes width n)
  rw [← uintBytes, hhead] at hnot
  simp at hnot

/-- The digits read back from an accumulator. -/
theorem foldl_beBytes (width n acc : Nat) :
    (beBytes width n).foldl (fun acc b => acc * 256 + b.toNat) acc =
      acc * 256 ^ width + n % 256 ^ width := by
  induction width generalizing acc with
  | zero => simp [beBytes, Nat.mod_one]
  | succ width ih =>
      rw [beBytes, List.foldl_cons, ih]
      have hdigit : (UInt8.ofNat (n / 256 ^ width)).toNat = n / 256 ^ width % 256 := by simp
      have hsplit : n % 256 ^ (width + 1) =
          n / 256 ^ width % 256 * 256 ^ width + n % 256 ^ width := by
        rw [pow_succ, Nat.mod_mul, Nat.add_comm, Nat.mul_comm]
      rw [hdigit, hsplit, pow_succ]
      ring

theorem fromBytes_uintBytes {width n : Nat} (h : n < 256 ^ width) :
    fromBytes (uintBytes width n) = n := by
  rw [uintBytes, fromBytes_dropWhile, fromBytes, foldl_beBytes, Nat.zero_mul, Nat.zero_add,
    Nat.mod_eq_of_lt h]

theorem decodeUint_encodeUint {width n : Nat} (hn : n < 256 ^ width) (hwidth : width < 2 ^ 64)
    (rest : Bytes) : decodeUint width (encodeUint width n ++ rest) = .ok (n, rest) := by
  have hlength := length_uintBytes_le width n
  rw [decodeUint, encodeUint, decodeBytes_encodeBytes _ (by omega)]
  simp only [head?_uintBytes, if_false, fromBytes_uintBytes hn]
  rw [if_neg (by omega)]

end WasixEth.Rlp
