import Mathlib.Data.UInt

/-! # Stream ciphers

A stream cipher adds the bytes of a key stream, from the position it is at.
Adding them again gives the text back.
-/

namespace Keystream

def apply (stream : Nat → UInt8) : Nat → List UInt8 → List UInt8
  | _, [] => []
  | position, byte :: rest => (byte ^^^ stream position) :: apply stream (position + 1) rest

variable (stream : Nat → UInt8) (position : Nat) (bytes : List UInt8)

@[simp] theorem length_apply : (apply stream position bytes).length = bytes.length := by
  induction bytes generalizing position with
  | nil => rfl
  | cons byte rest ih => rw [apply, List.length_cons, ih, List.length_cons]

theorem apply_apply : apply stream position (apply stream position bytes) = bytes := by
  induction bytes generalizing position with
  | nil => rfl
  | cons byte rest ih => rw [apply, apply, ih, UInt8.xor_assoc, UInt8.xor_self, UInt8.xor_zero]

end Keystream
