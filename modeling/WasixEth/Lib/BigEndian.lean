import Mathlib.Data.Nat.Bitwise
import Mathlib.Data.UInt
import Mathlib.Tactic.Ring
import WasixEth.Lib.Rlp

/-! # Numbers as big-endian bytes

Byte strings of one length are ordered as the numbers they stand for. Their exclusive or is
taken byte by byte, and the highest bit of a number is that of its first byte that is not
zero.
-/

namespace WasixEth.Rlp

theorem foldl_fromBytes (bytes : Bytes) (acc : Nat) :
    bytes.foldl (fun acc b => acc * 256 + b.toNat) acc =
      acc * 2 ^ (8 * bytes.length) + fromBytes bytes := by
  induction bytes generalizing acc with
  | nil => simp [fromBytes]
  | cons b rest ih =>
      have hpow : 2 ^ (8 * (rest.length + 1)) = 256 * 2 ^ (8 * rest.length) := by
        rw [Nat.mul_add, Nat.pow_add, Nat.mul_comm]
      rw [fromBytes, List.foldl_cons, List.foldl_cons, ih, ih, List.length_cons, hpow]
      ring

theorem fromBytes_cons (b : UInt8) (rest : Bytes) :
    fromBytes (b :: rest) = 2 ^ (8 * rest.length) * b.toNat + fromBytes rest := by
  rw [fromBytes, List.foldl_cons, foldl_fromBytes]
  ring

theorem fromBytes_lt (bytes : Bytes) : fromBytes bytes < 2 ^ (8 * bytes.length) := by
  induction bytes with
  | nil => simp [fromBytes]
  | cons b rest ih =>
      have hb : b.toNat + 1 ≤ 256 := b.toNat_lt
      have hpow : 2 ^ (8 * (rest.length + 1)) = 2 ^ (8 * rest.length) * 256 := by
        rw [Nat.mul_add, Nat.pow_add]
      rw [fromBytes_cons, List.length_cons, hpow]
      calc 2 ^ (8 * rest.length) * b.toNat + fromBytes rest
          < 2 ^ (8 * rest.length) * b.toNat + 2 ^ (8 * rest.length) := Nat.add_lt_add_left ih _
        _ = 2 ^ (8 * rest.length) * (b.toNat + 1) := by ring
        _ ≤ 2 ^ (8 * rest.length) * 256 := Nat.mul_le_mul_left _ hb

/-! ## Exclusive or -/

/-- High and low parts are combined separately. -/
theorem xor_two_pow_mul_add {n a b x y : Nat} (hx : x < 2 ^ n) (hy : y < 2 ^ n) :
    (2 ^ n * a + x) ^^^ (2 ^ n * b + y) = 2 ^ n * (a ^^^ b) + (x ^^^ y) := by
  refine Nat.eq_of_testBit_eq fun i => ?_
  rw [Nat.testBit_xor, Nat.testBit_two_pow_mul_add a hx, Nat.testBit_two_pow_mul_add b hy,
    Nat.testBit_two_pow_mul_add _ (Nat.xor_lt_two_pow hx hy), Nat.testBit_xor, Nat.testBit_xor]
  split <;> rfl

theorem fromBytes_xor {a b : Bytes} (h : a.length = b.length) :
    fromBytes (List.zipWith (· ^^^ ·) a b) = fromBytes a ^^^ fromBytes b := by
  induction a generalizing b with
  | nil =>
      obtain rfl := List.length_eq_zero_iff.mp h.symm
      rfl
  | cons x a ih =>
      cases b with
      | nil => cases h
      | cons y b =>
          have hlength : a.length = b.length := Nat.succ.inj h
          have ha := fromBytes_lt a
          have hb := fromBytes_lt b
          rw [← hlength] at hb
          rw [List.zipWith_cons_cons, fromBytes_cons, fromBytes_cons, fromBytes_cons, ih hlength,
            List.length_zipWith, ← hlength, Nat.min_self, xor_two_pow_mul_add ha hb,
            UInt8.toNat_xor]

/-! ## Order -/

theorem two_pow_mul_add_lt {n a b x y : Nat} (hx : x < 2 ^ n) (h : a < b) :
    2 ^ n * a + x < 2 ^ n * b + y :=
  calc 2 ^ n * a + x < 2 ^ n * a + 2 ^ n := Nat.add_lt_add_left hx _
    _ = 2 ^ n * (a + 1) := by ring
    _ ≤ 2 ^ n * b := Nat.mul_le_mul_left _ h
    _ ≤ 2 ^ n * b + y := Nat.le_add_right _ _

/-- High parts are compared first. -/
theorem two_pow_mul_add_lt_iff {n a b x y : Nat} (hx : x < 2 ^ n) (hy : y < 2 ^ n) :
    2 ^ n * a + x < 2 ^ n * b + y ↔ a < b ∨ a = b ∧ x < y := by
  rcases Nat.lt_trichotomy a b with hlt | rfl | hgt
  · exact ⟨fun _ => .inl hlt, fun _ => two_pow_mul_add_lt hx hlt⟩
  · simp
  · have hback := two_pow_mul_add_lt (y := x) hy hgt
    omega

theorem fromBytes_lt_iff {a b : Bytes} (h : a.length = b.length) :
    fromBytes a < fromBytes b ↔ a < b := by
  induction a generalizing b with
  | nil =>
      obtain rfl := List.length_eq_zero_iff.mp h.symm
      simp
  | cons x a ih =>
      cases b with
      | nil => cases h
      | cons y b =>
          have hlength : a.length = b.length := Nat.succ.inj h
          have ha := fromBytes_lt a
          have hb := fromBytes_lt b
          rw [← hlength] at hb
          rw [fromBytes_cons, fromBytes_cons, ← hlength, two_pow_mul_add_lt_iff ha hb, ih hlength,
            List.cons_lt_cons_iff, UInt8.lt_iff_toNat_lt, UInt8.toNat_inj]

theorem fromBytes_le_iff {a b : Bytes} (h : a.length = b.length) :
    fromBytes a ≤ fromBytes b ↔ a ≤ b := by
  rw [← Nat.not_lt, fromBytes_lt_iff h.symm]
  rfl

theorem fromBytes_inj {a b : Bytes} (h : a.length = b.length) :
    fromBytes a = fromBytes b ↔ a = b := by
  induction a generalizing b with
  | nil =>
      obtain rfl := List.length_eq_zero_iff.mp h.symm
      simp
  | cons x a ih =>
      cases b with
      | nil => cases h
      | cons y b =>
          have hlength : a.length = b.length := Nat.succ.inj h
          have ha := fromBytes_lt a
          have hb := fromBytes_lt b
          rw [← hlength] at hb
          refine ⟨fun heq => ?_, fun heq => heq ▸ rfl⟩
          rw [fromBytes_cons, fromBytes_cons, ← hlength] at heq
          rcases Nat.lt_trichotomy x.toNat y.toNat with hlt | hxy | hgt
          · exact absurd heq (two_pow_mul_add_lt ha hlt).ne
          · rw [hxy, Nat.add_left_cancel_iff, ih hlength] at heq
            rw [heq, UInt8.toNat_inj.mp hxy]
          · exact absurd heq (two_pow_mul_add_lt hb hgt).ne'

/-! ## The highest bit -/

theorem log2_two_pow_mul_add {n a x : Nat} (ha : a ≠ 0) (hx : x < 2 ^ n) :
    (2 ^ n * a + x).log2 = n + a.log2 := by
  obtain ⟨hle, hlt⟩ := (Nat.log2_eq_iff ha).mp rfl
  have hne : 2 ^ n * a + x ≠ 0 := by
    have := Nat.mul_ne_zero (Nat.two_pow_pos n).ne' ha
    omega
  refine (Nat.log2_eq_iff hne).mpr ⟨?_, ?_⟩
  · rw [Nat.pow_add]
    exact (Nat.mul_le_mul_left _ hle).trans (Nat.le_add_right _ _)
  · rw [Nat.add_assoc, Nat.pow_add]
    exact two_pow_mul_add_lt (y := 0) hx hlt

/-- The first byte that is not zero tells the highest bit. -/
theorem log2_fromBytes {bytes : Bytes} {k i : Nat} {byte : UInt8}
    (h : (bytes.zipIdx k).find? (·.1 ≠ 0) = some (byte, i)) :
    fromBytes bytes ≠ 0 ∧
      (fromBytes bytes).log2 + (i * 8 + (7 - byte.toNat.log2)) + 1 = 8 * (bytes.length + k) := by
  induction bytes generalizing k with
  | nil => cases h
  | cons b rest ih =>
      rw [fromBytes_cons, List.length_cons]
      by_cases hb : b = 0
      · subst hb
        rw [List.zipIdx_cons, List.find?_cons_of_neg (by simp)] at h
        obtain ⟨hne, hlog⟩ := ih h
        simp only [UInt8.toNat_zero, Nat.mul_zero, Nat.zero_add]
        exact ⟨hne, by omega⟩
      · rw [List.zipIdx_cons, List.find?_cons_of_pos (by simp [hb])] at h
        cases h
        have hne : byte.toNat ≠ 0 := fun hzero => hb (UInt8.toNat_inj.mp hzero)
        have hlog : byte.toNat.log2 < 8 := (Nat.log2_lt hne).mpr byte.toNat_lt
        have hpos := Nat.mul_ne_zero (Nat.two_pow_pos (8 * rest.length)).ne' hne
        rw [log2_two_pow_mul_add hne (fromBytes_lt rest)]
        omega

theorem fromBytes_eq_zero {bytes : Bytes} {k : Nat}
    (h : (bytes.zipIdx k).find? (·.1 ≠ 0) = none) : fromBytes bytes = 0 := by
  induction bytes generalizing k with
  | nil => rfl
  | cons b rest ih =>
      rw [List.zipIdx_cons, List.find?_cons] at h
      split at h
      · cases h
      next hb =>
        have hzero : b = 0 := by simpa using hb
        rw [fromBytes_cons, hzero, ih h]
        simp

end WasixEth.Rlp
