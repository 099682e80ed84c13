import Mathlib.Algebra.Group.Int.Defs
import Mathlib.Algebra.Group.Nat.Defs

/-!
# Fields and signs of machine words

Programs take fields of a word with shifts and masks, test its sign with a mask, and detect an
overflow by comparing signs. Here these are `extractLsb'`, `msb` and the range of the exact result.
-/

set_option autoImplicit false

namespace Nachos.Library

variable {w : ℕ}

/-! ## Fields -/

/-- A mask of the `n` low bits. -/
theorem toNat_and_mask (x : BitVec w) {n : ℕ} (hn : n ≤ w) :
    (x &&& BitVec.ofNat w (2 ^ n - 1)).toNat = x.toNat % 2 ^ n := by
  have hpos : 0 < 2 ^ n := Nat.two_pow_pos n
  have hle : 2 ^ n ≤ 2 ^ w := Nat.pow_le_pow_right (by omega) hn
  rw [BitVec.toNat_and, BitVec.toNat_ofNat, Nat.mod_eq_of_lt (by omega),
    Nat.and_two_pow_sub_one_eq_mod]

/-- A field taken with a shift and a mask. -/
theorem toNat_shift_and_mask (x : BitVec w) (k : ℕ) {n : ℕ} (hn : n ≤ w) :
    ((x >>> k) &&& BitVec.ofNat w (2 ^ n - 1)).toNat = (x.extractLsb' k n).toNat := by
  rw [toNat_and_mask _ hn, BitVec.toNat_ushiftRight, BitVec.extractLsb'_toNat]

/-- The low bits of a sign extension. -/
theorem setWidth_signExtend_self {n : ℕ} (x : BitVec n) (hn : n ≤ w) :
    (x.signExtend w).setWidth n = x := by
  ext i hi
  simp [BitVec.getLsbD_signExtend, hi]
  omega

/-- The low bits of a sign extension, taken with a mask. -/
theorem and_mask_signExtend {n : ℕ} (x : BitVec n) (hn : n ≤ w) :
    x.signExtend w &&& BitVec.ofNat w (2 ^ n - 1) = x.setWidth w := by
  apply BitVec.eq_of_toNat_eq
  rw [toNat_and_mask _ hn, ← BitVec.toNat_setWidth, setWidth_signExtend_self x hn,
    BitVec.toNat_setWidth_of_le hn]

/-! ## Signs -/

/-- A mask of the sign bit. -/
theorem and_signBit_ne_zero (x : BitVec (w + 1)) :
    x &&& BitVec.twoPow (w + 1) w ≠ 0 ↔ x.msb = true := by
  have hbit : x.msb = x.getLsbD w := BitVec.msb_eq_getLsbD_last x
  rw [hbit, BitVec.and_twoPow]
  cases x.getLsbD w with
  | false => simp
  | true => simp

/-! ## Shifts -/

/-- A shift to the left multiplies. -/
theorem shiftLeft_eq_ofNat (x : BitVec w) (k : ℕ) : x <<< k = BitVec.ofNat w (x.toNat * 2 ^ k) := by
  apply BitVec.eq_of_toNat_eq
  rw [BitVec.toNat_shiftLeft, BitVec.toNat_ofNat, Nat.shiftLeft_eq]

/-- A logical shift to the right divides the unsigned value. -/
theorem ushiftRight_eq_ofNat (x : BitVec w) (k : ℕ) : x >>> k = BitVec.ofNat w (x.toNat / 2 ^ k) := by
  apply BitVec.eq_of_toNat_eq
  rw [BitVec.toNat_ushiftRight, BitVec.toNat_ofNat, Nat.shiftRight_eq_div_pow,
    Nat.mod_eq_of_lt (Nat.lt_of_le_of_lt (Nat.div_le_self _ _) x.isLt)]

/-- An arithmetic shift to the right divides the signed value. -/
theorem sshiftRight_eq_ofInt (x : BitVec w) (k : ℕ) :
    x.sshiftRight k = BitVec.ofInt w (x.toInt / 2 ^ k) := by
  rw [BitVec.sshiftRight, Int.shiftRight_eq_div_pow]
  rfl

/-- The two shifts to the right agree on words without a sign, and if nothing is shifted. -/
theorem sshiftRight_eq_ushiftRight_iff (x : BitVec w) (k : ℕ) :
    x.sshiftRight k = x >>> k ↔ x.msb = false ∨ k = 0 := by
  constructor
  · intro h
    by_cases hk : k = 0
    · exact Or.inr hk
    · have hmsb := congrArg BitVec.msb h
      rw [BitVec.msb_sshiftRight, BitVec.msb_ushiftRight] at hmsb
      left
      simpa [Nat.pos_of_ne_zero hk] using hmsb
  · rintro (hmsb | rfl)
    · exact BitVec.sshiftRight_eq_of_msb_false hmsb
    · simp

end Nachos.Library
