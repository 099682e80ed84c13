import Nachos.Analysis.InstructionResults
import Nachos.Library.DoubleWord

/-!
# The product of two registers

`Mult` multiplies by shifting and adding (`Nachos.Library.DoubleWord`): its 32 rounds, with the
early exit when no bit of `a` is left, compute the product of `a` and `b` as unsigned numbers
(`multLoop_eq`). The arithmetic shift fills `a` with copies of its sign from above, but the
32 rounds do not come to them.

For a signed product both factors are made positive and the product is negated if one of them was
negative. The most negative number stays as it is when it is negated; read as an unsigned
number it is then its own absolute value, which is what the loop needs.
-/

set_option autoImplicit false

namespace Nachos.Analysis

open Nachos.Library Nachos.Model

/-! ## The loop -/

theorem and_one_ne_zero_iff (a : BitVec 32) : a &&& 1#32 ≠ 0#32 ↔ a.toNat % 2 = 1 := by
  have hbit : (a &&& 1#32).toNat = a.toNat % 2 := toNat_and_mask a (show 1 ≤ 32 by omega)
  constructor
  · intro hne
    by_contra heven
    refine hne (BitVec.eq_of_toNat_eq ?_)
    rw [hbit, BitVec.toNat_ofNat]
    omega
  · intro hodd hzero
    rw [hzero, BitVec.toNat_ofNat] at hbit
    omega

theorem eq_one_of_and_eq_zero {a : BitVec 32} (hodd : a.toNat % 2 = 1)
    (h : a &&& 0xfffffffe#32 = 0#32) : a = 1#32 := by
  have hsplit : a = (a &&& 0xfffffffe#32) ||| (a &&& 1#32) := by
    rw [← BitVec.and_or_distrib_left]
    exact (BitVec.and_allOnes (x := a)).symm
  have hbit : (a &&& 1#32).toNat = a.toNat % 2 := toNat_and_mask a (show 1 ≤ 32 by omega)
  rw [hsplit, h, BitVec.zero_or]
  apply BitVec.eq_of_toNat_eq
  rw [hbit, hodd]
  rfl

/-- INTERNAL: **the loop shifts and adds.**
SRCLINE: machine/mipssim.cc:663-678 -/
theorem multLoop_eq (n : ℕ) : ∀ a bLo bHi lo hi : BitVec 32, n ≤ 32 →
    (multLoop n a bLo bHi lo hi).1 ++ (multLoop n a bLo bHi lo hi).2 =
      shiftAdd n a (bHi ++ bLo) (hi ++ lo) := by
  induction n with
  | zero => exact fun a bLo bHi lo hi _ => (shiftAdd_zero a _ _).symm
  | succ n ih =>
    intro a bLo bHi lo hi hn
    unfold multLoop
    by_cases hodd : a.toNat % 2 = 1
    · rw [if_pos ((and_one_ne_zero_iff a).mpr hodd)]
      by_cases hexit : a &&& 0xfffffffe#32 = 0#32
      · simp only [hexit, if_true]
        obtain rfl := eq_one_of_and_eq_zero hodd hexit
        rw [append_add_append]
        have hone : 1 % 2 ^ (n + 1) = 1 := Nat.mod_eq_of_lt (Nat.one_lt_two_pow (Nat.succ_ne_zero n))
        simp [shiftAdd, hone]
      · simp only [hexit, if_false, hasSign_eq]
        rw [ih _ _ _ _ _ (by omega), append_shiftLeft_one, append_add_append,
          shiftAdd_succ (by omega), if_pos hodd]
    · rw [if_neg fun h => hodd ((and_one_ne_zero_iff a).mp h)]
      simp only [hasSign_eq]
      rw [ih _ _ _ _ _ (by omega), append_shiftLeft_one, shiftAdd_succ (by omega), if_neg hodd]

theorem multLoop_product (a b : BitVec 32) :
    ((multLoop 32 a b 0#32 0#32 0#32).1 ++ (multLoop 32 a b 0#32 0#32 0#32).2).toNat =
      a.toNat * b.toNat := by
  rw [multLoop_eq 32 a b 0#32 0#32 0#32 le_rfl]
  exact toNat_shiftAdd a b

/-! ## Signs -/

theorem toNat_magnitude (x : BitVec 32) : (if x.msb then -x else x).toNat = x.toInt.natAbs := by
  have hx := x.isLt
  have hmsb : x.msb = true ↔ 2 ^ 31 ≤ x.toNat := BitVec.msb_eq_true_iff_two_mul_ge.trans (by omega)
  rw [BitVec.toInt_eq_msb_cond]
  by_cases h : x.msb = true
  · have hge := hmsb.mp h
    rw [if_pos h, if_pos h, BitVec.toNat_neg]
    omega
  · rw [if_neg h, if_neg h]
    omega

theorem toInt_of_msb (x : BitVec 32) :
    x.toInt = if x.msb then -(x.toInt.natAbs : ℤ) else (x.toInt.natAbs : ℤ) := by
  rw [BitVec.msb_eq_toInt]
  by_cases h : x.toInt < 0
  · rw [decide_eq_true h, if_pos rfl]
    omega
  · rw [decide_eq_false h, if_neg Bool.false_ne_true]
    omega

theorem mult_eq {a b : BitVec 32} (h : ¬ (a = 0#32 ∨ b = 0#32)) (signedArith : Bool) :
    ∃ p : BitVec (32 + 32),
      p.toNat = (if signedArith && a.msb then -a else a).toNat *
        (if signedArith && b.msb then -b else b).toNat ∧
      (mult a b signedArith).1 ++ (mult a b signedArith).2 =
        if (signedArith && a.msb) != (signedArith && b.msb) then -p else p := by
  refine ⟨_, multLoop_product _ _, ?_⟩
  simp only [mult, if_neg h, hasSign_eq]
  by_cases hneg : ((signedArith && a.msb) != (signedArith && b.msb)) = true
  · rw [if_pos hneg, if_pos hneg]
    exact append_neg _ _
  · rw [if_neg hneg, if_neg hneg]

theorem toInt_product {p : BitVec (32 + 32)} {x y : ℤ} (hx : x.natAbs ≤ 2 ^ 31)
    (hy : y.natAbs ≤ 2 ^ 31) (hp : p.toNat = x.natAbs * y.natAbs) :
    p.toInt = x.natAbs * y.natAbs ∧ (-p).toInt = -(x.natAbs * y.natAbs : ℤ) := by
  have hle : x.natAbs * y.natAbs ≤ 2 ^ 31 * 2 ^ 31 := Nat.mul_le_mul hx hy
  have hint : p.toInt = x.natAbs * y.natAbs := by
    rw [BitVec.toInt_eq_toNat_of_lt (by omega), hp, Nat.cast_mul]
  refine ⟨hint, ?_⟩
  rw [BitVec.toInt_neg_of_ne_intMin, hint]
  rintro rfl
  have hmin : (BitVec.intMin (32 + 32)).toNat = 2 ^ 63 := by decide
  omega

/-- SOURCE: machine/mipssim.cc:635-692 — `Mult` leaves in `hi:lo` the product of its operands, as
signed numbers or as unsigned ones. -/
theorem mult_product (a b : BitVec 32) :
    ((mult a b true).1 ++ (mult a b true).2).toInt = a.toInt * b.toInt ∧
      ((mult a b false).1 ++ (mult a b false).2).toNat = a.toNat * b.toNat := by
  by_cases h : a = 0#32 ∨ b = 0#32
  · have hzero : ∀ signedArith, mult a b signedArith = (0#32, 0#32) := fun _ => if_pos h
    rw [hzero, hzero]
    rcases h with rfl | rfl
    · simp
    · simp
  · constructor
    · obtain ⟨p, hp, hmult⟩ := mult_eq h true
      simp only [Bool.true_and, toNat_magnitude] at hp hmult
      have hbound : ∀ x : BitVec 32, x.toInt.natAbs ≤ 2 ^ 31 := by
        intro x
        have hx := And.intro x.le_toInt x.toInt_lt
        omega
      obtain ⟨hpos, hneg⟩ := toInt_product (hbound a) (hbound b) hp
      rw [hmult, toInt_of_msb a, toInt_of_msb b]
      cases a.msb <;> cases b.msb <;> simp [hpos, hneg]
    · obtain ⟨p, hp, hmult⟩ := mult_eq h false
      simpa [hmult] using hp

-- the most negative number, whose negation wraps around
example : mult 0x80000000#32 0x80000000#32 true = (0x40000000#32, 0#32) := by decide +kernel

end Nachos.Analysis
