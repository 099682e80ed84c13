import Mathlib.Data.BitVec
import Mathlib.Tactic.Ring

/-!
# Double words

A number of twice the width of a word is kept in two words, `hi ++ lo`. Programs add two of them
word by word and find the carry by comparing the sum with a summand, double one by moving the sign
bit of the lower word into the upper one, and negate one by complementing both words and adding
one. Each is the operation of the ring `BitVec (w + w)`.

A multiplication by shifting and adding takes the bits of one factor from the lowest on and doubles
the other factor at each. `shiftAdd` is what such a loop has to compute: the accumulator, and the
factor times the number the remaining bits stand for.
-/

set_option autoImplicit false

namespace Nachos.Library

variable {w : ℕ}

theorem toNat_append_eq (hi lo : BitVec w) : (hi ++ lo).toNat = hi.toNat * 2 ^ w + lo.toNat := by
  rw [BitVec.toNat_append, ← Nat.shiftLeft_add_eq_or_of_lt lo.isLt, Nat.shiftLeft_eq]

theorem mul_add_mod_mul {x l M : ℕ} (hl : l < M) : (x * M + l) % (M * M) = x % M * M + l := by
  have hM : 0 < M := Nat.zero_lt_of_lt hl
  rw [Nat.mod_mul, Nat.add_comm (x * M) l, Nat.add_mul_mod_self_right, Nat.mod_eq_of_lt hl,
    Nat.add_mul_div_right _ _ hM, Nat.div_eq_of_lt hl, Nat.zero_add, Nat.mul_comm M, Nat.add_comm]

/-- The sum of two words is below a summand exactly if there is a carry. -/
theorem ult_add_iff (x y : BitVec w) : (x + y).ult y = true ↔ 2 ^ w ≤ x.toNat + y.toNat := by
  have hx := x.isLt
  have hy := y.isLt
  rw [BitVec.ult_iff_lt, BitVec.lt_def, BitVec.toNat_add]
  by_cases h : 2 ^ w ≤ x.toNat + y.toNat
  · rw [Nat.mod_eq_sub_mod h, Nat.mod_eq_of_lt (by omega)]
    omega
  · rw [Nat.mod_eq_of_lt (by omega)]
    omega

/-- **Addition with a carry.** -/
theorem append_add_append (hi lo hi' lo' : BitVec w) :
    ((if (lo + lo').ult lo' then hi + 1#w else hi) + hi') ++ (lo + lo') =
      (hi ++ lo) + (hi' ++ lo') := by
  have hlo := lo.isLt
  have hlo' := lo'.isLt
  apply BitVec.eq_of_toNat_eq
  rw [BitVec.toNat_add, toNat_append_eq, toNat_append_eq, toNat_append_eq, Nat.pow_add]
  by_cases hcarry : 2 ^ w ≤ lo.toNat + lo'.toNat
  · have hsum : hi.toNat * 2 ^ w + lo.toNat + (hi'.toNat * 2 ^ w + lo'.toNat) =
        (hi.toNat + 1 + hi'.toNat) * 2 ^ w + (lo.toNat + lo'.toNat - 2 ^ w) := by
      rw [Nat.add_mul, Nat.add_mul]
      omega
    rw [if_pos ((ult_add_iff lo lo').mpr hcarry), hsum, mul_add_mod_mul (by omega),
      BitVec.toNat_add, BitVec.toNat_add, BitVec.toNat_add, BitVec.toNat_ofNat,
      Nat.mod_eq_sub_mod hcarry, Nat.mod_eq_of_lt (show lo.toNat + lo'.toNat - 2 ^ w < 2 ^ w by omega)]
    simp only [Nat.add_mod_mod, Nat.mod_add_mod]
  · have hsum : hi.toNat * 2 ^ w + lo.toNat + (hi'.toNat * 2 ^ w + lo'.toNat) =
        (hi.toNat + hi'.toNat) * 2 ^ w + (lo.toNat + lo'.toNat) := by
      rw [Nat.add_mul]
      omega
    rw [if_neg fun h => hcarry ((ult_add_iff lo lo').mp h), hsum, mul_add_mod_mul (by omega),
      BitVec.toNat_add, BitVec.toNat_add, Nat.mod_eq_of_lt (Nat.not_le.mp hcarry)]

/-- **Doubling.** The sign bit of the lower word moves into the upper one. -/
theorem append_shiftLeft_one (hi lo : BitVec w) :
    (if lo.msb then hi <<< 1 ||| 1#w else hi <<< 1) ++ (lo <<< 1) = (hi ++ lo) <<< 1 := by
  apply BitVec.eq_of_getLsbD_eq
  intro i hi'
  simp only [BitVec.getLsbD_append, BitVec.getLsbD_shiftLeft]
  by_cases hlow : i < w
  · have hlow' : i - 1 < w := by omega
    simp [hlow, hlow', hi']
  · have hw : 0 < w := by omega
    by_cases hfirst : i = w
    · subst hfirst
      have hlast : i - 1 < i := by omega
      rw [BitVec.msb_eq_getLsbD_last]
      cases lo.getLsbD (i - 1) with
      | false => simp [hw, hlast]
      | true =>
        simp [hw, hlast]
        omega
    · have hbit : ¬ i - 1 < w := by omega
      have hpos : ¬ i = 0 := by omega
      have hone : ¬ i - w = 0 := by omega
      have hcell : i - w - 1 = i - 1 - w := by omega
      have hin : i - 1 - w < w := by omega
      have hin' : i - w < w := by omega
      cases lo.msb with
      | false => simp [hlow, hbit, hi', hone, hcell, hin, hin', hpos]
      | true => simp [hlow, hbit, hi', hone, hcell, hin, hin', hpos]

/-- **Negation** complements both words and adds one. -/
theorem append_neg (hi lo : BitVec (w + 1)) :
    (if ~~~lo + 1#(w + 1) = 0#(w + 1) then ~~~hi + 1#(w + 1) else ~~~hi) ++ (~~~lo + 1#(w + 1)) =
      -(hi ++ lo) := by
  have hone : (0#(w + 1) ++ 1#(w + 1) : BitVec (w + 1 + (w + 1))) = 1#(w + 1 + (w + 1)) := by
    apply BitVec.eq_of_toNat_eq
    rw [toNat_append_eq, BitVec.toNat_one (by omega), BitVec.toNat_one (by omega)]
    simp
  have hcarry : (~~~lo + 1#(w + 1)).ult 1#(w + 1) = true ↔ ~~~lo + 1#(w + 1) = 0#(w + 1) := by
    rw [BitVec.ult_iff_lt, BitVec.lt_def, BitVec.toNat_one (by omega), Nat.lt_one_iff]
    exact ⟨fun h => BitVec.eq_of_toNat_eq (by simpa using h), fun h => by rw [h]; simp⟩
  rw [BitVec.neg_eq_not_add, BitVec.not_append, ← hone, ← append_add_append, BitVec.add_zero]
  simp only [hcarry]

/-! ## Shift and add -/

/-- The bits of an arithmetic shift that come from the word. -/
theorem toNat_sshiftRight_one_mod (a : BitVec w) {n : ℕ} (hn : n < w) :
    (a.sshiftRight 1).toNat % 2 ^ n = a.toNat / 2 % 2 ^ n := by
  apply Nat.eq_of_testBit_eq
  intro i
  rw [Nat.testBit_mod_two_pow, Nat.testBit_mod_two_pow]
  by_cases hi : i < n
  · have hbit := BitVec.getLsbD_sshiftRight a 1 i
    rw [if_pos (by omega)] at hbit
    have hw : ¬ w ≤ i := by omega
    simp only [hw, decide_false, Bool.not_false, Bool.true_and] at hbit
    rw [← BitVec.getLsbD, hbit, BitVec.getLsbD, Nat.testBit_div_two, Nat.add_comm]
  · simp [hi]

/-- The accumulator of a multiplication with `n` bits of `a` left, when it is done. -/
def shiftAdd (n : ℕ) (a : BitVec w) (factor acc : BitVec (w + w)) : BitVec (w + w) :=
  acc + ((a.toNat % 2 ^ n : ℕ) : BitVec (w + w)) * factor

theorem shiftAdd_zero (a : BitVec w) (factor acc : BitVec (w + w)) :
    shiftAdd 0 a factor acc = acc := by
  simp [shiftAdd, Nat.mod_one]

/-- **One round.** The lowest bit of `a` decides whether the factor is added. -/
theorem shiftAdd_succ {n : ℕ} (hn : n < w) (a : BitVec w) (factor acc : BitVec (w + w)) :
    shiftAdd (n + 1) a factor acc =
      shiftAdd n (a.sshiftRight 1) (factor <<< 1)
        (if a.toNat % 2 = 1 then acc + factor else acc) := by
  have hbits : a.toNat % 2 ^ (n + 1) = a.toNat % 2 + 2 * (a.toNat / 2 % 2 ^ n) := by
    rw [Nat.pow_succ', Nat.mod_mul]
  have hdouble : factor <<< 1 = 2 * factor := by
    apply BitVec.eq_of_toNat_eq
    rw [BitVec.toNat_shiftLeft, Nat.shiftLeft_eq, Nat.pow_one, two_mul, BitVec.toNat_add, mul_two]
  unfold shiftAdd
  rw [toNat_sshiftRight_one_mod a hn, hbits, hdouble]
  rcases Nat.mod_two_eq_zero_or_one a.toNat with h | h
  · rw [h, if_neg (by omega)]
    push_cast
    ring
  · rw [h, if_pos rfl]
    push_cast
    ring

/-- **All bits of a word** give the product of two words. -/
theorem toNat_shiftAdd (a b : BitVec w) :
    (shiftAdd w a (0#w ++ b) (0#w ++ 0#w)).toNat = a.toNat * b.toNat := by
  have hprod : a.toNat * b.toNat < 2 ^ (w + w) := by
    rw [Nat.pow_add]
    exact Nat.mul_lt_mul'' a.isLt b.isLt
  have hzero : (0#w ++ 0#w : BitVec (w + w)) = 0 := by
    apply BitVec.eq_of_toNat_eq
    rw [toNat_append_eq]
    simp
  unfold shiftAdd
  rw [hzero, zero_add, BitVec.toNat_mul, toNat_append_eq, BitVec.natCast_eq_ofNat,
    BitVec.toNat_ofNat, Nat.mod_eq_of_lt a.isLt, Nat.mod_mul_mod]
  simpa using Nat.mod_eq_of_lt hprod

end Nachos.Library
