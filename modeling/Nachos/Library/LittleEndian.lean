import Mathlib.Data.BitVec

/-!
# Arrays of 32-bit words as bytes, and back

The memory of an array of words on a little-endian host: byte `k` belongs to word `k / 4`
and holds its bits from `8 * (k % 4)` on. `bytesOf` views words as bytes and `wordAt`
reads a word out of bytes; reading gives back the words that were viewed, and a word
depends on its own four bytes only.
-/

set_option autoImplicit false

namespace Nachos.Library

/-- Byte `k` of an array of words. -/
def bytesOf (words : ℕ → BitVec 32) (k : ℕ) : BitVec 8 :=
  (words (k / 4)).extractLsb' (8 * (k % 4)) 8

/-- Word `i` of an array of bytes. -/
def wordAt (bytes : ℕ → BitVec 8) (i : ℕ) : BitVec 32 :=
  bytes (4 * i + 3) ++ bytes (4 * i + 2) ++ bytes (4 * i + 1) ++ bytes (4 * i)

/-- Bit `j` of a word is bit `j % 8` of its byte `j / 8`. -/
theorem getLsbD_wordAt (bytes : ℕ → BitVec 8) (i : ℕ) {j : ℕ} (hj : j < 32) :
    (wordAt bytes i).getLsbD j = (bytes (4 * i + j / 8)).getLsbD (j % 8) := by
  simp only [wordAt, BitVec.getLsbD_append]
  by_cases h₁ : j < 8
  · have hd : j / 8 = 0 := by omega
    have hm : j % 8 = j := by omega
    simp [h₁, hd, hm]
  · by_cases h₂ : j - 8 < 8
    · have hd : j / 8 = 1 := by omega
      have hm : j % 8 = j - 8 := by omega
      simp [h₁, h₂, hd, hm]
    · by_cases h₃ : j - 8 - 8 < 8
      · have hd : j / 8 = 2 := by omega
        have hm : j % 8 = j - 8 - 8 := by omega
        simp [h₁, h₂, h₃, hd, hm]
      · have hd : j / 8 = 3 := by omega
        have hm : j % 8 = j - 8 - 8 - 8 := by omega
        simp [h₁, h₂, h₃, hd, hm]

/-- Reading a word back out of the bytes of an array. -/
@[simp] theorem wordAt_bytesOf (words : ℕ → BitVec 32) (i : ℕ) :
    wordAt (bytesOf words) i = words i := by
  apply BitVec.eq_of_getLsbD_eq
  intro j hj
  rw [getLsbD_wordAt _ _ hj]
  have hword : (4 * i + j / 8) / 4 = i := by omega
  have hbyte : (4 * i + j / 8) % 4 = j / 8 := by omega
  have hbit : 8 * (j / 8) + j % 8 = j := by omega
  have hlt : j % 8 < 8 := Nat.mod_lt _ (by omega)
  simp only [bytesOf, hword, hbyte, BitVec.getLsbD_extractLsb', hlt, hbit, decide_true,
    Bool.true_and]

/-- A word depends on its own four bytes. -/
theorem wordAt_congr {bytes bytes' : ℕ → BitVec 8} {i : ℕ}
    (h : ∀ k, 4 * i ≤ k → k < 4 * i + 4 → bytes' k = bytes k) : wordAt bytes' i = wordAt bytes i := by
  unfold wordAt
  rw [h (4 * i + 3) (by omega) (by omega), h (4 * i + 2) (by omega) (by omega),
    h (4 * i + 1) (by omega) (by omega), h (4 * i) (by omega) (by omega)]

end Nachos.Library
