import Mathlib.Data.BitVec
import Nachos.Model.Disk
import Nachos.Model.Utility

/-!
# When 32-bit arithmetic is exact

The wrapped integers of `Nachos.Model.Utility` are the plain ones as long as they stay in
the range of their type, and `divRoundUp` by the sector size is then the ceiling.
-/

set_option autoImplicit false

namespace Nachos.Analysis

open Nachos.Model

theorem toInt32_of_lt {x : ℤ} (h : -2 ^ 31 ≤ x) (h' : x < 2 ^ 31) : toInt32 x = x := by
  unfold toInt32
  rw [Int.bmod_def]
  omega

theorem toInt32_lt (x : ℤ) : toInt32 x < 2 ^ 31 := by
  unfold toInt32
  rw [Int.bmod_def]
  omega

theorem toUInt32_of_lt {x : ℤ} (h : 0 ≤ x) (h' : x < 2 ^ 32) : toUInt32 x = x :=
  Int.emod_eq_of_lt h h'

theorem toInt_ofInt_of_lt {x : ℤ} (h : -2 ^ 31 ≤ x) (h' : x < 2 ^ 31) :
    (BitVec.ofInt 32 x).toInt = x := by
  rw [BitVec.toInt_ofInt]
  exact toInt32_of_lt h h'

theorem toNat_of_nonneg {x : BitVec 32} (h : 0 ≤ x.toInt) : (x.toNat : ℤ) = x.toInt := by
  rw [BitVec.toInt_eq_toNat_cond] at h ⊢
  have := x.isLt
  split at h <;> split <;> omega

theorem divRoundUpInt_sectorSize {n : ℤ} (h : 0 ≤ n) :
    divRoundUpInt n sectorSize = (n + 127) / 128 := by
  unfold divRoundUpInt
  rw [Int.tdiv_eq_ediv_of_nonneg h, Int.tmod_eq_emod_of_nonneg h]
  split
  · simp only [sectorSize] at *
    omega
  · simp only [sectorSize] at *
    omega

theorem divRoundUpInt_of_neg {n : ℤ} (h : n < 0) :
    divRoundUpInt n sectorSize = -(-n / 128) := by
  obtain ⟨m, rfl⟩ : ∃ m, n = -m := ⟨-n, by omega⟩
  unfold divRoundUpInt
  rw [Int.neg_tdiv, Int.neg_tmod, Int.tdiv_eq_ediv_of_nonneg (by omega),
    Int.tmod_eq_emod_of_nonneg (by omega)]
  have hsector : (sectorSize : ℤ) = 128 := rfl
  rw [hsector, if_neg (by omega)]
  omega

end Nachos.Analysis
