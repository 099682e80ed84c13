import Mathlib.Order.Bounds.Basic
import Mathlib.Tactic.Linarith

/-!
# Slots that pass under a head

A ring of `n` slots turns under a head, one slot in the time `T`: in the interval with the number `k`, from
`T * k` to `T * (k + 1)`, the slot `k % n` passes. `Passes` says that the slot `o` passes as a whole
in that interval and not before the time `t`; `nextPass` is the first such interval
(`nextPass_isLeast`).
-/

set_option autoImplicit false

namespace Nachos.Library

variable {T n o t c k : ℤ}

/-- The slot `o` passes in the interval `k`, which does not begin before `t`. -/
def Passes (T n o t k : ℤ) : Prop := t ≤ T * k ∧ k % n = o % n

/-- The number of the first interval that does not begin before `t`. -/
def nextBoundary (T t : ℤ) : ℤ := -(-t / T)

/-- The first interval from `t` on in which the slot `o` passes. -/
def nextPass (T n o t : ℤ) : ℤ := nextBoundary T t + (o - nextBoundary T t) % n

theorem le_nextBoundary (hT : 0 < T) : t ≤ T * nextBoundary T t := by
  have h := Int.ediv_mul_le (-t) (ne_of_gt hT)
  unfold nextBoundary
  linarith [mul_comm (-t / T) T, mul_neg T (-t / T)]

theorem nextBoundary_lt (hT : 0 < T) : T * nextBoundary T t < t + T := by
  have h := Int.lt_ediv_add_one_mul_self (-t) hT
  unfold nextBoundary
  linarith [mul_comm (-t / T) T, mul_neg T (-t / T), add_mul (-t / T) 1 T]

/-- An interval that does not begin before `t` is not before the first of them. -/
theorem nextBoundary_le (hT : 0 < T) (h : t ≤ T * k) : nextBoundary T t ≤ k := by
  by_contra hlt
  have hle : k ≤ nextBoundary T t - 1 := by omega
  have hmul : T * k ≤ T * (nextBoundary T t - 1) := mul_le_mul_of_nonneg_left hle (le_of_lt hT)
  have hend := nextBoundary_lt (t := t) hT
  linarith [mul_sub T (nextBoundary T t) 1]

/-- The first pass of a slot. -/
theorem nextPass_isLeast (hT : 0 < T) (hn : 0 < n) (o t : ℤ) :
    IsLeast {k | Passes T n o t k} (nextPass T n o t) := by
  have hnonneg := Int.emod_nonneg (o - nextBoundary T t) (ne_of_gt hn)
  refine ⟨⟨?_, ?_⟩, ?_⟩
  · have hmul : 0 ≤ T * ((o - nextBoundary T t) % n) := mul_nonneg (le_of_lt hT) hnonneg
    have hstart := le_nextBoundary (t := t) hT
    unfold nextPass
    linarith [mul_add T (nextBoundary T t) ((o - nextBoundary T t) % n)]
  · rw [nextPass, Int.add_emod_emod, add_sub_cancel]
  · rintro k ⟨hstart, hslot⟩
    have hle := nextBoundary_le hT hstart
    -- the rest of the way from the boundary to `k` is one of the ways from it to the slot
    have hmod : (o - nextBoundary T t) % n = (k - nextBoundary T t) % n := by
      rw [Int.sub_emod, ← hslot, ← Int.sub_emod]
    have hsplit := Int.mul_ediv_add_emod (k - nextBoundary T t) n
    have hquot : 0 ≤ n * ((k - nextBoundary T t) / n) :=
      mul_nonneg (le_of_lt hn) (Int.ediv_nonneg (by omega) (le_of_lt hn))
    rw [nextPass, hmod]
    omega

end Nachos.Library
