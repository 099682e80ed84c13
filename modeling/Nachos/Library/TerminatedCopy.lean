import Mathlib.Data.Nat.Notation
import Mathlib.Logic.Function.Basic

/-!
# Copies that stop behind a terminator

A loop that copies the cells of a sequence one by one, up to a limit, and stops when it has copied
the terminator reaches a cell exactly if no cell before it is the terminator. `copied` is the
destination afterwards. The two lemmas on `copied` are the step of such a loop and its early exit.
-/

set_option autoImplicit false

namespace Nachos.Library

variable {α : Type} {stop : α} {u : ℕ → α}

/-- No cell before `i` is the terminator. -/
def Reached (stop : α) (u : ℕ → α) (i : ℕ) : Prop := ∀ j < i, u j ≠ stop

theorem reached_zero (stop : α) (u : ℕ → α) : Reached stop u 0 :=
  fun j hj => absurd hj (Nat.not_lt_zero j)

theorem Reached.mono {i j : ℕ} (h : Reached stop u j) (hij : i ≤ j) : Reached stop u i :=
  fun k hk => h k (Nat.lt_of_lt_of_le hk hij)

theorem Reached.succ {i : ℕ} (h : Reached stop u i) (hi : u i ≠ stop) : Reached stop u (i + 1) := by
  intro j hj
  rcases Nat.lt_succ_iff_lt_or_eq.mp hj with hj | rfl
  · exact h j hj
  · exact hi

theorem not_reached_of_stop {i j : ℕ} (hi : u i = stop) (hij : i < j) : ¬ Reached stop u j :=
  fun h => h i hij hi

variable [DecidableEq α]

instance (stop : α) (u : ℕ → α) (i : ℕ) : Decidable (Reached stop u i) :=
  inferInstanceAs (Decidable (∀ j < i, u j ≠ stop))

/-- The sequence `old` after the copy of at most `limit` cells of `u`. -/
def copied (stop : α) (u : ℕ → α) (limit : ℕ) (old : ℕ → α) : ℕ → α :=
  fun i => if i < limit ∧ Reached stop u i then u i else old i

theorem copied_zero (old : ℕ → α) : copied stop u 0 old = old := by
  funext i
  exact if_neg fun h => Nat.not_lt_zero i h.1

/-- One more cell. -/
theorem copied_succ {i : ℕ} (h : Reached stop u i) (old : ℕ → α) :
    Function.update (copied stop u i old) i (u i) = copied stop u (i + 1) old := by
  funext k
  by_cases hk : k = i
  · subst hk
    rw [Function.update_self]
    exact (if_pos ⟨Nat.lt_succ_self k, h⟩).symm
  · rw [Function.update_of_ne hk]
    refine if_congr (and_congr_left fun _ => ?_) rfl rfl
    rw [Nat.lt_succ_iff_lt_or_eq]
    exact ⟨Or.inl, fun hor => hor.resolve_right hk⟩

/-- Nothing is copied behind the terminator. -/
theorem copied_of_stop {i limit : ℕ} (hi : u i = stop) (hlt : i < limit) (old : ℕ → α) :
    copied stop u (i + 1) old = copied stop u limit old := by
  funext k
  refine if_congr ?_ rfl rfl
  constructor
  · exact fun h => ⟨Nat.lt_of_le_of_lt (Nat.lt_succ_iff.mp h.1) hlt, h.2⟩
  · rintro ⟨-, h⟩
    refine ⟨?_, h⟩
    by_contra hk
    exact not_reached_of_stop hi (Nat.lt_of_succ_le (Nat.not_lt.mp hk)) h

end Nachos.Library
