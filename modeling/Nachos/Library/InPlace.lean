import Mathlib.Data.List.Basic
import Mathlib.Logic.Function.Basic

/-!
# Sequences edited in place

A buffer is a sequence of cells. Cells stored one behind the other place a list in it (`placed`),
cells stored through an index map are scattered over it (`scattered`, where a later cell hides
an earlier one at the same index), and swapping the ends of a segment, then the cells next to
them and so on up to the middle, turns it round (`mirroredBy` after so many swaps,
`map_mirroredBy` at the end).
-/

set_option autoImplicit false

namespace Nachos.Library

variable {α : Type}

/-! ## Lists in a sequence -/

/-- The sequence `u` with the list `l` in it, from cell `i` on. -/
def placed (u : ℕ → α) (i : ℕ) (l : List α) : ℕ → α :=
  fun k => if i ≤ k then (l[k - i]?).getD (u k) else u k

theorem placed_nil (u : ℕ → α) (i : ℕ) : placed u i [] = u := by
  funext k
  simp [placed]

/-- The first cell of the list is stored first. -/
theorem placed_cons (u : ℕ → α) (i : ℕ) (a : α) (l : List α) :
    placed (Function.update u i a) (i + 1) l = placed u i (a :: l) := by
  funext k
  unfold placed
  rcases Nat.lt_trichotomy k i with hk | rfl | hk
  · rw [if_neg (by omega), if_neg (by omega), Function.update_of_ne (by omega)]
  · rw [if_neg (by omega), if_pos (Nat.le_refl k), Function.update_self, Nat.sub_self]
    rfl
  · rw [if_pos (by omega), if_pos (by omega), Function.update_of_ne (by omega),
      show k - i = k - (i + 1) + 1 by omega, List.getElem?_cons_succ]

/-- A cell stored behind the list. -/
theorem update_placed (u : ℕ → α) (i : ℕ) (l : List α) (a : α) :
    Function.update (placed u i l) (i + l.length) a = placed u i (l ++ [a]) := by
  induction l generalizing u i with
  | nil =>
    rw [placed_nil, List.length_nil, Nat.add_zero, List.nil_append, ← placed_cons, placed_nil]
  | cons b l ih =>
    rw [← placed_cons, List.length_cons, show i + (l.length + 1) = i + 1 + l.length by omega, ih,
      placed_cons]
    rfl

theorem placed_apply (u : ℕ → α) (l : List α) {k : ℕ} (hk : k < l.length) :
    placed u 0 l k = l[k] := by
  simp [placed, hk]

/-- The list is read back. -/
theorem map_range_placed (u : ℕ → α) (l : List α) : (List.range l.length).map (placed u 0 l) = l := by
  apply List.ext_getElem
  · simp
  · intro k hk hk'
    rw [List.getElem_map, List.getElem_range, placed_apply u l hk']

/-- The first cells of a sequence are a given list. -/
theorem map_range_eq_iff {u : ℕ → α} {l : List α} {n : ℕ} (hlen : l.length = n) :
    (List.range n).map u = l ↔ ∀ i < n, some (u i) = l[i]? := by
  constructor
  · rintro rfl i hi
    rw [List.getElem?_map, List.getElem?_range hi]
    rfl
  · intro hcells
    apply List.ext_getElem?
    intro i
    by_cases hi : i < n
    · rw [← hcells i hi, List.getElem?_map, List.getElem?_range hi]
      rfl
    · rw [List.getElem?_eq_none (by simp; omega), List.getElem?_eq_none (by omega)]

/-! ## Cells at scattered indices -/

section Scattered

variable {ι : Type} [DecidableEq ι]

/-- The memory `old` after the first `n` cells of `u` have been stored, in this order, at the
indices `f` gives. -/
def scattered (f : ℕ → ι) (u : ℕ → α) (old : ι → α) : ℕ → ι → α
  | 0 => old
  | n + 1 => Function.update (scattered f u old n) (f n) (u n)

variable {f : ℕ → ι} {u : ℕ → α} {old : ι → α}

theorem scattered_of_forall_ne {n : ℕ} {x : ι} (h : ∀ k < n, f k ≠ x) :
    scattered f u old n x = old x := by
  induction n with
  | zero => rfl
  | succ n ih =>
    rw [scattered, Function.update_of_ne (h n (Nat.lt_succ_self n)).symm]
    exact ih fun k hk => h k (Nat.lt_succ_of_lt hk)

theorem scattered_last {n : ℕ} : scattered f u old (n + 1) (f n) = u n := Function.update_self _ _ _

/-- **All cells are found again exactly if cells at one index are equal.** -/
theorem scattered_apply_iff {n : ℕ} :
    (∀ k < n, scattered f u old n (f k) = u k) ↔ ∀ i < n, ∀ j < n, f i = f j → u i = u j := by
  constructor
  · intro h i hi j hj hij
    rw [← h i hi, ← h j hj, hij]
  · induction n with
    | zero => exact fun _ k hk => absurd hk (Nat.not_lt_zero k)
    | succ n ih =>
      intro h k hk
      by_cases hkn : f k = f n
      · rw [hkn, scattered_last]
        exact h n (Nat.lt_succ_self n) k hk hkn.symm
      · have hlt : k < n := Nat.lt_of_le_of_ne (Nat.lt_succ_iff.mp hk) fun he => hkn (he ▸ rfl)
        rw [scattered, Function.update_of_ne hkn]
        exact ih (fun i hi j hj => h i (Nat.lt_succ_of_lt hi) j (Nat.lt_succ_of_lt hj)) k hlt

end Scattered

/-! ## Reversal -/

/-- The cells `i` and `j` change places. -/
def swapped (u : ℕ → α) (i j : ℕ) : ℕ → α :=
  Function.update (Function.update u i (u j)) j (u i)

/-- The first `n` cells when the outer `i` of them on both sides have changed places. -/
def mirroredBy (u : ℕ → α) (n i : ℕ) : ℕ → α :=
  fun k => if k < n ∧ (k < i ∨ n ≤ k + i) then u (n - 1 - k) else u k

theorem mirroredBy_zero (u : ℕ → α) (n : ℕ) : mirroredBy u n 0 = u := by
  funext k
  exact if_neg (by omega)

/-- One more swap. -/
theorem swapped_mirroredBy (u : ℕ → α) {n i : ℕ} (hi : i < n / 2) :
    swapped (mirroredBy u n i) i (n - i - 1) = mirroredBy u n (i + 1) := by
  have hleft : mirroredBy u n i i = u i := if_neg (by omega)
  have hright : mirroredBy u n i (n - i - 1) = u (n - i - 1) := if_neg (by omega)
  funext k
  unfold swapped
  rw [hleft, hright]
  by_cases hk : k = n - i - 1
  · subst hk
    rw [Function.update_self]
    refine (if_pos ⟨by omega, Or.inr (by omega)⟩ |>.trans ?_).symm
    congr 1
    omega
  · rw [Function.update_of_ne hk]
    by_cases hk' : k = i
    · subst hk'
      rw [Function.update_self]
      refine (if_pos ⟨by omega, Or.inl (by omega)⟩ |>.trans ?_).symm
      congr 1
      omega
    · rw [Function.update_of_ne hk']
      exact if_congr (by omega) rfl rfl

/-- **After half of the cells the segment is turned round.** -/
theorem map_mirroredBy (u : ℕ → α) (n : ℕ) :
    (List.range n).map (mirroredBy u n (n / 2)) = ((List.range n).map u).reverse := by
  apply List.ext_getElem
  · simp
  · intro k hk _
    have hkn : k < n := by simpa using hk
    have hcell : mirroredBy u n (n / 2) k = u (n - 1 - k) := by
      by_cases hout : k < n / 2 ∨ n ≤ k + n / 2
      · exact if_pos ⟨hkn, hout⟩
      · -- the middle cell stays
        refine (if_neg fun h => hout h.2).trans ?_
        congr 1
        omega
    simp [hcell]

end Nachos.Library
