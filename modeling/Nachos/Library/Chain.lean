import Mathlib.Data.List.Basic
import Mathlib.Logic.Function.Basic

/-!
# Chains of linked cells

Every cell names the next one or none. `Chain next start ps` says that following the links from
`start` visits the cells `ps` and ends. What other cells are linked to does not matter
(`Chain.congr`), and a new cell is put behind one of the chain by two assignments
(`Chain.insertAfter`).
-/

set_option autoImplicit false

namespace Nachos.Library

variable {A : Type}

/-- Following `next` from `start` visits the cells of the list and ends behind them. -/
def Chain (next : A → Option A) : Option A → List A → Prop
  | start, [] => start = none
  | start, p :: ps => start = some p ∧ Chain next (next p) ps

variable {next next' : A → Option A} {start : Option A} {p q : A} {ps qs : List A}

/-- A chain depends on its own cells. -/
theorem Chain.congr (h : Chain next start ps) (hsame : ∀ p ∈ ps, next' p = next p) :
    Chain next' start ps := by
  induction ps generalizing start with
  | nil => exact h
  | cons p ps ih =>
    refine ⟨h.1, ?_⟩
    rw [hsame p List.mem_cons_self]
    exact ih h.2 fun q hq => hsame q (List.mem_cons_of_mem p hq)

theorem Chain.head? (h : Chain next start ps) : start = ps.head? := by
  cases ps with
  | nil => exact h
  | cons p ps => exact h.1

/-- The chain goes on behind one of its cells. -/
theorem Chain.next_eq (h : Chain next start (ps ++ p :: qs)) : next p = qs.head? := by
  induction ps generalizing start with
  | nil => exact h.2.head?
  | cons q ps ih => exact ih h.2

/-- **A new cell behind `p`.** -/
theorem Chain.insertAfter [DecidableEq A] (h : Chain next start (ps ++ p :: qs))
    (hnodup : (ps ++ p :: qs).Nodup) (hnew : q ∉ ps ++ p :: qs) :
    Chain (Function.update (Function.update next q (next p)) p (some q)) start
      (ps ++ p :: q :: qs) := by
  induction ps generalizing start with
  | nil =>
    obtain ⟨hstart, hrest⟩ := h
    simp only [List.nil_append, List.nodup_cons, List.mem_cons, not_or] at hnodup hnew
    refine ⟨hstart, Function.update_self _ _ _, ?_⟩
    rw [Function.update_of_ne hnew.1, Function.update_self]
    refine hrest.congr fun r hr => ?_
    have hrp : r ≠ p := by
      rintro rfl
      exact hnodup.1 hr
    have hrq : r ≠ q := by
      rintro rfl
      exact hnew.2 hr
    rw [Function.update_of_ne hrp, Function.update_of_ne hrq]
  | cons r ps ih =>
    obtain ⟨hstart, hrest⟩ := h
    simp only [List.cons_append, List.nodup_cons, List.mem_cons, not_or] at hnodup hnew
    have hrp : r ≠ p := by
      rintro rfl
      exact hnodup.1 (by simp)
    refine ⟨hstart, ?_⟩
    rw [Function.update_of_ne hrp, Function.update_of_ne (Ne.symm hnew.1)]
    exact ih hrest hnodup.2 hnew.2

end Nachos.Library
