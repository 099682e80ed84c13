import Mathlib.Data.List.Nodup
import Mathlib.Logic.Function.Basic

/-!
# Items that are in one place at a time

`place` says where each item is; a list `Holds` a place when it has exactly the items that
are there, each once. A family of queues over which items move one at a time is described
by one function `place`, and each move of an item `a` to `p` is `Function.update place a p`.
The three rules say what such a move does to the list the item joins, to the list whose
front it leaves, and to every other list.
-/

set_option autoImplicit false

namespace Nachos.Library

section Places

variable {α π : Type} {place : α → π} {p q : π} {l : List α} {a : α}

/-- The list has exactly the items placed at `p`, each once. -/
structure Holds (place : α → π) (p : π) (l : List α) : Prop where
  nodup : l.Nodup
  mem : ∀ a, a ∈ l ↔ place a = p

theorem Holds.nil (h : ∀ a, place a ≠ p) : Holds place p [] := by
  refine ⟨List.nodup_nil, fun a => ?_⟩
  constructor
  · intro ha
    exact absurd ha List.not_mem_nil
  · intro ha
    exact absurd ha (h a)

theorem Holds.not_mem (h : Holds place p l) (ha : place a ≠ p) : a ∉ l :=
  fun hmem => ha ((h.mem a).mp hmem)

variable [DecidableEq α]

/-- An item that is at the place occurs once in the list. -/
theorem Holds.count_eq_one (h : Holds place p l) (ha : place a = p) : l.count a = 1 :=
  List.count_eq_one_of_mem h.nodup ((h.mem a).mpr ha)

/-- **Joining.** An item from elsewhere is appended. -/
theorem Holds.append (h : Holds place p l) (ha : place a ≠ p) :
    Holds (Function.update place a p) p (l ++ [a]) := by
  have hnot := h.not_mem ha
  refine ⟨?_, fun b => ?_⟩
  · rw [List.nodup_append]
    refine ⟨h.nodup, List.nodup_singleton a, ?_⟩
    intro b hb c hc hbc
    rw [List.mem_singleton.mp hc] at hbc
    exact hnot (hbc ▸ hb)
  · rw [List.mem_append, List.mem_singleton]
    by_cases hba : b = a
    · simp [hba]
    · rw [Function.update_of_ne hba, h.mem b]
      simp [hba]

/-- **Leaving.** The item at the front goes elsewhere. -/
theorem Holds.tail (h : Holds place p (a :: l)) (hq : q ≠ p) :
    Holds (Function.update place a q) p l := by
  obtain ⟨hnot, hnd⟩ := List.nodup_cons.mp h.nodup
  refine ⟨hnd, fun b => ?_⟩
  by_cases hba : b = a
  · subst hba
    rw [Function.update_self]
    exact ⟨fun hb => absurd hb hnot, fun hb => absurd hb hq⟩
  · rw [Function.update_of_ne hba, ← h.mem b, List.mem_cons]
    simp [hba]

/-- **Standing by.** An item moves between two other places. -/
theorem Holds.other (h : Holds place p l) (ha : place a ≠ p) (hq : q ≠ p) :
    Holds (Function.update place a q) p l := by
  refine ⟨h.nodup, fun b => ?_⟩
  by_cases hba : b = a
  · subst hba
    rw [Function.update_self]
    exact ⟨fun hb => absurd hb (h.not_mem ha), fun hb => absurd hb hq⟩
  · rw [Function.update_of_ne hba]
    exact h.mem b

end Places

end Nachos.Library
