import Mathlib.Logic.Function.Basic

/-!
# One cell used in turns

Several parties use one cell, one at a time. When the turn goes to another party, the one that
leaves puts the contents of the cell aside and the one that comes gets back what it had put
aside, provided it is a party that does so at all; the others neither save nor restore.

`view i` is what party `i` would find in the cell if it had its turn now. A change of turns does
not change the view of any party that saves and restores (`view_switch`), and a write to the cell
changes the view of the party whose turn it is and no other (`view_write`): each of them has the
cell to itself.
-/

set_option autoImplicit false

namespace Nachos.Library

/-- A cell, the party whose turn it is, and what the parties have put aside. -/
structure Turns (ι ρ : Type) where
  current : ι
  cell : ρ
  saved : ι → ρ

namespace Turns

variable {ι ρ : Type} [DecidableEq ι]

def view (s : Turns ι ρ) (i : ι) : ρ := if i = s.current then s.cell else s.saved i

def write (s : Turns ι ρ) (c : ρ) : Turns ι ρ := { s with cell := c }

/-- The turn goes to `j`; `saves` says which parties save and restore. -/
def switch (saves : ι → Bool) (s : Turns ι ρ) (j : ι) : Turns ι ρ :=
  let saved := if saves s.current then Function.update s.saved s.current s.cell else s.saved
  ⟨j, if saves j then saved j else s.cell, saved⟩

theorem view_current (s : Turns ι ρ) : s.view s.current = s.cell := if_pos rfl

theorem view_of_ne {s : Turns ι ρ} {i : ι} (h : i ≠ s.current) : s.view i = s.saved i := if_neg h

theorem view_write {s : Turns ι ρ} {i : ι} (h : i ≠ s.current) (c : ρ) :
    (s.write c).view i = s.view i := by
  rw [view_of_ne h, view_of_ne (show i ≠ (s.write c).current from h)]
  rfl

/-- What a party that saves has put aside is what it had in the cell. -/
theorem saved_switch {saves : ι → Bool} {i : ι} (h : saves i = true) (s : Turns ι ρ) (j : ι) :
    (s.switch saves j).saved i = s.view i := by
  by_cases hi : i = s.current
  · subst hi
    simp [switch, view, h]
  · by_cases hc : saves s.current = true <;> simp [switch, view, hi, hc]

/-- **Each party that saves and restores has the cell to itself.** -/
theorem view_switch {saves : ι → Bool} {i : ι} (h : saves i = true) (s : Turns ι ρ) (j : ι) :
    (s.switch saves j).view i = s.view i := by
  rw [← saved_switch h s j]
  by_cases hi : i = j
  · subst hi
    simp [view, switch, h]
  · exact view_of_ne hi

end Turns

end Nachos.Library
