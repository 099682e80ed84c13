import Mathlib.Logic.Function.Basic

/-!
# Code that is run by one at a time

Each of a family of parties is at a point of its code or nowhere (`at_`). Some points lie
`inside` a section. `Nobody` says that no party is there and `Only` that one is, and which. The
rules say what the move of one party does to the two: entering, moving on inside, leaving, and
moving about outside.
-/

set_option autoImplicit false

namespace Nachos.Library

section Exclusion

variable {ι γ : Type} {inside : γ → Bool} {at_ : ι → Option γ} {t u : ι} {c d : γ} {x : Option γ}

/-- No party is inside. -/
def Nobody (inside : γ → Bool) (at_ : ι → Option γ) : Prop :=
  ∀ u d, at_ u = some d → inside d = false

/-- Party `t` is inside, at `c`, and no other is. -/
structure Only (inside : γ → Bool) (at_ : ι → Option γ) (t : ι) (c : γ) : Prop where
  here : at_ t = some c
  isInside : inside c = true
  only : ∀ u d, at_ u = some d → inside d = true → u = t

/-- Whoever is inside is the one. -/
theorem Only.unique (h : Only inside at_ t c) (hu : at_ u = some d) (hd : inside d = true) :
    u = t ∧ d = c := by
  obtain rfl := h.only u d hu hd
  exact ⟨rfl, Option.some.inj (hu.symm.trans h.here)⟩

theorem Nobody.elim {P : Prop} (h : Nobody inside at_) (hu : at_ u = some d)
    (hd : inside d = true) : P := by
  rw [h u d hu] at hd
  cases hd

/-- The two statements depend on the parties inside only. -/
theorem Only.congr {at' : ι → Option γ} (h : Only inside at_ t c)
    (hat : ∀ u d, inside d = true → (at' u = some d ↔ at_ u = some d)) : Only inside at' t c :=
  ⟨(hat t c h.isInside).mpr h.here, h.isInside, fun u d hu hd => h.only u d ((hat u d hd).mp hu) hd⟩

theorem Nobody.congr {at' : ι → Option γ} (h : Nobody inside at_)
    (hat : ∀ u d, inside d = true → (at' u = some d ↔ at_ u = some d)) : Nobody inside at' := by
  intro u d hu
  cases hd : inside d with
  | false => rfl
  | true => exact h.elim ((hat u d hd).mp hu) hd

variable [DecidableEq ι]

/-- **Outside.** A party that is outside before and after its move changes nothing inside. -/
theorem update_outside (hbefore : ∀ c, at_ t = some c → inside c = false)
    (hafter : ∀ c, x = some c → inside c = false) (u : ι) (d : γ) (hd : inside d = true) :
    Function.update at_ t x u = some d ↔ at_ u = some d := by
  by_cases hut : u = t
  · subst hut
    rw [Function.update_self]
    constructor
    · intro h
      rw [hafter d h] at hd
      cases hd
    · intro h
      rw [hbefore d h] at hd
      cases hd
  · rw [Function.update_of_ne hut]

/-- **Entering.** -/
theorem Nobody.enter (h : Nobody inside at_) (t : ι) (hc : inside c = true) :
    Only inside (Function.update at_ t (some c)) t c := by
  refine ⟨Function.update_self _ _ _, hc, fun u d hu hd => ?_⟩
  by_contra hut
  rw [Function.update_of_ne hut] at hu
  exact h.elim hu hd

/-- **Moving on inside.** -/
theorem Only.move (h : Only inside at_ t c) (hd : inside d = true) :
    Only inside (Function.update at_ t (some d)) t d := by
  refine ⟨Function.update_self _ _ _, hd, fun u e hu he => ?_⟩
  by_contra hut
  rw [Function.update_of_ne hut] at hu
  exact hut (h.only u e hu he)

/-- **Leaving.** -/
theorem Only.leave (h : Only inside at_ t c) : Nobody inside (Function.update at_ t none) := by
  intro u d hu
  by_cases hut : u = t
  · rw [hut, Function.update_self] at hu
    cases hu
  · rw [Function.update_of_ne hut] at hu
    cases hd : inside d with
    | false => rfl
    | true => exact absurd (h.only u d hu hd) hut

end Exclusion

end Nachos.Library
