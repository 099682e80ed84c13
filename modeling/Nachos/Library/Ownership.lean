import Mathlib.Data.List.Nodup
import Mathlib.Data.Set.Basic
import Mathlib.Logic.Function.Basic

/-!
# Exclusive ownership of marked resources

An allocator marks the resources that are in use; their owners list the ones they hold.
`Owned held marked` says that the two views agree and that nothing is held twice: no
owner lists a resource twice, no two owners list the same one, and a resource is marked
exactly when somebody holds it. So nothing is shared, nothing is leaked and nothing is
free while it is in use.

An owner that holds nothing may take any list of unmarked resources, and any owner may
give back all it holds. How many owners there are does not matter.
-/

set_option autoImplicit false

namespace Nachos.Library

variable {ι α : Type}

/-- Every marked resource has exactly one holder, which lists it once. -/
structure Owned (held : ι → List α) (marked : Set α) : Prop where
  nodup : ∀ o, (held o).Nodup
  disjoint : ∀ o o', o ≠ o' → ∀ a ∈ held o, a ∉ held o'
  marked_iff : ∀ a, a ∈ marked ↔ ∃ o, a ∈ held o

namespace Owned

variable {held : ι → List α} {marked marked' : Set α}

/-- A held resource is marked. -/
theorem mem_marked (h : Owned held marked) {o : ι} {a : α} (ha : a ∈ held o) : a ∈ marked :=
  (h.marked_iff a).mpr ⟨o, ha⟩

/-- Nobody holds anything of an empty allocator. -/
theorem of_empty (hheld : ∀ o, held o = []) (hmarked : ∀ a, a ∉ marked) : Owned held marked := by
  refine ⟨fun o => ?_, fun o o' _ a ha => ?_, fun a => ?_⟩
  · rw [hheld o]
    exact List.nodup_nil
  · rw [hheld o] at ha
    exact absurd ha List.not_mem_nil
  · refine ⟨fun ha => absurd ha (hmarked a), ?_⟩
    rintro ⟨o, ho⟩
    rw [hheld o] at ho
    exact absurd ho List.not_mem_nil

/-- Ownership only depends on what the owners hold and what is marked. -/
theorem congr {held' : ι → List α} (h : Owned held marked) (hheld : ∀ o, held' o = held o)
    (hmarked : ∀ a, a ∈ marked' ↔ a ∈ marked) : Owned held' marked' := by
  have heq : held' = held := funext hheld
  subst heq
  exact ⟨h.nodup, h.disjoint, fun a => (hmarked a).trans (h.marked_iff a)⟩

variable [DecidableEq ι]

/-- **Taking.** An owner that holds nothing takes a list of unmarked resources, which are
marked with it. -/
theorem acquire (h : Owned held marked) {o : ι} (ho : held o = []) {l : List α} (hl : l.Nodup)
    (hfree : ∀ a ∈ l, a ∉ marked) (hm : ∀ a, a ∈ marked' ↔ a ∈ marked ∨ a ∈ l) :
    Owned (Function.update held o l) marked' := by
  have hother : ∀ o', o' ≠ o → Function.update held o l o' = held o' := fun o' hne =>
    Function.update_of_ne hne l held
  refine ⟨fun o' => ?_, fun o₁ o₂ hne a h₁ h₂ => ?_, fun a => ?_⟩
  · by_cases ho' : o' = o
    · rw [ho', Function.update_self]
      exact hl
    · rw [hother o' ho']
      exact h.nodup o'
  · by_cases e₁ : o₁ = o
    · subst e₁
      rw [Function.update_self] at h₁
      rw [hother o₂ hne.symm] at h₂
      exact hfree a h₁ (h.mem_marked h₂)
    · rw [hother o₁ e₁] at h₁
      by_cases e₂ : o₂ = o
      · subst e₂
        rw [Function.update_self] at h₂
        exact hfree a h₂ (h.mem_marked h₁)
      · rw [hother o₂ e₂] at h₂
        exact h.disjoint o₁ o₂ hne a h₁ h₂
  · rw [hm a, h.marked_iff a]
    constructor
    · rintro (⟨o', ha⟩ | ha)
      · have hne : o' ≠ o := by
          rintro rfl
          rw [ho] at ha
          exact absurd ha List.not_mem_nil
        exact ⟨o', by rwa [hother o' hne]⟩
      · exact ⟨o, by rwa [Function.update_self]⟩
    · rintro ⟨o', ha⟩
      by_cases ho' : o' = o
      · rw [ho', Function.update_self] at ha
        exact Or.inr ha
      · rw [hother o' ho'] at ha
        exact Or.inl ⟨o', ha⟩

/-- **Giving back.** An owner gives back all it holds, and that is unmarked. -/
theorem release (h : Owned held marked) (o : ι)
    (hm : ∀ a, a ∈ marked' ↔ a ∈ marked ∧ a ∉ held o) :
    Owned (Function.update held o []) marked' := by
  have hsub : ∀ o' a, a ∈ Function.update held o [] o' → o' ≠ o ∧ a ∈ held o' := by
    intro o' a ha
    by_cases ho' : o' = o
    · rw [ho', Function.update_self] at ha
      exact absurd ha List.not_mem_nil
    · rw [Function.update_of_ne ho'] at ha
      exact ⟨ho', ha⟩
  refine ⟨fun o' => ?_, fun o₁ o₂ hne a h₁ h₂ => ?_, fun a => ?_⟩
  · by_cases ho' : o' = o
    · rw [ho', Function.update_self]
      exact List.nodup_nil
    · rw [Function.update_of_ne ho']
      exact h.nodup o'
  · exact h.disjoint o₁ o₂ hne a (hsub o₁ a h₁).2 (hsub o₂ a h₂).2
  · rw [hm a, h.marked_iff a]
    constructor
    · rintro ⟨⟨o', ha⟩, hno⟩
      have hne : o' ≠ o := by
        rintro rfl
        exact hno ha
      exact ⟨o', by rwa [Function.update_of_ne hne]⟩
    · rintro ⟨o', ha⟩
      obtain ⟨hne, ha⟩ := hsub o' a ha
      exact ⟨⟨o', ha⟩, h.disjoint o' o hne a ha⟩

end Owned

end Nachos.Library
