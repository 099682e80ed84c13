import Nachos.Library.Runs

/-!
# A slot for one item

Some events of a system put an item into a slot, some empty it, and the others leave it. An item is
lost when the slot is full at an event that fills it. Along a run from an empty slot this never
happens exactly if between any two events that fill the slot there is one that empties it.
-/

set_option autoImplicit false

namespace Nachos.Library

section Slot

variable {σ ε : Type} {step : σ → ε → Option σ}

/-- How events act on the slot, in states with the invariant `I`. -/
structure SlotRules (step : σ → ε → Option σ) (I full : σ → Prop) (fills : ε → Prop)
    (empties : σ → ε → Prop) : Prop where
  invariant : ∀ s e s', I s → step s e = some s' → I s'
  fill : ∀ s e s', I s → fills e → step s e = some s' → full s'
  empty : ∀ s e s', I s → ¬ fills e → empties s e → step s e = some s' → ¬ full s'
  keep : ∀ s e s', I s → ¬ fills e → ¬ empties s e → step s e = some s' → (full s' ↔ full s)

/-- No event on the way from `s` along `es` empties the slot. -/
def NeverEmptied (step : σ → ε → Option σ) (empties : σ → ε → Prop) (s : σ) (es : List ε) : Prop :=
  Meets step (fun s e => ¬ empties s e) s es

/-- The run comes to the end of `mid` and to an event there that fills the slot. -/
def FillsAfter (step : σ → ε → Option σ) (fills : ε → Prop) (s : σ) (mid : List ε) (e : ε) : Prop :=
  fills e ∧ ∃ u, run step s (mid ++ [e]) = some u

/-- Between any two events of the run that fill the slot there is one that empties it. -/
def EmptiedBetween (step : σ → ε → Option σ) (fills : ε → Prop) (empties : σ → ε → Prop) (s : σ)
    (es : List ε) : Prop :=
  ∀ (pre : List ε) (e : ε) (mid : List ε) (e' : ε) (post : List ε) (t : σ),
    es = pre ++ e :: (mid ++ e' :: post) → fills e → run step s (pre ++ [e]) = some t →
    FillsAfter step fills t mid e' → ¬ NeverEmptied step empties t mid

/-- Before the first event that fills the slot there is one that empties it. -/
def EmptiedBefore (step : σ → ε → Option σ) (fills : ε → Prop) (empties : σ → ε → Prop) (s : σ)
    (es : List ε) : Prop :=
  ∀ (mid : List ε) (e' : ε) (post : List ε), es = mid ++ e' :: post →
    FillsAfter step fills s mid e' → ¬ NeverEmptied step empties s mid

variable {I full : σ → Prop} {fills : ε → Prop} {empties : σ → ε → Prop} {s s' : σ} {e : ε}
  {es : List ε}

theorem FillsAfter.cons {mid : List ε} {e' : ε} (hs : step s e = some s')
    (h : FillsAfter step fills s' mid e') : FillsAfter step fills s (e :: mid) e' := by
  obtain ⟨hfill, u, hrun⟩ := h
  exact ⟨hfill, u, run_cons_eq_some.mpr ⟨s', hs, hrun⟩⟩

theorem EmptiedBetween.tail (h : EmptiedBetween step fills empties s (e :: es))
    (hs : step s e = some s') : EmptiedBetween step fills empties s' es := by
  intro pre e₁ mid e₂ post t hes hfill hrun
  refine h (e :: pre) e₁ mid e₂ post t (by rw [hes]; rfl) hfill ?_
  exact run_cons_eq_some.mpr ⟨s', hs, hrun⟩

theorem EmptiedBetween.after_fill (h : EmptiedBetween step fills empties s (e :: es))
    (hs : step s e = some s') (hfill : fills e) : EmptiedBefore step fills empties s' es := by
  intro mid e' post hes hafter
  refine h [] e mid e' post s' (by rw [hes]; rfl) hfill ?_ hafter
  exact run_cons_eq_some.mpr ⟨s', hs, rfl⟩

theorem EmptiedBefore.tail (h : EmptiedBefore step fills empties s (e :: es))
    (hs : step s e = some s') (hkeep : ¬ empties s e) : EmptiedBefore step fills empties s' es := by
  intro mid e' post hes hafter hnever
  exact h (e :: mid) e' post (by rw [hes]; rfl) (hafter.cons hs) (Meets.cons hs hkeep hnever)

/-- A full slot stays full as long as it is not emptied. -/
theorem SlotRules.full_of_neverEmptied (hrules : SlotRules step I full fills empties) (hI : I s)
    (hfull : full s) {t : σ} (hnever : NeverEmptied step empties s es)
    (hrun : run step s es = some t) : full t ∧ I t := by
  refine run_invariant (I := fun s => full s ∧ I s) ?_ ⟨hfull, hI⟩ hnever hrun
  rintro s e s' ⟨hfull, hI⟩ hkeep hs
  refine ⟨?_, hrules.invariant s e s' hI hs⟩
  by_cases hfill : fills e
  · exact hrules.fill s e s' hI hfill hs
  · exact (hrules.keep s e s' hI hfill hkeep hs).mpr hfull

/-- One direction of the rule, for a slot that may be full at the start. -/
theorem SlotRules.meets_of_emptied (hrules : SlotRules step I full fills empties) (hI : I s)
    (hbefore : full s → EmptiedBefore step fills empties s es)
    (hbetween : EmptiedBetween step fills empties s es) :
    Meets step (fun s e => fills e → ¬ full s) s es := by
  induction es generalizing s with
  | nil => trivial
  | cons e es ih =>
    intro s' hs
    have hI' := hrules.invariant s e s' hI hs
    refine ⟨fun hfill hfull => ?_, ih hI' (fun hfull' => ?_) (hbetween.tail hs)⟩
    · -- nothing lies before the first event, so nothing has emptied the slot
      refine hbefore hfull [] e es rfl ⟨hfill, s', ?_⟩ trivial
      exact run_cons_eq_some.mpr ⟨s', hs, rfl⟩
    · by_cases hfill : fills e
      · exact hbetween.after_fill hs hfill
      · by_cases hempty : empties s e
        · exact absurd hfull' (hrules.empty s e s' hI hfill hempty hs)
        · exact (hbefore ((hrules.keep s e s' hI hfill hempty hs).mp hfull')).tail hs hempty

/-- **When no item is lost.** -/
theorem SlotRules.meets_iff (hrules : SlotRules step I full fills empties) (hI : I s)
    (hstart : ¬ full s) :
    Meets step (fun s e => fills e → ¬ full s) s es ↔ EmptiedBetween step fills empties s es := by
  refine ⟨fun h => ?_, hrules.meets_of_emptied hI fun hfull => absurd hfull hstart⟩
  rintro pre e mid e' post t rfl hfill hrun ⟨hfill', u, hrun'⟩ hnever
  obtain ⟨s₁, hpre, hlast⟩ := run_append_eq_some.mp hrun
  obtain ⟨t', hstep, ht⟩ := run_cons_eq_some.mp hlast
  cases ht
  have hI₁ : I s₁ := run_invariant_free (fun s e s' hI hs => hrules.invariant s e s' hI hs) hI hpre
  have hfull := hrules.fill s₁ e t hI₁ hfill hstep
  obtain ⟨s₂, hmid, hend⟩ := run_append_eq_some.mp hrun'
  obtain ⟨u', hstep', -⟩ := run_cons_eq_some.mp hend
  obtain ⟨hfull₂, -⟩ := hrules.full_of_neverEmptied (hrules.invariant s₁ e t hI₁ hstep) hfull hnever hmid
  have hrest := (h.of_append hpre).2 t hstep
  exact ((hrest.2.of_append hmid).2 u' hstep').1 hfill' hfull₂

end Slot

end Nachos.Library
