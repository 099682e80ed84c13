import Mathlib.Data.List.Basic

/-!
# Runs of a partial step function

A system is a state type `σ`, an event type `ε` and a step `σ → ε → Option σ`, where
`none` says that the event cannot happen in that state. A run is a list of events;
`run step s es` is the state it ends in, if every event of it can happen.

Statements about runs come in two shapes. `Always` says that a predicate holds in every
state a run passes through; `Meets` says that a condition on (state, event) holds at
every step the run takes. `run_invariant` is the induction every safety proof uses,
and `always_iff_meets` is its exact form: when a condition is both what preserves
the invariant and what the predicate needs, the two notions are the same.
-/

set_option autoImplicit false

namespace Nachos.Library

section Runs

variable {σ ε : Type} (step : σ → ε → Option σ)

/-- The state after a list of events, `none` if one of them cannot happen. -/
def run : σ → List ε → Option σ
  | s, [] => some s
  | s, e :: es =>
    match step s e with
    | none => none
    | some s' => run s' es

/-- Every step the run takes meets `cond` in the state it is taken in. -/
def Meets (cond : σ → ε → Prop) : σ → List ε → Prop
  | _, [] => True
  | s, e :: es => ∀ s', step s e = some s' → cond s e ∧ Meets cond s' es

/-- `P` holds in the first state and in every state the run passes through. -/
def Always (P : σ → Prop) : σ → List ε → Prop
  | s, [] => P s
  | s, e :: es => P s ∧ ∀ s', step s e = some s' → Always P s' es

variable {step}

@[simp] theorem run_nil (s : σ) : run step s [] = some s := rfl

/-- A run that starts with `e` takes the step `e` and runs on from there. -/
theorem run_cons_eq_some {s t : σ} {e : ε} {es : List ε} :
    run step s (e :: es) = some t ↔ ∃ s', step s e = some s' ∧ run step s' es = some t := by
  simp only [run]
  cases step s e <;> simp

theorem run_append_eq_some {s t : σ} {es fs : List ε} :
    run step s (es ++ fs) = some t ↔ ∃ u, run step s es = some u ∧ run step u fs = some t := by
  induction es generalizing s with
  | nil => simp
  | cons e es ih =>
    rw [List.cons_append, run_cons_eq_some]
    constructor
    · rintro ⟨s', hs', hr⟩
      obtain ⟨u, hu, hfs⟩ := ih.mp hr
      exact ⟨u, run_cons_eq_some.mpr ⟨s', hs', hu⟩, hfs⟩
    · rintro ⟨u, hu, hfs⟩
      obtain ⟨s', hs', hr⟩ := run_cons_eq_some.mp hu
      exact ⟨s', hs', ih.mpr ⟨u, hr, hfs⟩⟩

/-- A condition met along a run is met along its first piece, and along the rest from
the state the first piece ends in. -/
theorem Meets.of_append {cond : σ → ε → Prop} {s t : σ} {es fs : List ε}
    (h : Meets step cond s (es ++ fs)) (hr : run step s es = some t) :
    Meets step cond s es ∧ Meets step cond t fs := by
  induction es generalizing s with
  | nil =>
    simp only [run_nil, Option.some.injEq] at hr
    subst hr
    exact ⟨trivial, h⟩
  | cons e es ih =>
    obtain ⟨s', hs, hr'⟩ := run_cons_eq_some.mp hr
    obtain ⟨hc, hm⟩ := h s' hs
    obtain ⟨h1, h2⟩ := ih hm hr'
    refine ⟨fun u hu => ?_, h2⟩
    rw [hs] at hu
    cases hu
    exact ⟨hc, h1⟩

theorem Meets.cons {cond : σ → ε → Prop} {s s' : σ} {e : ε} {es : List ε}
    (hs : step s e = some s') (hc : cond s e) (h : Meets step cond s' es) :
    Meets step cond s (e :: es) := by
  intro t ht
  rw [hs, Option.some.injEq] at ht
  subst ht
  exact ⟨hc, h⟩

/-- A condition that can be decided can be decided along a run. -/
instance decidableMeets {cond : σ → ε → Prop} [∀ s e, Decidable (cond s e)] :
    ∀ (s : σ) (es : List ε), Decidable (Meets step cond s es)
  | _, [] => .isTrue trivial
  | s, e :: es =>
    match hs : step s e with
    | none => .isTrue fun s' hs' => by rw [hs] at hs'; cases hs'
    | some s' =>
      have : Decidable (Meets step cond s' es) := decidableMeets s' es
      decidable_of_iff (cond s e ∧ Meets step cond s' es)
        ⟨fun h => h.2.cons hs h.1, fun h => h s' hs⟩

/-- The same for a run that meets `cond` and ends in a state with `Q`. -/
theorem meets_run_cons {cond : σ → ε → Prop} {Q : σ → Prop} {s s' : σ} {e : ε} {es : List ε}
    (hs : step s e = some s') (hc : cond s e)
    (h : Meets step cond s' es ∧ ∃ t, run step s' es = some t ∧ Q t) :
    Meets step cond s (e :: es) ∧ ∃ t, run step s (e :: es) = some t ∧ Q t := by
  obtain ⟨hmeets, t, hrun, hQ⟩ := h
  exact ⟨hmeets.cons hs hc, t, run_cons_eq_some.mpr ⟨s', hs, hrun⟩, hQ⟩

/-- **The invariant rule.** What every step that meets `cond` preserves holds at the
end of every run whose steps all meet `cond`. -/
theorem run_invariant {I : σ → Prop} {cond : σ → ε → Prop}
    (hstep : ∀ s e s', I s → cond s e → step s e = some s' → I s')
    {s t : σ} {es : List ε} (hs : I s) (hc : Meets step cond s es)
    (hr : run step s es = some t) : I t := by
  induction es generalizing s with
  | nil =>
    simp only [run_nil, Option.some.injEq] at hr
    exact hr ▸ hs
  | cons e es ih =>
    obtain ⟨s', hs', hr'⟩ := run_cons_eq_some.mp hr
    obtain ⟨hce, hm⟩ := hc s' hs'
    exact ih (hstep s e s' hs hce hs') hm hr'

/-- A condition that every event of the run meets in every state is met along the run. -/
theorem meets_of_forall {cond : σ → ε → Prop} {es : List ε} (h : ∀ s, ∀ e ∈ es, cond s e)
    (s : σ) : Meets step cond s es := by
  induction es generalizing s with
  | nil => trivial
  | cons e es ih =>
    intro s' _
    exact ⟨h s e List.mem_cons_self, ih (fun s e he => h s e (List.mem_cons_of_mem _ he)) s'⟩

/-- The invariant rule for runs under no condition. -/
theorem run_invariant_free {I : σ → Prop} (hstep : ∀ s e s', I s → step s e = some s' → I s')
    {s t : σ} {es : List ε} (hs : I s) (hr : run step s es = some t) : I t := by
  have hm : Meets step (fun _ _ => True) s es := meets_of_forall (fun _ _ _ => trivial) s
  exact run_invariant (fun s e s' hI _ hs' => hstep s e s' hI hs') hs hm hr

/-- **Runs that cannot get stuck.** If from every state with the invariant every admissible
event can happen and keeps the invariant, then every list of admissible events is a run. -/
theorem run_total {I : σ → Prop} {ok : ε → Prop}
    (hstep : ∀ s e, I s → ok e → ∃ s', step s e = some s' ∧ I s')
    {s : σ} {es : List ε} (hs : I s) (hes : ∀ e ∈ es, ok e) :
    ∃ t, run step s es = some t ∧ I t := by
  induction es generalizing s with
  | nil => exact ⟨s, rfl, hs⟩
  | cons e es ih =>
    obtain ⟨s', hs', hI⟩ := hstep s e hs (hes e List.mem_cons_self)
    obtain ⟨t, ht, hIt⟩ := ih hI fun e he => hes e (List.mem_cons_of_mem _ he)
    exact ⟨t, run_cons_eq_some.mpr ⟨s', hs', ht⟩, hIt⟩

/-- A predicate that holds always along a run holds where the run starts. -/
theorem Always.head {P : σ → Prop} {s : σ} {es : List ε} (h : Always step P s es) : P s := by
  cases es with
  | nil => exact h
  | cons e es => exact h.1

/-- A weaker predicate holds wherever a stronger one does. -/
theorem Always.imp {P Q : σ → Prop} {s : σ} {es : List ε} (h : Always step P s es)
    (himp : ∀ s, P s → Q s) : Always step Q s es := by
  induction es generalizing s with
  | nil => exact himp s h
  | cons e es ih => exact ⟨himp s h.1, fun s' hs' => ih (h.2 s' hs')⟩

/-- What an invariant implies holds in every state of a run whose steps meet the condition
that carries the invariant. -/
theorem always_of_meets {I P : σ → Prop} {cond : σ → ε → Prop}
    (hP : ∀ s, I s → P s)
    (hstep : ∀ s e s', I s → cond s e → step s e = some s' → I s')
    {s : σ} (hs : I s) {es : List ε} (h : Meets step cond s es) : Always step P s es := by
  induction es generalizing s with
  | nil => exact hP s hs
  | cons e es ih =>
    refine ⟨hP s hs, fun s' hs' => ?_⟩
    obtain ⟨hc, hm⟩ := h s' hs'
    exact ih (hstep s e s' hs hc hs') hm

/-- What an invariant and the condition that carries it imply at a step holds at every step of
a run whose steps meet the condition. -/
theorem meets_of_meets {I : σ → Prop} {cond Q : σ → ε → Prop}
    (hQ : ∀ s e s', I s → cond s e → step s e = some s' → Q s e)
    (hstep : ∀ s e s', I s → cond s e → step s e = some s' → I s')
    {s : σ} (hs : I s) {es : List ε} (h : Meets step cond s es) : Meets step Q s es := by
  induction es generalizing s with
  | nil => trivial
  | cons e es ih =>
    intro s' hs'
    obtain ⟨hc, hm⟩ := h s' hs'
    exact ⟨hQ s e s' hs hc hs', ih (hstep s e s' hs hc hs') hm⟩

/-- **The exact condition of a property of runs.** If `cond` carries the invariant from
state to state, the invariant gives `P`, and a step against `cond` leads to a state
without `P`, then `P` holds always along a run exactly when all its steps meet `cond`. -/
theorem always_iff_meets {I P : σ → Prop} {cond : σ → ε → Prop}
    (hP : ∀ s, I s → P s)
    (hstep : ∀ s e s', I s → cond s e → step s e = some s' → I s')
    (hfail : ∀ s e s', I s → ¬ cond s e → step s e = some s' → ¬ P s')
    {s : σ} (hs : I s) (es : List ε) : Always step P s es ↔ Meets step cond s es := by
  refine ⟨fun h => ?_, always_of_meets hP hstep hs⟩
  induction es generalizing s with
  | nil => trivial
  | cons e es ih =>
    intro s' hs'
    by_cases hc : cond s e
    · exact ⟨hc, ih (hstep s e s' hs hc hs') (h.2 s' hs')⟩
    · exact absurd (h.2 s' hs').head (hfail s e s' hs hc hs')

/-- Two conditions that agree wherever the invariant holds and the step is admissible are met by
the same runs of admissible steps. -/
theorem meets_congr_of_meets {I : σ → Prop} {ok cond cond' : σ → ε → Prop}
    (hiff : ∀ s e s', I s → ok s e → step s e = some s' → (cond s e ↔ cond' s e))
    (hstep : ∀ s e s', I s → step s e = some s' → I s')
    {s : σ} (hs : I s) {es : List ε} (hes : Meets step ok s es) :
    Meets step cond s es ↔ Meets step cond' s es := by
  induction es generalizing s with
  | nil => exact Iff.rfl
  | cons e es ih =>
    apply forall_congr'
    intro s'
    apply forall_congr'
    intro hs'
    obtain ⟨hok, hrest⟩ := hes s' hs'
    exact and_congr (hiff s e s' hs hok hs') (ih (hstep s e s' hs hs') hrest)

/-- Two conditions that agree wherever the invariant holds are met by the same runs. -/
theorem meets_congr {I : σ → Prop} {cond cond' : σ → ε → Prop}
    (hiff : ∀ s e s', I s → step s e = some s' → (cond s e ↔ cond' s e))
    (hstep : ∀ s e s', I s → step s e = some s' → I s')
    {s : σ} (hs : I s) (es : List ε) : Meets step cond s es ↔ Meets step cond' s es :=
  meets_congr_of_meets (fun s e s' hI _ => hiff s e s' hI) hstep hs
    (meets_of_forall (fun _ _ _ => trivial) s)

end Runs

end Nachos.Library
