import Mathlib.Data.List.Basic
import Nachos.Library.Runs

/-!
# A machine that answers, and what it stands for

An implementation is a step `σ → ι → Option (ο × σ)` that takes a call to an answer and a
new state, where `none` says that the call goes wrong. Its specification is a step
`τ → ι → ο × τ` that is defined everywhere. `Simulates` relates the two by a relation
on their states: from related states no call goes wrong, the answers are the same and
the states stay related. `Simulates.answers` carries this over to sequences of calls of
any length.

Where the specification may refuse a call as well, `run_rel` says that the two refuse the same
runs.

Where several parties act on one state, `run_filter` says that one of them gets as far alone as among
the others.
-/

set_option autoImplicit false

namespace Nachos.Library

section Machines

variable {σ τ ι ο : Type}

/-- The answers to a list of calls and the state after them, `none` if a call goes wrong. -/
def answers (step : σ → ι → Option (ο × σ)) : σ → List ι → Option (List ο × σ)
  | s, [] => some ([], s)
  | s, c :: cs => do
    let (a, s') ← step s c
    let (as, s'') ← answers step s' cs
    return (a :: as, s'')

/-- The answers a specification gives to a list of calls, and the state after them. -/
def replies (spec : τ → ι → ο × τ) : τ → List ι → List ο × τ
  | t, [] => ([], t)
  | t, c :: cs => ((spec t c).1 :: (replies spec (spec t c).2 cs).1, (replies spec (spec t c).2 cs).2)

/-- One call of the implementation is one call of the specification. -/
def Simulates (step : σ → ι → Option (ο × σ)) (spec : τ → ι → ο × τ) (R : σ → τ → Prop) : Prop :=
  ∀ s t c, R s t → ∃ s', step s c = some ((spec t c).1, s') ∧ R s' (spec t c).2

variable {step : σ → ι → Option (ο × σ)} {spec : τ → ι → ο × τ} {R : σ → τ → Prop}

/-- **The simulation rule.** From related states a list of calls gets the answers of the
specification and ends in related states. -/
theorem Simulates.answers (h : Simulates step spec R) {s : σ} {t : τ} (hR : R s t) (cs : List ι) :
    ∃ s', answers step s cs = some ((replies spec t cs).1, s') ∧ R s' (replies spec t cs).2 := by
  induction cs generalizing s t with
  | nil => exact ⟨s, rfl, hR⟩
  | cons c cs ih =>
    obtain ⟨s₁, hstep, hR₁⟩ := h s t c hR
    obtain ⟨s₂, hrest, hR₂⟩ := ih hR₁
    refine ⟨s₂, ?_, hR₂⟩
    simp [Library.answers, replies, hstep, hrest]

end Machines

section Lockstep

variable {σ τ ε : Type} {step : σ → ε → Option σ} {spec : τ → ε → Option τ} {R : σ → τ → Prop}

/-- **The lockstep rule.** If from related states an event happens in both systems or in neither,
and leads to related states, the same holds of runs. -/
theorem run_rel (h : ∀ s t e, R s t → Option.Rel R (step s e) (spec t e)) {s : σ} {t : τ}
    (hR : R s t) (es : List ε) : Option.Rel R (run step s es) (run spec t es) := by
  induction es generalizing s t with
  | nil => exact .some hR
  | cons e es ih =>
    have hrel := h s t e hR
    simp only [run]
    generalize step s e = x at hrel
    generalize spec t e = y at hrel
    cases hrel with
    | some hR' => exact ih hR'
    | none => exact .none

end Lockstep

section Parties

variable {σ τ ε : Type} {step : σ → ε → Option σ} {spec : τ → ε → Option τ}

/-- **The unwinding rule.** `R` relates the states of the whole system to those of one party alone. If
every own step can be taken there too, and a step of another is not seen there, then along with every
run its own steps are a run. -/
theorem run_filter {I : σ → Prop} {R : σ → τ → Prop} {ok : ε → Prop} {own : ε → Bool}
    (hinv : ∀ s e s', I s → ok e → step s e = some s' → I s')
    (hown : ∀ s t e s', I s → R s t → ok e → own e = true → step s e = some s' →
      ∃ t', spec t e = some t' ∧ R s' t')
    (hother : ∀ s t e s', I s → R s t → ok e → own e = false → step s e = some s' → R s' t)
    {s s' : σ} {t : τ} {es : List ε} (hI : I s) (hR : R s t) (hes : ∀ e ∈ es, ok e)
    (hrun : run step s es = some s') : ∃ t', run spec t (es.filter own) = some t' ∧ R s' t' := by
  induction es generalizing s t with
  | nil =>
    cases hrun
    exact ⟨t, rfl, hR⟩
  | cons e es ih =>
    obtain ⟨s₁, hstep, hrest⟩ := run_cons_eq_some.mp hrun
    have hok := hes e List.mem_cons_self
    have hI₁ := hinv s e s₁ hI hok hstep
    have hes₁ : ∀ e ∈ es, ok e := fun e he => hes e (List.mem_cons_of_mem _ he)
    cases he : own e with
    | true =>
      obtain ⟨t₁, hspec, hR₁⟩ := hown s t e s₁ hI hR hok he hstep
      obtain ⟨t', hrun', hR'⟩ := ih hI₁ hR₁ hes₁ hrest
      rw [List.filter_cons_of_pos he]
      exact ⟨t', run_cons_eq_some.mpr ⟨t₁, hspec, hrun'⟩, hR'⟩
    | false =>
      rw [List.filter_cons_of_neg (by simp [he])]
      exact ih hI₁ (hother s t e s₁ hI hR hok he hstep) hes₁ hrest

end Parties

end Nachos.Library
