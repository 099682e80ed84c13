import Mathlib.Data.List.Basic

/-!
# Commands on a state that may stop

A command is an `EStateM ε σ α`: it changes a state and returns a value, or it stops with an error in the
state it has then. `Ends x s Q E` says what is known when `x` is started in `s`: a value and a state
that `Q` holds of, or an error and a state that `E` holds of. The rules follow the way commands are
put together; `Ends.forM` is the invariant rule of a loop over a list.
-/

set_option autoImplicit false

namespace Nachos.Library

variable {ε σ α β : Type}

/-- Started in `s`, the command returns with `Q` or stops with `E`. -/
structure Ends (x : EStateM ε σ α) (s : σ) (Q : α → σ → Prop) (E : ε → σ → Prop) : Prop where
  ok : ∀ a s', x s = .ok a s' → Q a s'
  error : ∀ e s', x s = .error e s' → E e s'

variable {x : EStateM ε σ α} {s s' : σ} {a : α} {e : ε} {Q Q' : α → σ → Prop} {E E' : ε → σ → Prop}

theorem ends_of_ok (h : x s = .ok a s') (hQ : Q a s') : Ends x s Q E := by
  refine ⟨fun b t hx => ?_, fun f t hx => ?_⟩
  · rw [h] at hx
    cases hx
    exact hQ
  · rw [h] at hx
    cases hx

theorem ends_of_error (h : x s = .error e s') (hE : E e s') : Ends x s Q E := by
  refine ⟨fun b t hx => ?_, fun f t hx => ?_⟩
  · rw [h] at hx
    cases hx
  · rw [h] at hx
    cases hx
    exact hE

/-- Two commands that do the same from `s`. -/
theorem Ends.congr {y : EStateM ε σ α} {t : σ} (h : Ends y t Q E) (hxy : x s = y t) : Ends x s Q E :=
  ⟨fun a s' hx => h.ok a s' (hxy.symm.trans hx), fun e s' hx => h.error e s' (hxy.symm.trans hx)⟩

theorem Ends.imp (h : Ends x s Q E) (hQ : ∀ a s', Q a s' → Q' a s') (hE : ∀ e s', E e s' → E' e s') :
    Ends x s Q' E' :=
  ⟨fun a s' hx => hQ a s' (h.ok a s' hx), fun e s' hx => hE e s' (h.error e s' hx)⟩

theorem Ends.imp_ok (h : Ends x s Q E) (hQ : ∀ a s', Q a s' → Q' a s') : Ends x s Q' E :=
  h.imp hQ fun _ _ he => he

theorem Ends.imp_error (h : Ends x s Q E) (hE : ∀ e s', E e s' → E' e s') : Ends x s Q E' :=
  h.imp (fun _ _ hq => hq) hE

theorem bind_of_ok {f : α → EStateM ε σ β} (h : x s = .ok a s') : (x >>= f) s = f a s' := by
  change EStateM.bind x f s = f a s'
  simp only [EStateM.bind, h]

theorem bind_of_error {f : α → EStateM ε σ β} (h : x s = .error e s') :
    (x >>= f) s = .error e s' := by
  change EStateM.bind x f s = .error e s'
  simp only [EStateM.bind, h]

/-- One command after the other. -/
theorem Ends.bind {f : α → EStateM ε σ β} {R : β → σ → Prop} (h : Ends x s Q E)
    (hf : ∀ a s', Q a s' → Ends (f a) s' R E) : Ends (x >>= f) s R E := by
  cases hx : x s with
  | ok a s' => exact (hf a s' (h.ok a s' hx)).congr (bind_of_ok hx)
  | error e s' => exact ends_of_error (bind_of_error hx) (h.error e s' hx)

theorem ends_pure (h : Q a s) : Ends (pure a) s Q E := ends_of_ok rfl h

theorem ends_throw (h : E e s) : Ends (throw e) s Q E := ends_of_error rfl h

theorem ends_set {Q : PUnit → σ → Prop} (h : Q ⟨⟩ s') : Ends (set s') s Q E := ends_of_ok rfl h

theorem ends_modify {g : σ → σ} {Q : PUnit → σ → Prop} (h : Q ⟨⟩ (g s)) : Ends (modify g) s Q E :=
  ends_of_ok rfl h

theorem ends_get_bind {f : σ → EStateM ε σ β} {R : β → σ → Prop} (h : Ends (f s) s R E) :
    Ends (get >>= f) s R E := h.congr rfl

theorem ends_set_bind {f : PUnit → EStateM ε σ β} {R : β → σ → Prop} (h : Ends (f ⟨⟩) s' R E) :
    Ends (set s' >>= f) s R E := h.congr rfl

theorem ends_modify_bind {g : σ → σ} {f : PUnit → EStateM ε σ β} {R : β → σ → Prop}
    (h : Ends (f ⟨⟩) (g s) R E) : Ends (modify g >>= f) s R E := h.congr rfl

/-- **The invariant rule.** What every round keeps, the loop keeps. -/
theorem Ends.forM {ι : Type} {f : ι → EStateM ε σ PUnit} {I : σ → Prop} {is : List ι} (hI : I s)
    (hround : ∀ i ∈ is, ∀ s, I s → Ends (f i) s (fun _ s' => I s') E) :
    Ends (is.forM f) s (fun _ s' => I s') E := by
  induction is generalizing s with
  | nil => exact ends_pure hI
  | cons i is ih =>
    refine (hround i List.mem_cons_self s hI).bind fun _ s' hs' => ?_
    exact ih hs' fun j hj => hround j (List.mem_cons_of_mem i hj)

end Nachos.Library
