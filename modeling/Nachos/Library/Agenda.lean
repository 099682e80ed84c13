import Mathlib.Data.List.Perm.Basic
import Mathlib.Order.Lattice

/-!
# An agenda

Events are posted for a time that has not been passed, and the first of them is carried out when its
time has come. `Ordered` says that the events still waiting are in the order of their times, that
those carried out were in this order too and not too early, and that every event posted so far is
either waiting or was carried out once. Posting, waiting in another order, advancing the clock and carrying
out the first event keep it.

`due` counts the events whose time has come. Posting an event for later does not change it and
carrying one out makes it smaller, so carrying out what is due comes to an end even if every event
posts others.
-/

set_option autoImplicit false

namespace Nachos.Library

variable {E T : Type} [LinearOrder T]

/-- The agenda at the time `now`: the events `waiting`, those `done` with the time that was, and how many were
posted. -/
structure Ordered (time : E → T) (serial : E → ℕ) (now : T) (waiting : List E) (done : List (E × T))
    (posted : ℕ) : Prop where
  sorted : waiting.Pairwise fun a b => time a ≤ time b
  inTurn : done.Pairwise fun a b => time a.1 ≤ time b.1
  punctual : ∀ d ∈ done, time d.1 ≤ d.2 ∧ d.2 ≤ now
  behind : ∀ d ∈ done, ∀ e ∈ waiting, time d.1 ≤ time e
  accounted : ((done.map Prod.fst ++ waiting).map serial).Perm (List.range posted)

/-- How many events are waiting whose time has come. -/
def due (time : E → T) (now : T) (waiting : List E) : ℕ := waiting.countP fun e => time e ≤ now

variable {time : E → T} {serial : E → ℕ} {now now' : T} {waiting waiting' : List E}
  {done : List (E × T)} {posted : ℕ} {e : E}

/-- A new event for a time that has not been passed. -/
theorem Ordered.post (h : Ordered time serial now waiting done posted)
    (hsorted : waiting'.Pairwise fun a b => time a ≤ time b) (hperm : waiting'.Perm (e :: waiting))
    (htime : now ≤ time e) (hserial : serial e = posted) :
    Ordered time serial now waiting' done (posted + 1) := by
  refine ⟨hsorted, h.inTurn, h.punctual, fun d hd a ha => ?_, ?_⟩
  · rcases List.mem_cons.mp (hperm.mem_iff.mp ha) with rfl | ha
    · exact (le_trans (h.punctual d hd).1 (h.punctual d hd).2).trans htime
    · exact h.behind d hd a ha
  · have hmove : (done.map Prod.fst ++ waiting').Perm (e :: (done.map Prod.fst ++ waiting)) :=
      (hperm.append_left _).trans List.perm_middle
    have hserials := hmove.map serial
    rw [List.map_cons, hserial] at hserials
    rw [List.range_succ]
    exact hserials.trans ((h.accounted.cons posted).trans (List.perm_append_singleton _ _).symm)

/-- The waiting events in another order. -/
theorem Ordered.reorder (h : Ordered time serial now waiting done posted)
    (hsorted : waiting'.Pairwise fun a b => time a ≤ time b) (hperm : waiting'.Perm waiting) :
    Ordered time serial now waiting' done posted :=
  ⟨hsorted, h.inTurn, h.punctual, fun d hd a ha => h.behind d hd a (hperm.mem_iff.mp ha),
    ((hperm.append_left _).map serial).trans h.accounted⟩

theorem Ordered.advance (h : Ordered time serial now waiting done posted) (hnow : now ≤ now') :
    Ordered time serial now' waiting done posted :=
  { h with punctual := fun d hd => ⟨(h.punctual d hd).1, (h.punctual d hd).2.trans hnow⟩ }

/-- The first event is carried out. -/
theorem Ordered.carryOut (h : Ordered time serial now (e :: waiting) done posted)
    (hdue : time e ≤ now) :
    Ordered time serial now waiting (done ++ [(e, now)]) posted := by
  obtain ⟨hfirst, hsorted⟩ := List.pairwise_cons.mp h.sorted
  refine ⟨hsorted, ?_, fun d hd => ?_, fun d hd a ha => ?_, ?_⟩
  · refine List.pairwise_append.mpr ⟨h.inTurn, List.pairwise_singleton _ _, fun d hd b hb => ?_⟩
    rw [List.mem_singleton.mp hb]
    exact h.behind d hd e List.mem_cons_self
  · rcases List.mem_append.mp hd with hd | hd
    · exact h.punctual d hd
    · rw [List.mem_singleton.mp hd]
      exact ⟨hdue, le_rfl⟩
  · rcases List.mem_append.mp hd with hd | hd
    · exact h.behind d hd a (List.mem_cons_of_mem e ha)
    · rw [List.mem_singleton.mp hd]
      exact hfirst a ha
  · have hsplit : (done ++ [(e, now)]).map Prod.fst ++ waiting = done.map Prod.fst ++ e :: waiting := by
      simp
    rw [hsplit]
    exact h.accounted

/-! ## What is due -/

theorem due_perm (hperm : waiting'.Perm waiting) : due time now waiting' = due time now waiting :=
  hperm.countP_eq _

theorem due_le_length : due time now waiting ≤ waiting.length := List.countP_le_length

theorem due_cons_of_lt (h : now < time e) : due time now (e :: waiting) = due time now waiting := by
  simp [due, not_le.mpr h]

theorem due_cons_of_le (h : time e ≤ now) :
    due time now (e :: waiting) = due time now waiting + 1 := by
  simp [due, h]

/-- If the first event is not due, none is. -/
theorem Ordered.none_due (h : Ordered time serial now (e :: waiting) done posted)
    (hlate : now < time e) : ∀ a ∈ e :: waiting, now < time a := by
  intro a ha
  rcases List.mem_cons.mp ha with rfl | ha
  · exact hlate
  · exact hlate.trans_le ((List.pairwise_cons.mp h.sorted).1 a ha)

end Nachos.Library
