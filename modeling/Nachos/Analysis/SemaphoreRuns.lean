import Mathlib.Tactic.Linarith
import Nachos.Library.Runs
import Nachos.Model.Semaphore

/-!
# What a semaphore guarantees, and up to which value

The header says of `value` that it is always non-negative (threads/synch.h:50). The
accounting behind it is `value = initialValue + completedV - completedP`, and the
wake-up rule is that a unit never lies in the semaphore next to sleepers unless
somebody already woken is on the way to take it:

* `V` on a non-empty queue raises `value` and the number of woken threads together;
* a woken thread that tests again either takes a unit, lowering both, or finds
  `value == 0`, and then there is nothing to account for;
* a `V` on an empty queue, or a barging `P`, leaves nobody asleep behind a free unit.

All of it rests on `value++` not wrapping. `semaphore_sound_iff_below_max` says so in
both directions: the guarantees hold along a run exactly when no `V` of the run finds
`value` at `2^31 - 1`.
-/

set_option autoImplicit false

namespace Nachos.Analysis

open Nachos.Library Nachos.Model

variable {s s' : SemState} {initialValue w : BitVec 32}

/-! ## The two operations -/

theorem Semaphore.p_of_zero {s : Semaphore} (t : ThreadId) (h : s.value = 0#32) :
    s.p t = ({ s with queue := s.queue ++ [t] }, false) := by
  simp [Semaphore.p, h]

theorem Semaphore.p_of_ne_zero {s : Semaphore} (t : ThreadId) (h : s.value ≠ 0#32) :
    s.p t = ({ s with value := s.value - 1#32 }, true) := by
  simp [Semaphore.p, h]

theorem Semaphore.value_v (s : Semaphore) : s.v.1.value = s.value + 1#32 := by
  unfold Semaphore.v
  split <;> rfl

theorem toInt_sub_one (h0 : 0 ≤ w.toInt) (hne : w ≠ 0#32) : (w - 1#32).toInt = w.toInt - 1 := by
  have hpos : w.toInt ≠ 0 := fun h => hne (BitVec.eq_of_toInt_eq (by simpa using h))
  have hlt := BitVec.toInt_lt (x := w)
  rw [BitVec.toInt_sub, show (1#32).toInt = 1 from rfl]
  exact Int.bmod_eq_of_le (by omega) (by omega)

theorem toInt_add_one (h : w.toInt < 2 ^ 31 - 1) : (w + 1#32).toInt = w.toInt + 1 := by
  have hle := BitVec.le_toInt (x := w)
  rw [BitVec.toInt_add, show (1#32).toInt = 1 from rfl]
  exact Int.bmod_eq_of_le (by omega) (by omega)

theorem toInt_add_one_of_max (h : ¬ w.toInt < 2 ^ 31 - 1) : (w + 1#32).toInt < 0 := by
  have hlt := BitVec.toInt_lt (x := w)
  have hw : w = 0x7fffffff#32 := BitVec.eq_of_toInt_eq (by
    rw [show (0x7fffffff#32).toInt = 2 ^ 31 - 1 from rfl]
    omega)
  subst hw
  decide

/-! ## The guarantees -/

/-- What a semaphore created with `initialValue` promises in every state: its value is
not negative, is the initial value plus the completed `V`s less the completed `P`s,
and with somebody asleep does not exceed the number of woken threads that have yet
to test it. -/
structure SemGood (initialValue : BitVec 32) (s : SemState) : Prop where
  nonneg : 0 ≤ s.sem.value.toInt
  count : s.sem.value.toInt = initialValue.toInt + s.completedV - s.completedP
  wakeup : s.sem.queue ≠ [] → s.sem.value.toInt ≤ s.ready.length

/-- The step is not a `V` on the largest `int`. -/
def BelowMax (s : SemState) : SemEvent → Prop
  | .callV _ => s.sem.value.toInt < 2 ^ 31 - 1
  | _ => True

/-- INTERNAL: the loop test of `P`, by a newcomer or by a woken thread. The bound on the
value is asked only when somebody sleeps, and a woken thread gives its own place in
`ready` away, so `r` is the length `ready` had before. -/
theorem SemGood.testP {t : ThreadId} {r : ℕ} (h0 : 0 ≤ s.sem.value.toInt)
    (hc : s.sem.value.toInt = initialValue.toInt + s.completedV - s.completedP)
    (hw : s.sem.queue ≠ [] → s.sem.value.toInt ≤ r) (hr : r ≤ s.ready.length + 1) :
    SemGood initialValue (s.testP t) := by
  by_cases hz : s.sem.value = 0#32
  · have ht : s.testP t = { s with sem := { s.sem with queue := s.sem.queue ++ [t] } } := by
      simp [SemState.testP, Semaphore.p_of_zero t hz]
    rw [ht]
    refine ⟨h0, hc, fun _ => ?_⟩
    show s.sem.value.toInt ≤ s.ready.length
    rw [hz]
    exact Int.natCast_nonneg _
  · have ht : s.testP t =
        { s with sem := { s.sem with value := s.sem.value - 1#32 }
                 completedP := s.completedP + 1 } := by
      simp [SemState.testP, Semaphore.p_of_ne_zero t hz]
    have hv := toInt_sub_one h0 hz
    have hpos : s.sem.value.toInt ≠ 0 := fun h => hz (BitVec.eq_of_toInt_eq (by simpa using h))
    rw [ht]
    refine ⟨?_, ?_, fun hq => ?_⟩
    · show 0 ≤ (s.sem.value - 1#32).toInt
      omega
    · show (s.sem.value - 1#32).toInt =
        initialValue.toInt + s.completedV - ((s.completedP + 1 : ℕ) : ℤ)
      push_cast
      omega
    · have := hw hq
      show (s.sem.value - 1#32).toInt ≤ s.ready.length
      omega

/-- INTERNAL: a `V` that does not wrap. -/
theorem SemGood.doV (h : SemGood initialValue s) (hmax : s.sem.value.toInt < 2 ^ 31 - 1) :
    SemGood initialValue s.doV := by
  have hv := toInt_add_one hmax
  have h0 := h.nonneg
  have hc := h.count
  cases hq : s.sem.queue with
  | nil =>
    have ht : s.doV = { s with sem := { s.sem with value := s.sem.value + 1#32 }
                               completedV := s.completedV + 1 } := by
      simp [SemState.doV, Semaphore.v, hq]
    rw [ht]
    refine ⟨?_, ?_, fun hne => absurd hq hne⟩
    · show 0 ≤ (s.sem.value + 1#32).toInt
      omega
    · show (s.sem.value + 1#32).toInt =
        initialValue.toInt + ((s.completedV + 1 : ℕ) : ℤ) - s.completedP
      push_cast
      omega
  | cons t rest =>
    have ht : s.doV = { s with sem := { s.sem with queue := rest, value := s.sem.value + 1#32 }
                               ready := s.ready ++ [t], completedV := s.completedV + 1 } := by
      simp [SemState.doV, Semaphore.v, hq]
    have hw := h.wakeup (by rw [hq]; exact List.cons_ne_nil t rest)
    rw [ht]
    refine ⟨?_, ?_, fun _ => ?_⟩
    · show 0 ≤ (s.sem.value + 1#32).toInt
      omega
    · show (s.sem.value + 1#32).toInt =
        initialValue.toInt + ((s.completedV + 1 : ℕ) : ℤ) - s.completedP
      push_cast
      omega
    · show (s.sem.value + 1#32).toInt ≤ ((s.ready ++ [t]).length : ℤ)
      simp only [List.length_append, List.length_singleton, Nat.cast_add, Nat.cast_one]
      omega

theorem SemState.eq_doV_of_step {caller : Option ThreadId} (hs : s.step (.callV caller) = some s') :
    s' = s.doV := by
  cases caller with
  | none => exact (Option.some.inj hs).symm
  | some t =>
    simp only [SemState.step] at hs
    split at hs
    · cases hs
    · exact (Option.some.inj hs).symm

theorem SemState.value_doV (s : SemState) : s.doV.sem.value = s.sem.value + 1#32 := by
  cases hq : s.sem.queue <;> simp [SemState.doV, Semaphore.v, hq]

/-- INTERNAL: every step that does not wrap keeps the guarantees. -/
theorem SemGood.step {e : SemEvent} (h : SemGood initialValue s) (hb : BelowMax s e)
    (hs : s.step e = some s') : SemGood initialValue s' := by
  cases e with
  | callP t =>
    simp only [SemState.step] at hs
    split at hs
    · cases hs
    · cases hs
      exact SemGood.testP h.nonneg h.count h.wakeup (by omega)
  | resume t =>
    simp only [SemState.step] at hs
    split at hs
    · rename_i hmem
      cases hs
      have hlen : (s.ready.erase t).length + 1 = s.ready.length := by
        rw [List.length_erase_of_mem (by simpa using hmem)]
        have := List.length_pos_of_mem (by simpa using hmem : t ∈ s.ready)
        omega
      exact SemGood.testP h.nonneg h.count h.wakeup hlen.ge
    · cases hs
  | callV caller =>
    rw [SemState.eq_doV_of_step hs]
    exact h.doV hb

theorem not_semGood_of_not_belowMax {e : SemEvent} (hb : ¬ BelowMax s e) (hs : s.step e = some s') :
    ¬ SemGood initialValue s' := by
  cases e with
  | callP t => exact absurd trivial hb
  | resume t => exact absurd trivial hb
  | callV caller =>
    intro hgood
    have hneg := toInt_add_one_of_max hb
    have hnonneg := hgood.nonneg
    rw [SemState.eq_doV_of_step hs, SemState.value_doV] at hnonneg
    omega

/-- SOURCE: threads/synch.cc:64-98, threads/synch.h:50 — for a semaphore created with a
non-negative value and any interleaving of `P` and `V` by any threads and handlers, the
guarantees hold in every state of the run exactly when no `V` of it is called at
`value = 2^31 - 1`. -/
theorem semaphore_sound_iff_below_max (debugName : String) (initialValue : BitVec 32)
    (h0 : 0 ≤ initialValue.toInt) (es : List SemEvent) :
    Always SemState.step (SemGood initialValue) (SemState.init debugName initialValue) es ↔
      Meets SemState.step BelowMax (SemState.init debugName initialValue) es := by
  have hinit : SemGood initialValue (SemState.init debugName initialValue) := by
    refine ⟨h0, ?_, fun h => absurd rfl h⟩
    simp [SemState.init, Semaphore.new]
  exact always_iff_meets (fun _ h => h) (fun _ _ _ h hb hs => h.step hb hs)
    (fun _ _ _ _ hb hs => not_semGood_of_not_belowMax hb hs) hinit es

/-- One thread waits, another barges in after the `V`, and the woken one goes back to
sleep: the guarantees hold all along. -/
theorem semaphore_sound_barging :
    Always SemState.step (SemGood 0#32) (SemState.init "join" 0#32)
      [.callP 1, .callV none, .callP 2, .resume 1, .callV (some 2), .resume 1] :=
  (semaphore_sound_iff_below_max "join" 0#32 (by decide) _).mpr (by
    simp [Meets, BelowMax, SemState.init, SemState.step, SemState.inP, SemState.testP,
      SemState.doV, Semaphore.new, Semaphore.p, Semaphore.v])

/-- One `V` on a semaphore created with the largest `int` makes its value negative. -/
theorem semaphore_wraps_at_max :
    ¬ Always SemState.step (SemGood 0x7fffffff#32) (SemState.init "s" 0x7fffffff#32)
      [.callV none] := by
  rintro ⟨-, h⟩
  have hgood : SemGood 0x7fffffff#32 _ := h _ rfl
  exact absurd hgood.nonneg (by decide)

end Nachos.Analysis
