import Mathlib.Tactic.Linarith
import Nachos.Library.Runs
import Nachos.Model.SemaphoreTable
import Nachos.Analysis.BitMapSet

/-!
# How many `Wait`s a named semaphore lets through

`TabInv` is what every reachable state of the semaphore table satisfies: an occupied
slot is marked in the bitmap, no name occurs twice, and a thread inside `Wait(name)`
waits on the slot of that name. With it a step is one of five effects (`Effect`), each
at one slot, and everything else follows by cases on the effect.

The value of the semaphore created as `n` with `semval` is always
`semval + signalled n - waited n` modulo `2^32`, read as an unsigned number. `P` passes
when this is not `0`, so for `semval ≥ 0` the number of `Wait`s stays below
`semval + signalled n`, overflow included. A negative `semval` is a large unsigned
number: `while (value == 0)` never holds it back, and the first `Wait` already returns.
-/

set_option autoImplicit false

namespace Nachos.Analysis

open Nachos.Library Nachos.Model

variable {s s' : SemTabState} {n name : String} {i : ℕ} {tab : STable} {semval : BitVec 32}
  {e : SemTabEvent} {sem : Semaphore} {t : ThreadId}

/-! ## Looking a name up -/

theorem STable.named_iff :
    tab.named name i = true ↔ ∃ sem, tab.lockTab i = some sem ∧ sem.name = name := by
  unfold STable.named
  cases tab.lockTab i <;> simp

theorem STable.lookup_some (h : tab.lookup name = some i) :
    i < maxSemaphore ∧ ∃ sem, tab.lockTab i = some sem ∧ sem.name = name := by
  have hmem := List.mem_of_find?_eq_some h
  have hp := List.find?_some h
  exact ⟨List.mem_range.mp hmem, STable.named_iff.mp hp⟩

theorem STable.lookup_none (h : tab.lookup name = none) (hi : i < maxSemaphore)
    (hsem : tab.lockTab i = some sem) : sem.name ≠ name := by
  intro hname
  have := List.find?_eq_none.mp h i (List.mem_range.mpr hi)
  exact this (STable.named_iff.mpr ⟨sem, hsem, hname⟩)

/-- INTERNAL: **what `Create` does**: it refuses, or it puts a new semaphore in a slot
whose bit was clear.
SRCLINE: threads/stable.cc:15-26 -/
theorem STable.create_cases {tab tab' : STable} {r : ℤ}
    (h : tab.create name semval = some (r, tab')) :
    (r = -1 ∧ tab' = tab) ∨
    ∃ k < tab.bm.numBits, r = k ∧ tab.lookup name = none ∧ isSet tab.bm k = false ∧
      tab' = { tab with bm := setBit tab.bm k }.setSlot k (Semaphore.new name semval) := by
  unfold STable.create at h
  cases hl : tab.lookup name with
  | some i =>
    simp only [hl, Option.some.injEq, Prod.mk.injEq] at h
    exact Or.inl ⟨h.1.symm, h.2.symm⟩
  | none =>
    simp only [hl] at h
    rcases find_cases tab.bm with ⟨hf, -⟩ | ⟨k, hk, hf, hclear, -⟩
    · simp only [hf, Option.bind_eq_bind, Option.bind_some, if_true, Option.pure_def,
        Option.some.injEq, Prod.mk.injEq] at h
      exact Or.inl ⟨h.1.symm, h.2.symm⟩
    · have hne : (k : ℤ) ≠ -1 := by omega
      have hm : (setBit tab.bm k).mark (k : ℤ) = some (setBit tab.bm k) := by
        rw [mark_eq (by simpa using hk), setBit_of_isSet (by simp)]
      simp only [hf, Option.bind_eq_bind, Option.bind_some, hne, if_false, hm, Option.pure_def,
        Option.some.injEq, Prod.mk.injEq, Int.toNat_natCast] at h
      exact Or.inr ⟨k, hk, h.1.symm, rfl, hclear, h.2.symm⟩

/-! ## The invariant of the table -/

/-- The name slot `i` is occupied under. The operations on a semaphore never change it, so
the invariant of the table speaks of names only. -/
def nameAt (tab : STable) (i : ℕ) : Option String := (tab.lockTab i).map Semaphore.name

theorem nameAt_of_lockTab (h : tab.lockTab i = some sem) : nameAt tab i = some sem.name := by
  simp [nameAt, h]

theorem nameAt_eq_some :
    nameAt tab i = some name ↔ ∃ sem, tab.lockTab i = some sem ∧ sem.name = name :=
  Option.map_eq_some_iff

theorem nameAt_setSlot {sem sem' : Semaphore} (h : tab.lockTab i = some sem)
    (hname : sem'.name = sem.name) : nameAt (tab.setSlot i sem') = nameAt tab := by
  funext j
  by_cases hj : j = i
  · subst hj
    simp [nameAt, STable.setSlot, h, hname]
  · simp [nameAt, STable.setSlot, hj]

/-- What holds of the table and its callers in every reachable state. -/
structure TabInv (s : SemTabState) : Prop where
  size : s.table.bm.numBits = maxSemaphore
  marked : ∀ i name, nameAt s.table i = some name → i < maxSemaphore ∧ isSet s.table.bm i = true
  unique : ∀ i j name, nameAt s.table i = some name → nameAt s.table j = some name → i = j
  calls : ∀ t i name, s.calls t = some (i, name) → nameAt s.table i = some name
  unused : ∀ name, (∀ i, nameAt s.table i ≠ some name) →
    s.waited name = 0 ∧ s.signalled name = 0

/-- The event is a step of a `Wait(name)` or of a `Signal(name)`. -/
def ActsFor (s : SemTabState) (name : String) : SemTabEvent → Prop
  | .createSemaphore _ _ _ => False
  | .wait _ m => m = name
  | .signal _ m => m = name
  | .resume t => ∃ i, s.calls t = some (i, name)

/-- The effect of one step: nothing, a new semaphore in a free slot, or one operation on
the slot of the name the event acts for. -/
inductive Effect (s : SemTabState) (e : SemTabEvent) (s' : SemTabState) : Prop
  | idle (htab : s'.table = s.table) (hcalls : s'.calls = s.calls)
      (hw : s'.waited = s.waited) (hg : s'.signalled = s.signalled)
  | created (name : String) (semval : BitVec 32) (k : ℕ) (hk : k < s.table.bm.numBits)
      (hnew : s.table.lookup name = none) (hfree : isSet s.table.bm k = false)
      (htab : s'.table =
        { s.table with bm := setBit s.table.bm k }.setSlot k (Semaphore.new name semval))
      (hcalls : s'.calls = s.calls) (hw : s'.waited = s.waited)
      (hg : s'.signalled = s.signalled)
  | passed (t : ThreadId) (i : ℕ) (sem : Semaphore) (hact : ActsFor s sem.name e)
      (hsem : s.table.lockTab i = some sem) (hv : sem.value ≠ 0#32)
      (htab : s'.table = s.table.setSlot i { sem with value := sem.value - 1#32 })
      (hcalls : s'.calls = Function.update s.calls t none)
      (hw : s'.waited = Function.update s.waited sem.name (s.waited sem.name + 1))
      (hg : s'.signalled = s.signalled)
  | slept (t : ThreadId) (i : ℕ) (sem : Semaphore) (hact : ActsFor s sem.name e)
      (hsem : s.table.lockTab i = some sem) (hv : sem.value = 0#32)
      (htab : s'.table = s.table.setSlot i { sem with queue := sem.queue ++ [t] })
      (hcalls : s'.calls = Function.update s.calls t (some (i, sem.name)))
      (hw : s'.waited = s.waited) (hg : s'.signalled = s.signalled)
  | signalled (i : ℕ) (sem : Semaphore) (rest : List ThreadId) (hact : ActsFor s sem.name e)
      (hsem : s.table.lockTab i = some sem)
      (htab : s'.table = s.table.setSlot i { sem with queue := rest, value := sem.value + 1#32 })
      (hcalls : s'.calls = s.calls) (hw : s'.waited = s.waited)
      (hg : s'.signalled = Function.update s.signalled sem.name (s.signalled sem.name + 1))

theorem effect_of_testWait (ready : List ThreadId) (hsem : s.table.lockTab i = some sem)
    (hact : ActsFor s sem.name e) (h : { s with ready := ready }.testWait t i sem.name = some s') :
    Effect s e s' := by
  simp only [SemTabState.testWait, hsem] at h
  by_cases hv : sem.value = 0#32
  · simp only [Semaphore.p, hv, if_true, Option.some.injEq] at h
    subst h
    exact .slept t i sem hact hsem hv (by simp [SemTabState.setSem, hv]) rfl rfl rfl
  · simp only [Semaphore.p, hv, if_false, Option.some.injEq] at h
    subst h
    exact .passed t i sem hact hsem hv rfl rfl rfl rfl

theorem effect_of_doSignal (hsem : s.table.lockTab i = some sem) (hact : ActsFor s sem.name e)
    (h : s.doSignal i sem.name = some s') : Effect s e s' := by
  simp only [SemTabState.doSignal, hsem, Option.some.injEq] at h
  subst h
  cases hq : sem.queue with
  | nil => exact .signalled i sem [] hact hsem (by simp [SemTabState.setSem, Semaphore.v, hq]) rfl rfl rfl
  | cons w rest =>
    exact .signalled i sem rest hact hsem (by simp [SemTabState.setSem, Semaphore.v, hq]) rfl rfl rfl

/-- INTERNAL: **every step of a reachable table is one of the five effects.**
SRCLINE: threads/stable.cc:15-44 -/
theorem effect_of_step (hinv : TabInv s) (h : s.step e = some s') : Effect s e s' := by
  cases e with
  | createSemaphore t name semval =>
    simp only [SemTabState.step] at h
    split at h
    · cases h
    · obtain ⟨⟨r, tab⟩, hc, rfl⟩ := Option.map_eq_some_iff.mp h
      rcases STable.create_cases hc with ⟨-, rfl⟩ | ⟨k, hk, -, hnew, hfree, rfl⟩
      · exact .idle rfl rfl rfl rfl
      · exact .created name semval k hk hnew hfree rfl rfl rfl rfl
  | wait t name =>
    simp only [SemTabState.step] at h
    split at h
    · cases h
    · cases hl : s.table.lookup name with
      | none =>
        simp only [hl, Option.some.injEq] at h
        exact h ▸ .idle rfl rfl rfl rfl
      | some i =>
        simp only [hl] at h
        obtain ⟨-, sem, hsem, rfl⟩ := STable.lookup_some hl
        exact effect_of_testWait s.ready hsem rfl h
  | signal t name =>
    simp only [SemTabState.step] at h
    split at h
    · cases h
    · cases hl : s.table.lookup name with
      | none =>
        simp only [hl, Option.some.injEq] at h
        exact h ▸ .idle rfl rfl rfl rfl
      | some i =>
        simp only [hl] at h
        obtain ⟨-, sem, hsem, rfl⟩ := STable.lookup_some hl
        exact effect_of_doSignal hsem rfl h
  | resume t =>
    simp only [SemTabState.step] at h
    split at h
    · cases hc : s.calls t with
      | none => simp [hc] at h
      | some p =>
        obtain ⟨i, name⟩ := p
        simp only [hc] at h
        obtain ⟨sem, hsem, rfl⟩ := nameAt_eq_some.mp (hinv.calls t i name hc)
        exact effect_of_testWait _ hsem ⟨i, hc⟩ h
    · cases h

theorem tabInv_init {words : ℕ → BitVec 32} (h : SemTabState.init words = some s) : TabInv s := by
  obtain ⟨b, hb, hn, -⟩ := new_eq maxSemaphore words
  simp only [SemTabState.init, STable.new, hb, Option.bind_eq_bind, Option.bind_some,
    Option.pure_def, Option.some.injEq] at h
  subst h
  exact ⟨hn, by simp [nameAt], by simp [nameAt], by simp, by simp⟩

/-- INTERNAL: an operation on a slot that keeps its name keeps the invariant; what it adds
to the counters is under that name, which is in use. -/
theorem TabInv.slot (hinv : TabInv s) {sem sem' : Semaphore}
    (hsem : s.table.lockTab i = some sem) (htab : s'.table = s.table.setSlot i sem')
    (hname : sem'.name = sem.name)
    (hcalls : ∀ t j name, s'.calls t = some (j, name) →
      s.calls t = some (j, name) ∨ (j = i ∧ name = sem.name))
    (hcount : ∀ name, name ≠ sem.name →
      s'.waited name = s.waited name ∧ s'.signalled name = s.signalled name) : TabInv s' := by
  have hnames : nameAt s'.table = nameAt s.table := by
    rw [htab]
    exact nameAt_setSlot hsem hname
  have hbm : s'.table.bm = s.table.bm := by rw [htab]; rfl
  refine ⟨?_, ?_, ?_, ?_, ?_⟩
  · rw [hbm]
    exact hinv.size
  · rw [hnames, hbm]
    exact hinv.marked
  · rw [hnames]
    exact hinv.unique
  · intro t j name hc
    rw [hnames]
    rcases hcalls t j name hc with h | ⟨rfl, rfl⟩
    · exact hinv.calls t j name h
    · exact nameAt_of_lockTab hsem
  · intro name hfree
    rw [hnames] at hfree
    have hne : name ≠ sem.name := fun h => hfree i (h ▸ nameAt_of_lockTab hsem)
    obtain ⟨hw, hg⟩ := hcount name hne
    rw [hw, hg]
    exact hinv.unused name hfree

/-- INTERNAL: a new semaphore goes to a free slot under a free name. -/
theorem TabInv.created (hinv : TabInv s)
    {k : ℕ} (hk : k < s.table.bm.numBits)
    (hnew : s.table.lookup name = none) (hfree : isSet s.table.bm k = false)
    (htab : s'.table =
      { s.table with bm := setBit s.table.bm k }.setSlot k (Semaphore.new name semval))
    (hcalls : s'.calls = s.calls) (hw : s'.waited = s.waited)
    (hg : s'.signalled = s.signalled) : TabInv s' := by
  have hempty : nameAt s.table k = none := by
    cases h : nameAt s.table k with
    | none => rfl
    | some m =>
      have := (hinv.marked k m h).2
      rw [hfree] at this
      cases this
  have hnot : ∀ j, nameAt s.table j ≠ some name := by
    intro j hj
    obtain ⟨sem, hsem, hn⟩ := nameAt_eq_some.mp hj
    exact STable.lookup_none hnew (hinv.marked j name hj).1 hsem hn
  have hnames : nameAt s'.table = Function.update (nameAt s.table) k (some name) := by
    funext j
    rw [htab]
    by_cases hj : j = k
    · subst hj
      simp [nameAt, STable.setSlot, Semaphore.new]
    · simp [nameAt, STable.setSlot, hj]
  have hold : ∀ j m, nameAt s'.table j = some m →
      (j = k ∧ m = name) ∨ (j ≠ k ∧ nameAt s.table j = some m) := by
    intro j m hj
    rw [hnames] at hj
    by_cases hjk : j = k
    · subst hjk
      simp only [Function.update_self, Option.some.injEq] at hj
      exact Or.inl ⟨rfl, hj.symm⟩
    · rw [Function.update_of_ne hjk] at hj
      exact Or.inr ⟨hjk, hj⟩
  refine ⟨?_, ?_, ?_, ?_, ?_⟩
  · rw [htab]
    exact hinv.size
  · intro j m hj
    have hset : isSet s'.table.bm j = (decide (j = k) || isSet s.table.bm j) := by
      rw [htab]
      exact isSet_setBit _ _ _
    rcases hold j m hj with ⟨rfl, -⟩ | ⟨-, hj'⟩
    · exact ⟨hinv.size ▸ hk, by rw [hset]; simp⟩
    · obtain ⟨h1, h2⟩ := hinv.marked j m hj'
      exact ⟨h1, by rw [hset, h2]; simp⟩
  · intro i j m hi hj
    rcases hold i m hi with ⟨rfl, rfl⟩ | ⟨-, hi'⟩
    · rcases hold j _ hj with ⟨rfl, -⟩ | ⟨-, hj'⟩
      · rfl
      · exact absurd hj' (hnot j)
    · rcases hold j m hj with ⟨-, rfl⟩ | ⟨-, hj'⟩
      · exact absurd hi' (hnot i)
      · exact hinv.unique i j m hi' hj'
  · intro t j m hc
    rw [hcalls] at hc
    have hj := hinv.calls t j m hc
    have hjk : j ≠ k := by
      rintro rfl
      rw [hempty] at hj
      cases hj
    rw [hnames, Function.update_of_ne hjk]
    exact hj
  · intro m hfree'
    rw [hw, hg]
    refine hinv.unused m fun j hj => hfree' j ?_
    have hjk : j ≠ k := by
      rintro rfl
      rw [hempty] at hj
      cases hj
    rw [hnames, Function.update_of_ne hjk]
    exact hj

/-- INTERNAL: every step keeps the invariant of the table. -/
theorem TabInv.step (hinv : TabInv s) (h : s.step e = some s') : TabInv s' := by
  cases effect_of_step hinv h with
  | idle htab hcalls hw hg =>
    obtain ⟨h1, h2, h3, h4, h5⟩ := hinv
    exact ⟨htab ▸ h1, htab ▸ h2, htab ▸ h3, by rwa [htab, hcalls], by rwa [htab, hw, hg]⟩
  | created name semval k hk hnew hfree htab hcalls hw hg =>
    exact hinv.created hk hnew hfree htab hcalls hw hg
  | passed t i sem hact hsem hv htab hcalls hw hg =>
    refine hinv.slot hsem htab rfl (fun u j name hc => Or.inl ?_) (fun name hne => ?_)
    · rw [hcalls] at hc
      by_cases hu : u = t
      · subst hu
        simp at hc
      · rwa [Function.update_of_ne hu] at hc
    · rw [hw, hg, Function.update_of_ne hne]
      exact ⟨rfl, rfl⟩
  | slept t i sem hact hsem hv htab hcalls hw hg =>
    refine hinv.slot hsem htab rfl (fun u j name hc => ?_) (fun name hne => by rw [hw, hg]; simp)
    rw [hcalls] at hc
    by_cases hu : u = t
    · subst hu
      simp only [Function.update_self, Option.some.injEq, Prod.mk.injEq] at hc
      exact Or.inr ⟨hc.1.symm, hc.2.symm⟩
    · rw [Function.update_of_ne hu] at hc
      exact Or.inl hc
  | signalled i sem rest hact hsem htab hcalls hw hg =>
    refine hinv.slot hsem htab rfl (fun u j name hc => Or.inl (hcalls ▸ hc)) (fun name hne => ?_)
    rw [hw, hg, Function.update_of_ne hne]
    exact ⟨rfl, rfl⟩

/-! ## Other names -/

theorem ActsFor.unique {m n : String} (hm : ActsFor s m e) (hn : ActsFor s n e) : m = n := by
  cases e with
  | createSemaphore t name semval => exact hm.elim
  | wait t name => exact hm.symm.trans hn
  | signal t name => exact hm.symm.trans hn
  | resume t =>
    obtain ⟨i, hi⟩ := hm
    obtain ⟨j, hj⟩ := hn
    rw [hi] at hj
    simp only [Option.some.injEq, Prod.mk.injEq] at hj
    exact hj.2

/-- INTERNAL: a step for name `n` leaves every semaphore of another name as it is. -/
theorem lockTab_of_actsFor (hinv : TabInv s) (h : s.step e = some s') (hact : ActsFor s n e) {j : ℕ}
    {other : Semaphore} (hj : s.table.lockTab j = some other) (hne : other.name ≠ n) :
    s'.table.lockTab j = some other := by
  have hslot : ∀ (i : ℕ) (sem sem' : Semaphore), ActsFor s sem.name e →
      s.table.lockTab i = some sem → s'.table = s.table.setSlot i sem' →
      s'.table.lockTab j = some other := by
    intro i sem sem' ha hsem htab
    have hji : j ≠ i := by
      rintro rfl
      rw [hsem] at hj
      cases hj
      exact hne (ha.unique hact)
    rw [htab]
    exact (Function.update_of_ne hji _ _).trans hj
  cases effect_of_step hinv h with
  | idle htab hcalls hw hg => rwa [htab]
  | created name semval k hk hnew hfree htab hcalls hw hg =>
    have hjk : j ≠ k := by
      rintro rfl
      have := (hinv.marked j _ (nameAt_of_lockTab hj)).2
      rw [hfree] at this
      cases this
    rw [htab]
    exact (Function.update_of_ne hjk _ _).trans hj
  | passed t i sem ha hsem hv htab hcalls hw hg => exact hslot i sem _ ha hsem htab
  | slept t i sem ha hsem hv htab hcalls hw hg => exact hslot i sem _ ha hsem htab
  | signalled i sem rest ha hsem htab hcalls hw hg => exact hslot i sem _ ha hsem htab

/-! ## The count -/

/-- The semaphore created under `n` with `semval`: as an unsigned number its value is
`semval` plus the `Signal`s less the `Wait`s, modulo `2^32`. -/
def CountInv (n : String) (semval : BitVec 32) (s : SemTabState) : Prop :=
  ∃ k sem, s.table.lockTab k = some sem ∧ sem.name = n ∧
    s.waited n ≤ semval.toNat + s.signalled n ∧
    sem.value.toNat = (semval.toNat + s.signalled n - s.waited n) % 2 ^ 32

theorem CountInv.of_lockTab {k : ℕ} (hk : s'.table.lockTab k = some sem) (hn : sem.name = n)
    (hw : s'.waited n = s.waited n) (hg : s'.signalled n = s.signalled n)
    (hle : s.waited n ≤ semval.toNat + s.signalled n)
    (hv : sem.value.toNat = (semval.toNat + s.signalled n - s.waited n) % 2 ^ 32) :
    CountInv n semval s' :=
  ⟨k, sem, hk, hn, by rwa [hw, hg], by rwa [hw, hg]⟩

/-- INTERNAL: every step keeps the count. At the slot of `n` itself a `Wait` passes only
on a value that is not `0`, which the congruence turns into a unit that is really there. -/
theorem CountInv.step (hinv : TabInv s) (hc : CountInv n semval s) (h : s.step e = some s') :
    CountInv n semval s' := by
  obtain ⟨k, sem, hk, rfl, hle, hv⟩ := hc
  have hsame : ∀ i (a : Semaphore), s.table.lockTab i = some a → a.name = sem.name →
      i = k ∧ a = sem := by
    intro i a ha hname
    have hik := hinv.unique i k sem.name (hname ▸ nameAt_of_lockTab ha) (nameAt_of_lockTab hk)
    subst hik
    rw [hk] at ha
    cases ha
    exact ⟨rfl, rfl⟩
  have hother : ∀ i (a a' : Semaphore), s.table.lockTab i = some a → a.name ≠ sem.name →
      s'.table = s.table.setSlot i a' → s'.table.lockTab k = some sem := by
    intro i a a' ha hname htab
    have hki : k ≠ i := by
      rintro rfl
      rw [hk] at ha
      cases ha
      exact hname rfl
    rw [htab]
    exact (Function.update_of_ne hki _ _).trans hk
  cases effect_of_step hinv h with
  | idle htab hcalls hw hg =>
    exact .of_lockTab (htab ▸ hk) rfl (by rw [hw]) (by rw [hg]) hle hv
  | created name val i hi hnew hfree htab hcalls hw hg =>
    have hki : k ≠ i := by
      rintro rfl
      have := (hinv.marked k _ (nameAt_of_lockTab hk)).2
      rw [hfree] at this
      cases this
    have hk' : s'.table.lockTab k = some sem := by
      rw [htab]
      exact (Function.update_of_ne hki _ _).trans hk
    exact .of_lockTab hk' rfl (by rw [hw]) (by rw [hg]) hle hv
  | passed t i a hact ha hne htab hcalls hw hg =>
    by_cases hname : a.name = sem.name
    · obtain ⟨rfl, rfl⟩ := hsame i a ha hname
      have hpos : a.value.toNat ≠ 0 := fun h => hne (BitVec.eq_of_toNat_eq (by simpa using h))
      refine ⟨i, { a with value := a.value - 1#32 }, ?_, rfl, ?_, ?_⟩
      · rw [htab]
        exact Function.update_self _ _ _
      · rw [hw, hg, Function.update_self]
        omega
      · show (a.value - 1#32).toNat = _
        rw [hw, hg, Function.update_self, BitVec.toNat_sub]
        have hlt := a.value.isLt
        simp only [BitVec.toNat_ofNat]
        omega
    · refine .of_lockTab (hother i a _ ha hname htab) rfl ?_ (by rw [hg]) hle hv
      rw [hw, Function.update_of_ne (Ne.symm hname)]
  | slept t i a hact ha hz htab hcalls hw hg =>
    by_cases hname : a.name = sem.name
    · obtain ⟨rfl, rfl⟩ := hsame i a ha hname
      refine ⟨i, { a with queue := a.queue ++ [t] }, ?_, rfl, by rwa [hw, hg], by rwa [hw, hg]⟩
      rw [htab]
      exact Function.update_self _ _ _
    · exact .of_lockTab (hother i a _ ha hname htab) rfl (by rw [hw]) (by rw [hg]) hle hv
  | signalled i a rest hact ha htab hcalls hw hg =>
    by_cases hname : a.name = sem.name
    · obtain ⟨rfl, rfl⟩ := hsame i a ha hname
      refine ⟨i, { a with queue := rest, value := a.value + 1#32 }, ?_, rfl, ?_, ?_⟩
      · rw [htab]
        exact Function.update_self _ _ _
      · rw [hw, hg, Function.update_self]
        omega
      · show (a.value + 1#32).toNat = _
        rw [hw, hg, Function.update_self, BitVec.toNat_add]
        simp only [BitVec.toNat_ofNat]
        omega
    · refine .of_lockTab (hother i a _ ha hname htab) rfl (by rw [hw]) ?_ hle hv
      rw [hg, Function.update_of_ne (Ne.symm hname)]

/-! ## The bound -/

/-- What a successful `CreateSemaphore(n, semval)` promises for the rest of the run: at
every moment at most `max(semval, 0)` plus the number of completed `Signal(n)` calls of
`Wait(n)` have returned, and no step of a `Wait(n)` or `Signal(n)` touches a semaphore of
another name. -/
def WaitBound (n : String) (semval : BitVec 32) : Prop :=
  ∀ words s₀ es s t i tab s₁ fs s₂, SemTabState.init words = some s₀ →
    run SemTabState.step s₀ es = some s → s.table.create n semval = some (i, tab) → i ≠ -1 →
    s.step (.createSemaphore t n semval) = some s₁ → run SemTabState.step s₁ fs = some s₂ →
    (s₂.waited n : ℤ) ≤ max semval.toInt 0 + s₂.signalled n ∧
    ∀ e s₃, s₂.step e = some s₃ → ActsFor s₂ n e →
      ∀ j other, s₂.table.lockTab j = some other → other.name ≠ n →
        s₃.table.lockTab j = some other

theorem countInv_of_create {s s₁ : SemTabState} {i : ℤ} (hinv : TabInv s)
    (hc : s.table.create n semval = some (i, tab)) (hi : i ≠ -1)
    (h : s.step (.createSemaphore t n semval) = some s₁) : CountInv n semval s₁ := by
  simp only [SemTabState.step] at h
  split at h
  · cases h
  · simp only [hc, Option.map_some, Option.some.injEq] at h
    subst h
    rcases STable.create_cases hc with ⟨h1, -⟩ | ⟨k, hk, -, hnew, hfree, rfl⟩
    · exact absurd h1 hi
    · have hzero := hinv.unused n (fun j hj => by
        obtain ⟨sem, hsem, hn⟩ := nameAt_eq_some.mp hj
        exact STable.lookup_none hnew (hinv.marked j n hj).1 hsem hn)
      refine ⟨k, Semaphore.new n semval, Function.update_self _ _ _, rfl, ?_, ?_⟩
      · show s.waited n ≤ semval.toNat + s.signalled n
        omega
      · show semval.toNat = (semval.toNat + s.signalled n - s.waited n) % 2 ^ 32
        rw [hzero.1, hzero.2]
        exact (Nat.mod_eq_of_lt semval.isLt).symm

theorem waitBound_of_nonneg (h0 : 0 ≤ semval.toInt) : WaitBound n semval := by
  intro words s₀ es s t i tab s₁ fs s₂ hinit hes hc hi hstep hfs
  have htab : TabInv s := run_invariant_free (fun _ _ _ h hs => h.step hs) (tabInv_init hinit) hes
  have hstart : TabInv s₁ ∧ CountInv n semval s₁ :=
    ⟨htab.step hstep, countInv_of_create htab hc hi hstep⟩
  have hboth : TabInv s₂ ∧ CountInv n semval s₂ :=
    run_invariant_free (I := fun s => TabInv s ∧ CountInv n semval s)
      (fun _ _ _ h hs => ⟨h.1.step hs, h.2.step h.1 hs⟩) hstart hfs
  obtain ⟨hinv, k, sem, -, -, hle, -⟩ := hboth
  refine ⟨?_, fun e s₃ hs hact j other hj hne => lockTab_of_actsFor hinv hs hact hj hne⟩
  have hnat : (semval.toNat : ℤ) = semval.toInt := by
    rw [BitVec.toInt_eq_toNat_cond] at h0 ⊢
    have := semval.isLt
    split <;> split at h0 <;> omega
  omega

theorem step_wait_of_ne_zero (hfree : s.calls t = none) (hl : s.table.lookup n = some i)
    (hsem : s.table.lockTab i = some sem) (hv : sem.value ≠ 0#32) :
    ∃ s', s.step (.wait t n) = some s' ∧ s'.waited n = s.waited n + 1 ∧
      s'.signalled = s.signalled := by
  refine ⟨{ s.setSem i { sem with value := sem.value - 1#32 } with
      calls := Function.update s.calls t none
      waited := Function.update s.waited n (s.waited n + 1) }, ?_, ?_, rfl⟩
  · simp [SemTabState.step, hfree, hl, SemTabState.testWait, hsem, Semaphore.p, hv]
  · exact Function.update_self _ _ _

theorem create_of_empty {b : BitMap} (hn : b.numBits = maxSemaphore) (hclear : isSet b 0 = false)
    (n : String) (semval : BitVec 32) :
    (⟨b, fun _ => none⟩ : STable).create n semval =
      some (0, STable.setSlot ⟨setBit b 0, fun _ => none⟩ 0 (Semaphore.new n semval)) := by
  have hfind : b.find = some (((0 : ℕ) : ℤ), setBit b 0) :=
    findFrom_eq_of_clear b.numBits 0 0 (by omega) le_rfl (by rw [hn]; decide) hclear
      (fun j _ hj => absurd hj (Nat.not_lt_zero j))
  have hmark : (setBit b 0).mark ((0 : ℕ) : ℤ) = some (setBit b 0) := by
    rw [mark_eq (by rw [numBits_setBit, hn]; decide)]
    rw [setBit_of_isSet (isSet_setBit b 0 0)]
  have hlook : (⟨b, fun _ => none⟩ : STable).lookup n = none := by
    simp [STable.lookup, STable.named]
  simp only [Nat.cast_zero] at hfind hmark
  simp [STable.create, hlook, hfind, hmark]

/-- INTERNAL: a semaphore created with a negative value lets the first `Wait` through. -/
theorem not_waitBound_of_neg (h0 : semval.toInt < 0) : ¬ WaitBound n semval := by
  intro hb
  obtain ⟨b, hb0, hn, hclear⟩ := new_eq maxSemaphore (fun _ => 0#32)
  have hinit : SemTabState.init (fun _ => 0#32) =
      some ⟨⟨b, fun _ => none⟩, fun _ => none, [], fun _ => 0, fun _ => 0⟩ := by
    simp [SemTabState.init, STable.new, hb0]
  have hcreate := create_of_empty hn (hclear 0 (by decide)) n semval
  have hne : semval ≠ 0#32 := by
    rintro rfl
    exact absurd h0 (by decide)
  -- the state the creation leads to, and the `Wait` taken there
  obtain ⟨s₁, hs₁⟩ : ∃ s₁ : SemTabState, s₁ =
      ⟨STable.setSlot ⟨setBit b 0, fun _ => none⟩ 0 (Semaphore.new n semval),
        fun _ => none, [], fun _ => 0, fun _ => 0⟩ := ⟨_, rfl⟩
  have hlook : s₁.table.lookup n = some 0 := by
    rw [hs₁]
    simp [STable.lookup, STable.named, STable.setSlot, Semaphore.new, maxSemaphore,
      List.range_succ_eq_map]
  have hsem : s₁.table.lockTab 0 = some (Semaphore.new n semval) := by
    rw [hs₁]
    simp [STable.setSlot]
  obtain ⟨s₂, hwait, hw, hg⟩ :=
    step_wait_of_ne_zero (t := 0) (by rw [hs₁]) hlook hsem hne
  have hstep : SemTabState.step ⟨⟨b, fun _ => none⟩, fun _ => none, [], fun _ => 0, fun _ => 0⟩
      (.createSemaphore 0 n semval) = some s₁ := by
    simp [SemTabState.step, hcreate, hs₁]
  obtain ⟨hle, -⟩ := hb (fun _ => 0#32) _ [] _ 0 0 _ s₁ [.wait 0 n] s₂ hinit rfl hcreate
    (by omega) hstep (run_cons_eq_some.mpr ⟨s₂, hwait, rfl⟩)
  rw [hw, hg, hs₁] at hle
  simp only [Nat.cast_zero, zero_add, Nat.cast_one, add_zero] at hle
  omega

/-- SOURCE: threads/stable.cc:15-44, threads/synch.cc:36-98 — the promise of
`CreateSemaphore(n, semval)` is kept in every run exactly when `semval` is not negative. -/
theorem waitBound_iff_nonneg (n : String) (semval : BitVec 32) :
    WaitBound n semval ↔ 0 ≤ semval.toInt := by
  constructor
  · intro h
    by_contra hneg
    exact not_waitBound_of_neg (by omega) h
  · exact waitBound_of_nonneg

/-- `CreateSemaphore("s", -1)` succeeds, and a `Wait("s")` with no `Signal` before it
returns. -/
theorem waitBound_fails_at_minus_one : ¬ WaitBound "s" (-1#32) :=
  not_waitBound_of_neg (by decide)

end Nachos.Analysis
