import Nachos.Analysis.SemaphoreRuns
import Nachos.Analysis.SemaphoreTableBound
import Nachos.Model.NameBuffers

/-!
# How long the name of a semaphore lives

`SC_CreateSemaphore` frees the name buffer whatever `STable::Create` returns, and on success
the new semaphore still points to it. So a table is sound in the sense that its names are
where its pointers lead only as long as it is empty: the first `CreateSemaphore` of any run
succeeds and leaves a slot with a freed name (`names_sound_iff_no_create`).

What the calls of such a table find depends on the memory. As long as nothing reuses or
overwrites the freed buffers, each still holds its string, and `Wait` and `Signal` find what
was created under the name they are given (`lookups_right_while_untouched`).
-/

set_option autoImplicit false

namespace Nachos.Analysis

open Nachos.Library Nachos.Model

variable {s s' : NameTabState} {buf leaked : ℕ} {name : String} {e : NameTabEvent}

/-- Every occupied slot points to a buffer that is allocated and holds the name the semaphore
was created with. -/
def BuffersHold (s : NameTabState) : Prop :=
  ∀ i sem, s.table.lockTab i = some sem →
    s.heap.allocated (s.nameBuf i) = true ∧ s.heap.contents (s.nameBuf i) = sem.name

/-- A `Wait` or `Signal` reaches the semaphore created under its name, and no semaphore if
there is none. -/
def ReachesCreated (s : NameTabState) : NameTabEvent → Prop
  | .wait _ name leaked buf =>
    ∀ s', s.entered leaked buf name = some s' → s'.lookup name = s.table.lookup name
  | .signal _ name leaked buf =>
    ∀ s', s.entered leaked buf name = some s' → s'.lookup name = s.table.lookup name
  | _ => True

/-- The call is not `CreateSemaphore`. -/
def NotCreate (_ : NameTabState) : NameTabEvent → Prop
  | .createSemaphore _ _ _ _ _ => False
  | _ => True

/-! ## Entering and leaving a call -/

theorem entered_cases (h : s.entered leaked buf name = some s') :
    s'.table = s.table ∧ s'.nameBuf = s.nameBuf ∧ s'.calls = s.calls ∧ s'.ready = s.ready ∧
      s'.heap.contents = Function.update s.heap.contents buf name := by
  obtain ⟨heap, hread, rfl⟩ := Option.map_eq_some_iff.mp h
  refine ⟨rfl, rfl, rfl, rfl, ?_⟩
  simp only [NameHeap.readName, NameHeap.alloc, Option.bind_eq_bind, Option.bind_eq_some_iff,
    Option.pure_def, Option.some.injEq, Option.ite_none_left_eq_some] at hread
  obtain ⟨h1, ⟨-, rfl⟩, h2, ⟨-, rfl⟩, rfl⟩ := hread
  rfl

/-- INTERNAL: **what `Create` does to the table and its pointers**: nothing, when it finds the
name or no clear bit, or a new semaphore in a slot whose bit was clear, pointing to the buffer
of the call.
SRCLINE: threads/stable.cc:15-26 -/
theorem NameTabState.create_cases {semval : BitVec 32} (h : s.create buf semval = some s') :
    (s' = s ∧ (s.lookup (s.heap.contents buf) ≠ none ∨
      ∀ j < s.table.bm.numBits, isSet s.table.bm j = true)) ∨
    ∃ k < s.table.bm.numBits, isSet s.table.bm k = false ∧
      s' = { s with
        table := { s.table with bm := setBit s.table.bm k }.setSlot k
          (Semaphore.new (s.heap.contents buf) semval)
        nameBuf := Function.update s.nameBuf k buf } := by
  unfold NameTabState.create at h
  dsimp only at h
  cases hl : s.lookup (s.heap.contents buf) with
  | some i =>
    rw [hl] at h
    exact Or.inl ⟨(Option.some.inj h).symm, Or.inl nofun⟩
  | none =>
    simp only [hl] at h
    rcases find_cases s.table.bm with ⟨hf, hfull⟩ | ⟨k, hk, hf, hclear, -⟩
    · simp only [hf, Option.bind_eq_bind, Option.bind_some, if_true, Option.pure_def,
        Option.some.injEq] at h
      exact Or.inl ⟨h.symm, Or.inr hfull⟩
    · have hne : (k : ℤ) ≠ -1 := by omega
      have hm : (setBit s.table.bm k).mark (k : ℤ) = some (setBit s.table.bm k) := by
        rw [mark_eq (by simpa using hk), setBit_of_isSet (by simp)]
      simp only [hf, Option.bind_eq_bind, Option.bind_some, hne, if_false, hm, Option.pure_def,
        Option.some.injEq, Int.toNat_natCast] at h
      exact Or.inr ⟨k, hk, hclear, h.symm⟩

theorem testWait_cases {t : ThreadId} {i buf : ℕ} (h : s.testWait t i buf = some s') :
    nameAt s'.table = nameAt s.table ∧ s'.table.bm = s.table.bm ∧ s'.nameBuf = s.nameBuf ∧
      s'.heap.contents = s.heap.contents := by
  unfold NameTabState.testWait at h
  cases hsem : s.table.lockTab i with
  | none => simp [hsem] at h
  | some sem =>
    simp only [hsem] at h
    by_cases hv : sem.value = 0#32
    · rw [Semaphore.p_of_zero t hv] at h
      cases h
      exact ⟨nameAt_setSlot hsem rfl, rfl, rfl, rfl⟩
    · rw [Semaphore.p_of_ne_zero t hv] at h
      cases h
      exact ⟨nameAt_setSlot hsem rfl, rfl, rfl, rfl⟩

theorem doSignal_cases {i : ℕ} (h : s.doSignal i = some s') :
    nameAt s'.table = nameAt s.table ∧ s'.table.bm = s.table.bm ∧ s'.nameBuf = s.nameBuf ∧
      s'.heap = s.heap := by
  unfold NameTabState.doSignal at h
  cases hsem : s.table.lockTab i with
  | none => simp [hsem] at h
  | some sem =>
    simp only [hsem, Option.some.injEq] at h
    subst h
    refine ⟨nameAt_setSlot hsem ?_, rfl, rfl, rfl⟩
    unfold Semaphore.v
    split <;> rfl

/-! ## What one step does -/

/-- The address whose content an event replaces. -/
def touched : NameTabEvent → Option ℕ
  | .createSemaphore _ _ _ _ buf => some buf
  | .wait _ _ _ buf => some buf
  | .signal _ _ _ buf => some buf
  | .resume _ => none
  | .overwrite p _ => some p

/-- The effect of a step on the names: at most one address gets a new content, and either the
slots keep their pointers and creation names, or a `CreateSemaphore` has filled one whose
pointer leads to the buffer it has freed. -/
inductive NameEffect (s : NameTabState) (e : NameTabEvent) (s' : NameTabState) : Prop
  | kept (hn : nameAt s'.table = nameAt s.table) (hbm : s'.table.bm = s.table.bm)
      (hb : s'.nameBuf = s.nameBuf)
      (hc : ∀ p, touched e ≠ some p → s'.heap.contents p = s.heap.contents p)
  | created (k buf : ℕ) (name : String) (he : touched e = some buf) (hcreate : ¬ NotCreate s e)
      (hn : nameAt s'.table = Function.update (nameAt s.table) k (some name))
      (hb : s'.nameBuf = Function.update s.nameBuf k buf)
      (hc : s'.heap.contents = Function.update s.heap.contents buf name)
      (hf : s'.heap.allocated buf = false)

theorem nameAt_setSlot_new (tab : STable) (k : ℕ) (name : String) (semval : BitVec 32) :
    nameAt (tab.setSlot k (Semaphore.new name semval)) =
      Function.update (nameAt tab) k (some name) := by
  funext j
  by_cases hj : j = k
  · subst hj
    simp [nameAt, STable.setSlot, Semaphore.new]
  · simp [nameAt, STable.setSlot, hj]

theorem contents_entered (h : s.entered leaked buf name = some s') {p : ℕ} (hp : buf ≠ p) :
    s'.heap.contents p = s.heap.contents p := by
  rw [(entered_cases h).2.2.2.2, Function.update_of_ne hp.symm]

theorem nameEffect_of_entered {s s₁ s' : NameTabState} (hent : s.entered leaked buf name = some s₁)
    (he : touched e = some buf) (hn : nameAt s'.table = nameAt s₁.table)
    (hbm : s'.table.bm = s₁.table.bm) (hb : s'.nameBuf = s₁.nameBuf)
    (hc : s'.heap.contents = s₁.heap.contents) : NameEffect s e s' := by
  obtain ⟨ht, hbuf, -, -, -⟩ := entered_cases hent
  refine .kept ?_ ?_ (hb.trans hbuf) fun p hp => ?_
  · rw [hn, ht]
  · rw [hbm, ht]
  · rw [hc]
    apply contents_entered hent
    rintro rfl
    exact hp he

/-- INTERNAL: **the effect of every step.**
SRCLINE: userprog/exception.cc:404-486, threads/stable.cc:15-44 -/
theorem nameEffect_of_step (h : s.step e = some s') : NameEffect s e s' := by
  cases e with
  | createSemaphore t name semval leaked buf =>
    simp only [NameTabState.step] at h
    split at h
    · cases h
    · simp only [Option.bind_eq_bind, Option.bind_eq_some_iff, Option.pure_def,
        Option.some.injEq] at h
      obtain ⟨s₁, hent, s₂, hcreate, rfl⟩ := h
      obtain ⟨ht, hb, -, -, hc⟩ := entered_cases hent
      rcases NameTabState.create_cases hcreate with ⟨rfl, -⟩ | ⟨k, -, -, rfl⟩
      · exact nameEffect_of_entered hent rfl rfl rfl rfl rfl
      · apply NameEffect.created k buf name rfl id
        · have hname : s₁.heap.contents buf = name := by rw [hc, Function.update_self]
          show nameAt (STable.setSlot { s₁.table with bm := _ } k _) = _
          rw [nameAt_setSlot_new, hname, ← ht]
          rfl
        · show Function.update s₁.nameBuf k buf = _
          rw [hb]
        · exact hc
        · exact Function.update_self _ _ _
  | wait t name leaked buf =>
    simp only [NameTabState.step] at h
    split at h
    · cases h
    · simp only [Option.bind_eq_bind, Option.bind_eq_some_iff] at h
      obtain ⟨s₁, hent, hrest⟩ := h
      split at hrest
      · cases hrest
        exact nameEffect_of_entered hent rfl rfl rfl rfl rfl
      · obtain ⟨hn, hbm, hb, hc⟩ := testWait_cases hrest
        exact nameEffect_of_entered hent rfl hn hbm hb hc
  | signal t name leaked buf =>
    simp only [NameTabState.step] at h
    split at h
    · cases h
    · simp only [Option.bind_eq_bind, Option.bind_eq_some_iff] at h
      obtain ⟨s₁, hent, hrest⟩ := h
      split at hrest
      · cases hrest
        exact nameEffect_of_entered hent rfl rfl rfl rfl rfl
      · simp only [Option.bind_eq_some_iff, Option.pure_def, Option.some.injEq] at hrest
        obtain ⟨s₂, hsig, rfl⟩ := hrest
        obtain ⟨hn, hbm, hb, hheap⟩ := doSignal_cases hsig
        have hcontents : s₂.heap.contents = s₁.heap.contents := by rw [hheap]
        exact nameEffect_of_entered hent rfl hn hbm hb hcontents
  | resume t =>
    simp only [NameTabState.step] at h
    split at h
    · split at h
      · cases h
      · obtain ⟨hn, hbm, hb, hc⟩ := testWait_cases h
        exact .kept hn hbm hb fun p _ => by rw [hc]
    · cases h
  | overwrite p str =>
    simp only [NameTabState.step, Option.ite_none_left_eq_some, Option.some.injEq] at h
    obtain ⟨-, rfl⟩ := h
    refine .kept rfl rfl rfl fun q hq => Function.update_of_ne ?_ _ _
    rintro rfl
    exact hq rfl

/-! ## The empty table -/

/-- Nothing has been created. -/
structure EmptyTable (s : NameTabState) : Prop where
  size : s.table.bm.numBits = maxSemaphore
  clear : ∀ j < maxSemaphore, isSet s.table.bm j = false
  empty : ∀ i, nameAt s.table i = none

theorem EmptyTable.lockTab (h : EmptyTable s) (i : ℕ) : s.table.lockTab i = none :=
  Option.map_eq_none_iff.mp (h.empty i)

theorem EmptyTable.lookup (h : EmptyTable s) (name : String) : s.lookup name = none := by
  apply List.find?_eq_none.mpr
  intro i _
  simp [NameTabState.named, h.lockTab i]

theorem EmptyTable.lookup_table (h : EmptyTable s) (name : String) :
    s.table.lookup name = none := by
  apply List.find?_eq_none.mpr
  intro i _
  simp [STable.named, h.lockTab i]

theorem EmptyTable.entered (h : EmptyTable s) (hent : s.entered leaked buf name = some s') :
    EmptyTable s' := by
  have ht := (entered_cases hent).1
  refine ⟨?_, ?_, ?_⟩
  · rw [ht]
    exact h.size
  · rw [ht]
    exact h.clear
  · rw [ht]
    exact h.empty

theorem EmptyTable.step (h : EmptyTable s) (hc : NotCreate s e) (hs : s.step e = some s') :
    EmptyTable s' := by
  cases nameEffect_of_step hs with
  | created k buf name he hcreate => exact absurd hc hcreate
  | kept hn hbm hb hcont =>
    refine ⟨?_, ?_, ?_⟩
    · rw [hbm]
      exact h.size
    · rw [hbm]
      exact h.clear
    · rw [hn]
      exact h.empty

theorem EmptyTable.buffersHold (h : EmptyTable s) : BuffersHold s := by
  intro i sem hsem
  rw [h.lockTab i] at hsem
  cases hsem

theorem EmptyTable.reachesCreated (h : EmptyTable s) (e : NameTabEvent) : ReachesCreated s e := by
  cases e with
  | createSemaphore t name semval leaked buf => trivial
  | resume t => trivial
  | overwrite p str => trivial
  | wait t name leaked buf =>
    intro s' hent
    rw [(h.entered hent).lookup, h.lookup_table]
  | signal t name leaked buf =>
    intro s' hent
    rw [(h.entered hent).lookup, h.lookup_table]

theorem not_buffersHold_of_created {k buf : ℕ}
    (hn : nameAt s'.table = Function.update (nameAt s.table) k (some name))
    (hb : s'.nameBuf = Function.update s.nameBuf k buf) (hf : s'.heap.allocated buf = false) :
    ¬ BuffersHold s' := by
  intro hold
  have hk : nameAt s'.table k = some name := by rw [hn, Function.update_self]
  obtain ⟨sem, hsem, -⟩ := nameAt_eq_some.mp hk
  have halloc := (hold k sem hsem).1
  rw [hb, Function.update_self, hf] at halloc
  cases halloc

/-- INTERNAL: on an empty table the first `CreateSemaphore` succeeds, and its slot points to
the buffer it has freed. -/
theorem EmptyTable.not_buffersHold (h : EmptyTable s) (he : ¬ NotCreate s e)
    (hs : s.step e = some s') : ¬ BuffersHold s' := by
  cases e with
  | wait t name leaked buf => exact absurd trivial he
  | signal t name leaked buf => exact absurd trivial he
  | resume t => exact absurd trivial he
  | overwrite p str => exact absurd trivial he
  | createSemaphore t name semval leaked buf =>
    cases nameEffect_of_step hs with
    | created k b n _ _ hn hb _ hf => exact not_buffersHold_of_created hn hb hf
    | kept hn =>
      -- `Create` does not refuse: it finds no name and a clear bit
      exfalso
      simp only [NameTabState.step] at hs
      split at hs
      · cases hs
      · simp only [Option.bind_eq_bind, Option.bind_eq_some_iff, Option.pure_def,
          Option.some.injEq] at hs
        obtain ⟨s₁, hent, s₂, hcreate, rfl⟩ := hs
        have hempty := h.entered hent
        rcases NameTabState.create_cases hcreate with ⟨-, hlook | hfull⟩ | ⟨k, -, -, rfl⟩
        · exact hlook (hempty.lookup _)
        · have hset := hfull 0 (by rw [hempty.size]; decide)
          rw [hempty.clear 0 (by decide)] at hset
          cases hset
        · have hk := congrFun hn k
          change nameAt (STable.setSlot { s₁.table with bm := _ } k _) k = _ at hk
          rw [nameAt_setSlot_new, Function.update_self, h.empty k] at hk
          cases hk

/-- SOURCE: userprog/exception.cc:404-433, threads/stable.cc:15-44, threads/synch.cc:36-41 —
along a run of `CreateSemaphore`, `Wait` and `Signal` calls every occupied slot points to an
allocated buffer that holds the name it was created with, and every `Wait` and `Signal` reaches
the semaphore created under its name, exactly when the run makes no `CreateSemaphore`. -/
theorem names_sound_iff_no_create (heap : NameHeap) (words : ℕ → BitVec 32)
    (es : List NameTabEvent) :
    ∃ s, NameTabState.init heap words = some s ∧
      (Always NameTabState.step BuffersHold s es ∧ Meets NameTabState.step ReachesCreated s es ↔
        Meets NameTabState.step NotCreate s es) := by
  obtain ⟨b, hb0, hn, hclear⟩ := new_eq maxSemaphore words
  have hinit : NameTabState.init heap words =
      some ⟨heap, ⟨b, fun _ => none⟩, fun _ => 0, fun _ => none, []⟩ := by
    simp [NameTabState.init, STable.new, hb0]
  have hempty : EmptyTable ⟨heap, ⟨b, fun _ => none⟩, fun _ => 0, fun _ => none, []⟩ :=
    ⟨hn, hclear, fun _ => rfl⟩
  refine ⟨_, hinit, ?_⟩
  have hiff : Always NameTabState.step BuffersHold _ es ↔ Meets NameTabState.step NotCreate _ es :=
    always_iff_meets (fun s h => EmptyTable.buffersHold h) (fun s e s' h hc hs => h.step hc hs)
      (fun s e s' h hc hs => h.not_buffersHold hc hs) hempty es
  constructor
  · rintro ⟨h, -⟩
    exact hiff.mp h
  · intro h
    refine ⟨hiff.mpr h, ?_⟩
    exact meets_of_meets (fun s e s' hs _ _ => EmptyTable.reachesCreated hs e)
      (fun s e s' hs hc hstep => EmptyTable.step hs hc hstep) hempty h

/-- One `CreateSemaphore("a", 1)`. Its slot points to a freed buffer; a `Wait("b")` whose own
buffer is the same block reaches the semaphore of `a`, and after the block has been
overwritten `Wait("a")` reaches nothing. -/
theorem created_name_is_freed :
    ∃ s₀ s s', NameTabState.init ⟨fun _ => false, fun _ => ""⟩ (fun _ => 0#32) = some s₀ ∧
      run NameTabState.step s₀ [.createSemaphore 0 "a" 1#32 0 1] = some s ∧
      s.step (.overwrite 1 "") = some s' ∧ ¬ BuffersHold s ∧
      ¬ ReachesCreated s (.wait 0 "b" 2 1) ∧ ¬ ReachesCreated s' (.wait 0 "a" 2 3) := by
  refine ⟨_, _, _, rfl, rfl, rfl, ?_, ?_, ?_⟩
  · intro h
    exact absurd (h 0 _ rfl).1 (by decide)
  · intro h
    exact absurd (h _ rfl) (by decide)
  · intro h
    exact absurd (h _ rfl) (by decide)

/-! ## Names in freed memory -/

/-- The buffer of every slot, freed or not, still holds the name it was created with. -/
def ContentsKept (s : NameTabState) : Prop :=
  ∀ i name, nameAt s.table i = some name → s.heap.contents (s.nameBuf i) = name

/-- The event stores nothing in the buffer of a slot. -/
def Untouched (s : NameTabState) (e : NameTabEvent) : Prop :=
  ∀ i, nameAt s.table i ≠ none → touched e ≠ some (s.nameBuf i)

theorem ContentsKept.step (h : ContentsKept s) (hu : Untouched s e) (hs : s.step e = some s') :
    ContentsKept s' := by
  intro i name hi
  cases nameEffect_of_step hs with
  | kept hn hbm hb hc =>
    rw [hn] at hi
    have hne : nameAt s.table i ≠ none := by rw [hi]; exact nofun
    rw [hb, hc _ (hu i hne)]
    exact h i name hi
  | created k buf n he _ hn hb hc _ =>
    rw [hn] at hi
    rw [hb, hc]
    by_cases hik : i = k
    · subst hik
      rw [Function.update_self, Option.some.injEq] at hi
      rw [Function.update_self, Function.update_self]
      exact hi
    · rw [Function.update_of_ne hik] at hi
      have hne : nameAt s.table i ≠ none := by rw [hi]; exact nofun
      have hbuf : s.nameBuf i ≠ buf := fun heq => hu i hne (by rw [he, heq])
      rw [Function.update_of_ne hik, Function.update_of_ne hbuf]
      exact h i name hi

/-- INTERNAL: a call that does not reuse the memory of a name finds what was created. -/
theorem ContentsKept.lookup (h : ContentsKept s) (hent : s.entered leaked buf name = some s')
    (hu : ∀ i, nameAt s.table i ≠ none → buf ≠ s.nameBuf i) :
    s'.lookup name = s.table.lookup name := by
  obtain ⟨ht, hb, -⟩ := entered_cases hent
  unfold NameTabState.lookup STable.lookup
  apply congrFun
  congr 1
  funext i
  unfold NameTabState.named STable.named
  rw [ht, hb]
  cases hsem : s.table.lockTab i with
  | none => rfl
  | some sem =>
    have hname := nameAt_of_lockTab hsem
    have hne : nameAt s.table i ≠ none := by rw [hname]; exact nofun
    rw [contents_entered hent (hu i hne), h i sem.name hname]
    rfl

/-- SOURCE: userprog/exception.cc:404-486, threads/stable.cc:15-44 — as long as no event of a run from the
empty table stores anything in the buffer of a slot, freed or not, every `Wait` and `Signal` reaches what
was created under its name. -/
theorem lookups_right_while_untouched (heap : NameHeap) (words : ℕ → BitVec 32) (s : NameTabState)
    (hinit : NameTabState.init heap words = some s) (es : List NameTabEvent)
    (hes : Meets NameTabState.step Untouched s es) : Meets NameTabState.step ReachesCreated s es := by
  have hkept : ContentsKept s := by
    simp only [NameTabState.init, STable.new, Option.bind_eq_bind, Option.bind_eq_some_iff] at hinit
    obtain ⟨table, ⟨b, -, hb⟩, hs⟩ := hinit
    cases hb
    cases hs
    intro i name hi
    cases hi
  refine meets_of_meets (I := ContentsKept) ?_ (fun s e s' h hc hs => h.step hc hs) hkept hes
  intro s e s' hk hu _
  cases e with
  | createSemaphore t name semval leaked buf => trivial
  | resume t => trivial
  | overwrite p str => trivial
  | wait t name leaked buf =>
    intro s₁ hent
    exact hk.lookup hent fun i hi he => hu i hi (by rw [← he]; rfl)
  | signal t name leaked buf =>
    intro s₁ hent
    exact hk.lookup hent fun i hi he => hu i hi (by rw [← he]; rfl)

/-- Two names in freed buffers, with another buffer for each call. -/
theorem lookups_right_two_names :
    ∃ s, NameTabState.init ⟨fun _ => false, fun _ => ""⟩ (fun _ => 0#32) = some s ∧
      Meets NameTabState.step ReachesCreated s
        [.createSemaphore 0 "a" 1#32 2 3, .createSemaphore 0 "b" 0#32 4 5, .wait 0 "a" 6 7] := by
  refine ⟨_, rfl, lookups_right_while_untouched _ _ _ rfl _ ?_⟩
  refine Meets.cons rfl ?_ (Meets.cons rfl ?_ (Meets.cons rfl ?_ trivial))
  · exact fun i hi => absurd rfl hi
  · intro i _
    show some 5 ≠ some (Function.update (fun _ => 0) 0 3 i)
    by_cases h : i = 0 <;> simp [h]
  · intro i _
    show some 7 ≠ some (Function.update (Function.update (fun _ => 0) 0 3) 1 5 i)
    by_cases h : i = 1 <;> by_cases h' : i = 0 <;> simp [h, h']

end Nachos.Analysis
