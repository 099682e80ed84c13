import Nachos.Library.Runs
import Nachos.Model.SynchDisk

/-!
# What keeps the disk to one request at a time

The comment in filesys/synchdisk.cc:7-11 leaves mutual exclusion to the lock, and the
lock does nothing. What is left is the callers' own discipline: as long as a call starts
only when no other thread is between its request and its `P`, the disk is in one of three
phases, `idle`, `waiting` (one request at the disk, its caller asleep) and `woken` (the
interrupt has come and its caller has yet to take the unit), and both halves of the
contract hold.

A call that starts in one of the other two phases breaks the contract on the spot. In
`waiting` the disk is active and the assertion fails; in `woken` the newcomer's `P` takes
the unit of the other's interrupt and returns before its own. So the discipline is
exactly the condition, which is `synchDisk_sound_iff_no_overlap`.
-/

set_option autoImplicit false

namespace Nachos.Analysis

open Nachos.Library Nachos.Model

/-- The assertion `!active` has not failed, and every call that has returned did so after
the interrupt of its own request. -/
structure SynchDiskGood (s : SynchDiskState) : Prop where
  alive : s.failed = false
  own : ∀ r ∈ s.returned, r ∈ s.completed

/-- A call starts only when no thread is inside the `P` of another call. -/
def NoOverlap (s : SynchDiskState) : SynchDiskEvent → Prop
  | .readSector _ _ => s.semaphore.queue = [] ∧ s.ready = []
  | .writeSector _ _ _ => s.semaphore.queue = [] ∧ s.ready = []
  | _ => True

/-- The phases of a disk used by one caller at a time. -/
inductive DiskPhase (s : SynchDiskState) : Prop
  | idle (hq : s.semaphore.queue = []) (hr : s.ready = []) (hv : s.semaphore.value = 0#32)
      (ha : s.active = false) (hp : s.pending = none) (hw : ∀ t, s.waiting t = none)
  | waiting (t : ThreadId) (r : ℕ) (hq : s.semaphore.queue = [t]) (hr : s.ready = [])
      (hv : s.semaphore.value = 0#32) (ha : s.active = true) (hp : s.pending = some r)
      (hlt : r < s.issued) (hw : s.waiting t = some r) (ho : ∀ u, u ≠ t → s.waiting u = none)
  | woken (t : ThreadId) (r : ℕ) (hq : s.semaphore.queue = []) (hr : s.ready = [t])
      (hv : s.semaphore.value = 1#32) (ha : s.active = false) (hp : s.pending = none)
      (hd : r ∈ s.completed) (hw : s.waiting t = some r) (ho : ∀ u, u ≠ t → s.waiting u = none)

/-- What holds in every state of a run without overlapping calls. -/
structure SynchDiskInv (s : SynchDiskState) : Prop where
  good : SynchDiskGood s
  past : ∀ r ∈ s.completed, r < s.issued
  phase : DiskPhase s

/-! ## One call -/

theorem call_of_active {s : SynchDiskState} (t : ThreadId) (image : DiskImage)
    (data : ThreadId → Sector) (ha : s.active = true) : (s.call t image data).failed = true := by
  simp [SynchDiskState.call, SynchDiskState.request, ha]

theorem SynchDiskInv.call_of_idle {s : SynchDiskState} (hinv : SynchDiskInv s) (t : ThreadId)
    (image : DiskImage) (data : ThreadId → Sector) (hq : s.semaphore.queue = [])
    (hr : s.ready = []) (hv : s.semaphore.value = 0#32) (ha : s.active = false)
    (hw : ∀ u, s.waiting u = none) : SynchDiskInv (s.call t image data) := by
  have hcall : s.call t image data =
      { s with image := image, data := data, active := true, pending := some s.issued,
               issued := s.issued + 1, semaphore := { s.semaphore with queue := [t] },
               waiting := Function.update s.waiting t (some s.issued) } := by
    simp [SynchDiskState.call, SynchDiskState.request, SynchDiskState.testP, Lock.acquire,
      Semaphore.p, ha, hv, hq, hinv.good.alive]
  rw [hcall]
  refine ⟨⟨hinv.good.alive, hinv.good.own⟩, ?_, ?_⟩
  · intro r hmem
    exact (hinv.past r hmem).trans (Nat.lt_succ_self _)
  · refine .waiting t s.issued rfl hr hv rfl rfl (Nat.lt_succ_self _) (Function.update_self _ _ _) ?_
    intro u hu
    exact (Function.update_of_ne hu _ _).trans (hw u)

theorem not_good_call_of_woken {s : SynchDiskState} (hinv : SynchDiskInv s) (t : ThreadId)
    (image : DiskImage) (data : ThreadId → Sector) (hv : s.semaphore.value = 1#32)
    (ha : s.active = false) : ¬ SynchDiskGood (s.call t image data) := by
  intro hgood
  have hcall : (s.call t image data).returned = s.issued :: s.returned ∧
      (s.call t image data).completed = s.completed := by
    simp [SynchDiskState.call, SynchDiskState.request, SynchDiskState.testP, Lock.acquire,
      Semaphore.p, ha, hv, hinv.good.alive]
  have hmem : s.issued ∈ (s.call t image data).returned := by rw [hcall.1]; simp
  have hdone := hgood.own _ hmem
  rw [hcall.2] at hdone
  exact absurd (hinv.past _ hdone) (Nat.lt_irrefl _)

/-- INTERNAL: **a call keeps the contract exactly when it does not overlap another.** -/
theorem SynchDiskInv.call_cases {s : SynchDiskState} (hinv : SynchDiskInv s) (t : ThreadId)
    (image : DiskImage) (data : ThreadId → Sector) :
    (s.semaphore.queue = [] ∧ s.ready = [] → SynchDiskInv (s.call t image data)) ∧
    (¬ (s.semaphore.queue = [] ∧ s.ready = []) → ¬ SynchDiskGood (s.call t image data)) := by
  cases hinv.phase with
  | idle hq hr hv ha hp hw =>
    exact ⟨fun _ => hinv.call_of_idle t image data hq hr hv ha hw, fun h => absurd ⟨hq, hr⟩ h⟩
  | waiting u r hq hr hv ha hp hlt hw ho =>
    refine ⟨fun h => ?_, fun _ hgood => ?_⟩
    · rw [hq] at h
      exact absurd h.1 (List.cons_ne_nil _ _)
    · have hf := call_of_active t image data ha
      rw [hgood.alive] at hf
      cases hf
  | woken u r hq hr hv ha hp hd hw ho =>
    refine ⟨fun h => ?_, fun _ => not_good_call_of_woken hinv t image data hv ha⟩
    rw [hr] at h
    exact absurd h.2 (List.cons_ne_nil _ _)

/-! ## The interrupt and the woken caller -/

/-- INTERNAL: the completion interrupt wakes the one caller there is. -/
theorem SynchDiskInv.interrupt {s : SynchDiskState} (hinv : SynchDiskInv s) {r : ℕ}
    (hp : s.pending = some r) : SynchDiskInv (s.handleInterrupt r) := by
  cases hinv.phase with
  | idle hq hr hv ha hp' hw =>
    rw [hp'] at hp
    cases hp
  | woken t q hq hr hv ha hp' hd hw ho =>
    rw [hp'] at hp
    cases hp
  | waiting t q hq hr hv ha hp' hlt hw ho =>
    rw [hp'] at hp
    cases hp
    have hint : s.handleInterrupt r =
        { s with active := false, pending := none, ready := [t], completed := r :: s.completed,
                 semaphore := { s.semaphore with queue := [], value := 1#32 } } := by
      simp [SynchDiskState.handleInterrupt, Semaphore.v, hq, hr, hv]
    rw [hint]
    refine ⟨⟨hinv.good.alive, fun x hx => ?_⟩, fun x hx => ?_, ?_⟩
    · exact List.mem_cons_of_mem _ (hinv.good.own x hx)
    · rcases List.mem_cons.mp hx with rfl | hx
      · exact hlt
      · exact hinv.past x hx
    · exact .woken t r rfl rfl rfl rfl rfl List.mem_cons_self hw ho

/-- INTERNAL: the woken caller takes the unit of its own interrupt and returns. -/
theorem SynchDiskInv.resume {s : SynchDiskState} (hinv : SynchDiskInv s) {t : ThreadId} {r : ℕ}
    (hmem : t ∈ s.ready) (hw : s.waiting t = some r) :
    SynchDiskInv ({ s with ready := s.ready.erase t }.testP t r) := by
  cases hinv.phase with
  | idle hq hr hv ha hp' hw' => simp [hr] at hmem
  | waiting u q hq hr hv ha hp' hlt hw' ho => simp [hr] at hmem
  | woken u q hq hr hv ha hp' hd hw' ho =>
    rw [hr, List.mem_singleton] at hmem
    subst hmem
    rw [hw'] at hw
    cases hw
    have htest : { s with ready := s.ready.erase t }.testP t r =
        { s with ready := [], semaphore := { s.semaphore with value := 0#32 },
                 waiting := Function.update s.waiting t none, returned := r :: s.returned } := by
      simp [SynchDiskState.testP, Semaphore.p, Lock.release, hr, hv]
    rw [htest]
    refine ⟨⟨hinv.good.alive, fun x hx => ?_⟩, hinv.past, ?_⟩
    · rcases List.mem_cons.mp hx with rfl | hx
      · exact hd
      · exact hinv.good.own x hx
    · refine .idle hq rfl rfl ha hp' fun v => ?_
      show Function.update s.waiting t none v = none
      by_cases hvt : v = t
      · rw [hvt, Function.update_self]
      · rw [Function.update_of_ne hvt]
        exact ho v hvt

/-! ## Runs -/

/-- INTERNAL: a step of a run is a call, the interrupt, or the woken caller. -/
theorem SynchDiskState.step_cases {s s' : SynchDiskState} {e : SynchDiskEvent}
    (h : s.step e = some s') :
    (∃ t image data, s' = s.call t image data ∧
      (NoOverlap s e ↔ s.semaphore.queue = [] ∧ s.ready = [])) ∨
    (∃ r, s.pending = some r ∧ s' = s.handleInterrupt r ∧ NoOverlap s e) ∨
    (∃ t r, t ∈ s.ready ∧ s.waiting t = some r ∧
      s' = { s with ready := s.ready.erase t }.testP t r ∧ NoOverlap s e) := by
  unfold SynchDiskState.step at h
  split at h
  · cases h
  · cases e with
    | readSector t sectorNumber =>
      simp only at h
      split at h
      · cases h
      · exact Or.inl ⟨t, _, _, (Option.some.inj h).symm, Iff.rfl⟩
    | writeSector t sectorNumber data =>
      simp only at h
      split at h
      · cases h
      · exact Or.inl ⟨t, _, _, (Option.some.inj h).symm, Iff.rfl⟩
    | interrupt =>
      cases hp : s.pending with
      | none => simp [hp] at h
      | some r =>
        simp only [hp, Option.some.injEq] at h
        exact Or.inr (Or.inl ⟨r, rfl, h.symm, trivial⟩)
    | resume t =>
      simp only at h
      split at h
      · rename_i hmem
        cases hw : s.waiting t with
        | none => simp [hw] at h
        | some r =>
          simp only [hw, Option.some.injEq] at h
          exact Or.inr (Or.inr ⟨t, r, by simpa using hmem, hw, h.symm, trivial⟩)
      · cases h

/-- SOURCE: filesys/synchdisk.cc:72-109, machine/disk.cc:115-166, threads/synch.cc:105-106 —
for any number of threads and any interleaving with the completion interrupts, the
assertion `!active` never fails and every call returns after the interrupt of its own
request exactly when no call of the run starts while another is between its request and
its `P`. -/
theorem synchDisk_sound_iff_no_overlap (image : DiskImage) (data : ThreadId → Sector)
    (es : List SynchDiskEvent) :
    Always SynchDiskState.step SynchDiskGood (SynchDiskState.init image data) es ↔
      Meets SynchDiskState.step NoOverlap (SynchDiskState.init image data) es := by
  have hinit : SynchDiskInv (SynchDiskState.init image data) := by
    refine ⟨⟨rfl, fun r hr => ?_⟩, fun r hr => ?_, .idle rfl rfl rfl rfl rfl fun _ => rfl⟩
    · exact absurd hr List.not_mem_nil
    · exact absurd hr List.not_mem_nil
  refine always_iff_meets (fun s h => h.good) ?_ ?_ hinit es
  · intro s e s' hinv hc hs
    rcases SynchDiskState.step_cases hs with ⟨t, im, d, rfl, hiff⟩ | ⟨r, hp, rfl, -⟩ |
      ⟨t, r, hmem, hw, rfl, -⟩
    · exact (hinv.call_cases t im d).1 (hiff.mp hc)
    · exact hinv.interrupt hp
    · exact hinv.resume hmem hw
  · intro s e s' hinv hc hs
    rcases SynchDiskState.step_cases hs with ⟨t, im, d, rfl, hiff⟩ | ⟨r, hp, rfl, h⟩ |
      ⟨t, r, hmem, hw, rfl, h⟩
    · exact (hinv.call_cases t im d).2 (fun h => hc (hiff.mpr h))
    · exact absurd h hc
    · exact absurd h hc

/-- Two threads that read at the same time: the second request meets an active disk. -/
theorem synchDisk_overlapping_reads_abort :
    ¬ Always SynchDiskState.step SynchDiskGood (SynchDiskState.init (fun _ _ => 0#8) (fun _ _ => 0#8))
      [.readSector 0 ⟨0, by decide⟩, .readSector 1 ⟨1, by decide⟩] := by
  rintro ⟨-, h⟩
  obtain ⟨-, h'⟩ := h _ rfl
  have hgood : SynchDiskGood _ := h' _ rfl
  exact absurd hgood.alive (by decide)

end Nachos.Analysis
