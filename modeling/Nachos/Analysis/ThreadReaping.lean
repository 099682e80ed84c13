import Nachos.Analysis.ThreadPlaces
import Nachos.Library.Slot

/-!
# Finished threads and `threadToBeDestroyed`

A thread cannot delete itself, so `Finish` leaves it in `threadToBeDestroyed`, a slot for one thread,
and the thread that next comes out of the `SWITCH` in `Scheduler::Run` deletes it. A thread that gets
the CPU for the first time does not come out of a `SWITCH`: it starts in `ThreadRoot`
(`StackAllocate`), which deletes nothing. If it finishes before any other thread has been
resumed, the slot is overwritten and the thread in it is never deleted.

`Reaping` says what one step does to the slot. From it follow, for every run, that a thread is deleted
once and only after it has finished and left the CPU, and that the slot is empty at every `Finish`
exactly if between any two of them some thread has been resumed (`Nachos.Library.Slot`).
-/

set_option autoImplicit false

namespace Nachos.Analysis

open Nachos.Library Nachos.Model

variable {e : SchedEvent} {here : Resume}

/-- The event gives the CPU to a thread that goes on behind the `SWITCH` of `Scheduler::Run`: a
`Run`, or a dispatch of a thread that has run before. -/
def Resumes (s : SchedState) : SchedEvent → Prop
  | .run => True
  | .yield | .findNext => ∃ t, s.readyList.head? = some t ∧ s.resumeAt t ≠ .threadRoot
  | _ => False

/-- What a step does to the finished threads. -/
inductive Reaping (s : SchedState) (e : SchedEvent) (s' : SchedState) : Prop
  /-- `Finish` leaves the current thread in the slot. -/
  | finish (he : e = .finish) (hlive : s.finished s.currentThread = false)
      (hslot : s'.threadToBeDestroyed = some s.currentThread) (hdeleted : s'.deleted = s.deleted)
      (hcurrent : s'.currentThread = s.currentThread)
      (hfinished : s'.finished = Function.update s.finished s.currentThread true)
  /-- The slot stays as it is, also if a thread starts. -/
  | keep (he : e ≠ .finish) (hresumes : ¬ Resumes s e)
      (hslot : s'.threadToBeDestroyed = s.threadToBeDestroyed) (hdeleted : s'.deleted = s.deleted)
      (hcurrent : s'.currentThread = s.currentThread ∨ s.finished s'.currentThread = false)
      (hfinished : s'.finished = s.finished)
  /-- A thread is resumed and deletes the thread in the slot. -/
  | reap (he : e ≠ .finish) (hresumes : Resumes s e) (hslot : s'.threadToBeDestroyed = none)
      (hdeleted : s'.deleted = s.deleted ++ s.threadToBeDestroyed.toList)
      (hcurrent : s.finished s'.currentThread = false)
      (hother : s.threadToBeDestroyed ≠ some s'.currentThread)
      (hfinished : s'.finished = s.finished)

section Steps

variable {s s' : SchedState} {place : ThreadId → Place} {next : ThreadId}

theorem run_threadRoot (h : Function.update s.resumeAt s.currentThread here next = .threadRoot) :
    (s.run here next).threadToBeDestroyed = s.threadToBeDestroyed ∧
      (s.run here next).deleted = s.deleted := by
  unfold SchedState.run
  simp only [h, and_self]

/-- INTERNAL: a thread that is resumed deletes the thread in the slot. -/
theorem run_resumed (hne : s.threadToBeDestroyed ≠ some next)
    (h : Function.update s.resumeAt s.currentThread here next ≠ .threadRoot) :
    (s.run here next).threadToBeDestroyed = none ∧
      (s.run here next).deleted = s.deleted ++ s.threadToBeDestroyed.toList := by
  have hdestroy : ∀ x : SchedState, x.currentThread = next →
      x.threadToBeDestroyed = s.threadToBeDestroyed → x.deleted = s.deleted →
      x.destroy.threadToBeDestroyed = none ∧
        x.destroy.deleted = s.deleted ++ s.threadToBeDestroyed.toList := by
    intro x hx hslot hdeleted
    unfold SchedState.destroy
    rw [← hslot]
    cases hd : x.threadToBeDestroyed with
    | none => exact ⟨hd, by simp [hdeleted]⟩
    | some t =>
      have ht : t ≠ x.currentThread := by
        rintro rfl
        rw [hslot, hx] at hd
        exact hne hd
      simp [ht, hdeleted]
  unfold SchedState.run
  dsimp only
  split
  · rename_i hroot
    exact absurd hroot h
  · exact hdestroy _ rfl rfl rfl
  · exact hdestroy _ rfl rfl rfl

/-- INTERNAL: a switch to a live thread keeps the slot or reaps it. -/
theorem SchedInv.reaping_run (h : SchedInv s place) {s₀ : SchedState}
    (he : e ≠ .finish) (hslot : s₀.threadToBeDestroyed = s.threadToBeDestroyed)
    (hdeleted : s₀.deleted = s.deleted) (hfinished : s₀.finished = s.finished)
    (hnext : place next ≠ .nowhere)
    (hresumes : Resumes s e ↔
      Function.update s₀.resumeAt s₀.currentThread here next ≠ .threadRoot) :
    Reaping s e (s₀.run here next) := by
  have hne : s₀.threadToBeDestroyed ≠ some next := by
    rw [hslot]
    exact h.not_doomed hnext
  have hlive : s.finished next = false := by
    by_contra hf
    exact hnext ((h.live next).mpr fun hn => hf hn.2)
  have hran := ran_run here hne
  by_cases hroot : Function.update s₀.resumeAt s₀.currentThread here next = .threadRoot
  · obtain ⟨hs, hd⟩ := run_threadRoot hroot
    refine .keep he (fun hr => hresumes.mp hr hroot) (hs.trans hslot) (hd.trans hdeleted) ?_
      (hran.finished.trans hfinished)
    rw [hran.current]
    exact Or.inr hlive
  · obtain ⟨hs, hd⟩ := run_resumed hne hroot
    rw [hdeleted, hslot] at hd
    refine .reap he (hresumes.mpr hroot) hs hd ?_ ?_ (hran.finished.trans hfinished)
    · rw [hran.current]
      exact hlive
    · rw [hran.current, ← hslot]
      exact hne

theorem resumes_dispatch_iff (he : e = .yield ∨ e = .findNext) {rest : List ThreadId}
    (hready : s.readyList = next :: rest)
    (hhere : next = s.currentThread → here = s.resumeAt s.currentThread) :
    Resumes s e ↔ Function.update s.resumeAt s.currentThread here next ≠ .threadRoot := by
  have hsame : Function.update s.resumeAt s.currentThread here next = s.resumeAt next := by
    by_cases hnext : next = s.currentThread
    · rw [hhere hnext, Function.update_eq_self]
    · rw [Function.update_of_ne hnext]
  rw [hsame]
  rcases he with rfl | rfl
  · simp [Resumes, hready]
  · simp [Resumes, hready]

theorem not_resumes_of_nil (he : e = .yield ∨ e = .findNext) (hready : s.readyList = []) :
    ¬ Resumes s e := by
  rcases he with rfl | rfl
  · simp [Resumes, hready]
  · simp [Resumes, hready]

theorem SchedInv.reaping_yield (h : SchedInv s place) (hm : onCpu s.mode = true) :
    Reaping s .yield s.yield := by
  unfold SchedState.yield
  rcases findNextToRun_cases s with ⟨hready, hfind⟩ | ⟨u, rest, hready, hfind⟩
  · rw [hfind]
    exact .keep nofun (not_resumes_of_nil (Or.inl rfl) hready) rfl rfl (Or.inl rfl) rfl
  · rw [hfind]
    have hu : place u = .ready := (h.lists.ready.mem u).mp (hready ▸ List.mem_cons_self)
    have hne : u ≠ s.currentThread := by
      rintro rfl
      rw [h.current hm] at hu
      cases hu
    refine h.reaping_run nofun rfl rfl rfl (by rw [hu]; exact nofun) ?_
    exact resumes_dispatch_iff (Or.inl rfl) hready fun he => absurd he hne

theorem SchedInv.reaping_findNext (h : SchedInv s place) : Reaping s .findNext s.findNext := by
  unfold SchedState.findNext
  rcases findNextToRun_cases s with ⟨hready, hfind⟩ | ⟨u, rest, hready, hfind⟩
  · rw [hfind]
    exact .keep nofun (not_resumes_of_nil (Or.inr rfl) hready) rfl rfl (Or.inl rfl) rfl
  · rw [hfind]
    have hu : place u = .ready := (h.lists.ready.mem u).mp (hready ▸ List.mem_cons_self)
    refine h.reaping_run nofun rfl rfl rfl (by rw [hu]; exact nofun) ?_
    exact resumes_dispatch_iff (Or.inr rfl) hready fun _ => rfl

/-- INTERNAL: **what a step does to the finished threads.**
SRCLINE: threads/thread.cc:143-226, threads/scheduler.cc:90-135 -/
theorem SchedInv.reaping (h : SchedInv s place) (hs : s.step e = some s') : Reaping s e s' := by
  unfold SchedState.step at hs
  rw [if_neg (by simp [h.alive])] at hs
  have hout : s.mode = .outside → onCpu s.mode = true := fun hm => by rw [hm]; rfl
  cases e with
  | newSemaphore k debugName initialValue =>
    obtain ⟨-, rfl⟩ := Option.ite_some_none_eq_some.mp hs
    exact .keep nofun id rfl rfl (Or.inl rfl) rfl
  | deleteSemaphore k =>
    cases hk : s.sems k with
    | none => simp [hk] at hs
    | some sem =>
      simp only [hk] at hs
      obtain ⟨-, rfl⟩ := Option.ite_some_none_eq_some.mp hs
      exact .keep nofun id rfl rfl (Or.inl rfl) rfl
  | fork t =>
    obtain ⟨-, rfl⟩ := Option.ite_some_none_eq_some.mp hs
    exact .keep nofun id rfl rfl (Or.inl rfl) rfl
  | yield =>
    obtain ⟨hm, rfl⟩ := Option.ite_some_none_eq_some.mp hs
    exact h.reaping_yield (hout hm)
  | run =>
    obtain ⟨hm, rfl⟩ := Option.ite_some_none_eq_some.mp hs
    refine h.reaping_run nofun rfl rfl rfl (by rw [h.current (hout hm)]; exact nofun) ?_
    rw [Function.update_self]
    exact iff_of_true trivial nofun
  | p k =>
    obtain ⟨-, rfl⟩ := Option.ite_some_none_eq_some.mp hs
    exact .keep nofun id rfl rfl (Or.inl rfl) rfl
  | test =>
    simp only at hs
    split at hs
    · rename_i k hm
      obtain ⟨sem, -, rfl⟩ := Option.map_eq_some_iff.mp hs
      unfold SchedState.testP
      split
      · exact .keep nofun id rfl rfl (Or.inl rfl) rfl
      · exact .keep nofun id rfl rfl (Or.inl rfl) rfl
    · cases hs
  | v k =>
    obtain ⟨-, hv⟩ := Option.ite_none_right_eq_some.mp hs
    obtain ⟨sem, -, rfl⟩ := Option.map_eq_some_iff.mp hv
    unfold SchedState.doV
    split
    · exact .keep nofun id rfl rfl (Or.inl rfl) rfl
    · exact .keep nofun id rfl rfl (Or.inl rfl) rfl
  | finish =>
    obtain ⟨hm, rfl⟩ := Option.ite_some_none_eq_some.mp hs
    exact .finish rfl (h.current_live (hout hm)).2 rfl rfl rfl rfl
  | findNext =>
    obtain ⟨-, rfl⟩ := Option.ite_some_none_eq_some.mp hs
    exact h.reaping_findNext

end Steps

/-! ## Runs -/

/-- No assertion has failed, and every deleted thread had finished, is deleted once and is not the
current thread. -/
structure Reaped (s : SchedState) : Prop where
  alive : s.failed = false
  finished : ∀ t ∈ s.deleted, s.finished t = true
  once : s.deleted.Nodup
  current : s.currentThread ∉ s.deleted

/-- The invariant of the deletions: a thread in the slot has not been deleted. -/
structure ReapInv (s : SchedState) : Prop where
  placed : ∃ place, SchedInv s place
  reaped : Reaped s
  slot : ∀ t, s.threadToBeDestroyed = some t → t ∉ s.deleted

section Reaped

variable {s s' : SchedState}

theorem Reaped.not_mem_deleted (h : Reaped s) {t : ThreadId} (ht : s.finished t = false) :
    t ∉ s.deleted := by
  intro hmem
  rw [h.finished t hmem] at ht
  cases ht

theorem Reaped.finish (h : Reaped s) (halive : s'.failed = false) (hdeleted : s'.deleted = s.deleted)
    (hcurrent : s'.currentThread = s.currentThread)
    (hfinished : s'.finished = Function.update s.finished s.currentThread true) : Reaped s' := by
  refine ⟨halive, fun t ht => ?_, hdeleted ▸ h.once, ?_⟩
  · rw [hdeleted] at ht
    rw [hfinished]
    by_cases htc : t = s.currentThread
    · rw [htc, Function.update_self]
    · rw [Function.update_of_ne htc]
      exact h.finished t ht
  · rw [hdeleted, hcurrent]
    exact h.current

theorem Reaped.keep (h : Reaped s) (halive : s'.failed = false) (hdeleted : s'.deleted = s.deleted)
    (hcurrent : s'.currentThread = s.currentThread ∨ s.finished s'.currentThread = false)
    (hfinished : s'.finished = s.finished) : Reaped s' := by
  refine ⟨halive, ?_, hdeleted ▸ h.once, ?_⟩
  · rw [hdeleted, hfinished]
    exact h.finished
  · rw [hdeleted]
    rcases hcurrent with hsame | hlive
    · rw [hsame]
      exact h.current
    · exact h.not_mem_deleted hlive

/-- INTERNAL: a resumed thread deletes the one in the slot, which is not deleted yet and is not itself. -/
theorem ReapInv.reap (h : ReapInv s) (halive : s'.failed = false)
    (hdeleted : s'.deleted = s.deleted ++ s.threadToBeDestroyed.toList)
    (hcurrent : s.finished s'.currentThread = false)
    (hother : s.threadToBeDestroyed ≠ some s'.currentThread) (hfinished : s'.finished = s.finished) :
    Reaped s' := by
  obtain ⟨⟨place, hplace⟩, hreaped, hfree⟩ := h
  have hmem : ∀ t, t ∈ s'.deleted ↔ t ∈ s.deleted ∨ s.threadToBeDestroyed = some t := by
    intro t
    rw [hdeleted, List.mem_append, Option.mem_toList]
  refine ⟨halive, fun t ht => ?_, ?_, fun hc => ?_⟩
  · rw [hfinished]
    rcases (hmem t).mp ht with ht | ht
    · exact hreaped.finished t ht
    · exact hplace.doomed t ht
  · rw [hdeleted]
    refine List.Nodup.append hreaped.once ?_ fun t ht ht' => hfree t (Option.mem_toList.mp ht') ht
    cases s.threadToBeDestroyed with
    | none => exact List.nodup_nil
    | some t => exact List.nodup_singleton t
  · rcases (hmem _).mp hc with hc | hc
    · exact hreaped.not_mem_deleted hcurrent hc
    · exact hother hc

theorem ReapInv.step (h : ReapInv s) (hs : s.step e = some s') : ReapInv s' := by
  obtain ⟨place, hplace⟩ := h.placed
  obtain ⟨place', hplace'⟩ := hplace.step hs
  have halive := hplace'.alive
  cases hplace.reaping hs with
  | finish he hlive hslot hdeleted hcurrent hfinished =>
    refine ⟨⟨place', hplace'⟩, h.reaped.finish halive hdeleted hcurrent hfinished, fun t ht => ?_⟩
    rw [hslot, Option.some.injEq] at ht
    rw [hdeleted, ← ht]
    exact h.reaped.current
  | keep he hresumes hslot hdeleted hcurrent hfinished =>
    refine ⟨⟨place', hplace'⟩, h.reaped.keep halive hdeleted hcurrent hfinished, ?_⟩
    rw [hdeleted, hslot]
    exact h.slot
  | reap he hresumes hslot hdeleted hcurrent hother hfinished =>
    refine ⟨⟨place', hplace'⟩, h.reap halive hdeleted hcurrent hother hfinished, fun t ht => ?_⟩
    rw [hslot] at ht
    cases ht

end Reaped

theorem reapInv_init (main : ThreadId) : ReapInv (SchedState.init main) :=
  ⟨⟨_, schedInv_init main⟩, ⟨rfl, nofun, List.nodup_nil, nofun⟩, nofun⟩

/-- INTERNAL: `threadToBeDestroyed` is a slot that `Finish` fills and a resumed thread empties. -/
theorem slotRules_threadToBeDestroyed :
    SlotRules SchedState.step ReapInv (fun s => s.threadToBeDestroyed ≠ none) (· = .finish)
      Resumes := by
  refine ⟨fun s e s' h hs => h.step hs, ?_, ?_, ?_⟩
  · rintro s e s' ⟨⟨place, hplace⟩, -, -⟩ he hs
    rcases hplace.reaping hs with ⟨-, -, hslot, -⟩ | ⟨hne, -⟩ | ⟨hne, -⟩
    · rw [hslot]
      exact nofun
    · exact absurd he hne
    · exact absurd he hne
  · rintro s e s' ⟨⟨place, hplace⟩, -, -⟩ hne hresumes hs
    rcases hplace.reaping hs with ⟨he, -⟩ | ⟨-, hnot, -⟩ | ⟨-, -, hslot, -⟩
    · exact absurd he hne
    · exact absurd hresumes hnot
    · exact fun hfull => hfull hslot
  · rintro s e s' ⟨⟨place, hplace⟩, -, -⟩ hne hnot hs
    rcases hplace.reaping hs with ⟨he, -⟩ | ⟨-, -, hslot, -⟩ | ⟨-, hresumes, -⟩
    · exact absurd he hne
    · rw [hslot]
    · exact absurd hresumes hnot

/-- SOURCE: threads/thread.cc:143-154, 252-284, threads/scheduler.cc:90-135 — in every run every deleted
thread had finished, is deleted once and is not the current thread; and `Finish` finds
`threadToBeDestroyed` empty whenever it is called exactly if between any two calls some thread
has come out of the `SWITCH` of `Scheduler::Run`. -/
theorem threadToBeDestroyed_empty_iff (main : ThreadId) (es : List SchedEvent) :
    Always SchedState.step Reaped (SchedState.init main) es ∧
      (Meets SchedState.step (fun s e => e = .finish → s.threadToBeDestroyed = none)
          (SchedState.init main) es ↔
        EmptiedBetween SchedState.step (· = .finish) Resumes (SchedState.init main) es) := by
  constructor
  · have hmeets : Meets SchedState.step (fun _ _ => True) (SchedState.init main) es :=
      meets_of_forall (fun _ _ _ => trivial) _
    exact always_of_meets (fun s h => h.reaped) (fun s e s' h _ hs => h.step hs) (reapInv_init main)
      hmeets
  · have hempty : ¬ (SchedState.init main).threadToBeDestroyed ≠ none := not_not.mpr rfl
    rw [← slotRules_threadToBeDestroyed.meets_iff (reapInv_init main) hempty]
    simp only [ne_eq, not_not]

/-- Two threads are forked and the main thread finishes: the first of them starts, with the main
thread in the slot, and its own `Finish` overwrites it. -/
theorem finished_thread_overwritten :
    ∃ s s', run SchedState.step (SchedState.init 0) [.fork 1, .fork 2, .finish, .findNext] = some s ∧
      s.threadToBeDestroyed = some 0 ∧ s.step .finish = some s' ∧
      s'.threadToBeDestroyed = some 1 ∧ s'.deleted = [] := by
  exact ⟨_, _, rfl, rfl, rfl, rfl, rfl⟩

end Nachos.Analysis
