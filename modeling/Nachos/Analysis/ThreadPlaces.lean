import Nachos.Analysis.SemaphoreRuns
import Nachos.Library.Places
import Nachos.Model.Scheduler

/-!
# Where the threads are

The abstract picture of the scheduler is a function that gives every thread a place: on the
CPU, ready, waiting for one semaphore, or nowhere. The ready list and the queues each hold
exactly the threads placed there, once, and every operation moves one thread at a time
along the arrows

    nowhere -> ready -> cpu -> ready,   cpu -> waiting k -> ready,   cpu -> nowhere

(`Fork`, dispatch, `Yield`, `P`, `V`, `Finish`). While the current thread is inside `Sleep`
nobody is on the CPU: the thread is already placed in the queue it waits in, from which a
handler that runs in `Idle` may have moved it to the ready list, so that `Sleep` dispatches
the thread that called it.

That ready threads are dispatched in the order they became ready is the equation
`becameReady = dispatched ++ readyList`, which every operation keeps.
-/

set_option autoImplicit false

namespace Nachos.Analysis

open Nachos.Library Nachos.Model

/-- The places of the abstract scheduler. -/
inductive Place where
  | nowhere
  | cpu
  | ready
  | waiting (k : ℕ)
deriving DecidableEq

/-- The `status` that goes with a place. -/
def Place.status : Place → Option ThreadStatus
  | .nowhere => none
  | .cpu => some .running
  | .ready => some .ready
  | .waiting _ => some .blocked

/-- Kept in no list. -/
def Place.unlisted : Place → Bool
  | .nowhere => true
  | .cpu => true
  | _ => false

/-- The current thread has not given up the CPU. -/
def onCpu : CpuMode → Bool
  | .outside => true
  | .inP _ => true
  | _ => false

/-! ## One place for each thread -/

/-- Thread `t` waits in no semaphore's queue. -/
def InNoQueue (s : SchedState) (t : ThreadId) : Prop :=
  ∀ k sem, s.sems k = some sem → t ∉ sem.queue

/-- Thread `t` is in exactly one place: it is `currentThread`, or once in `readyList`, or once
in the queue of exactly one semaphore. -/
inductive InOnePlace (s : SchedState) (t : ThreadId) : Prop
  | current (hc : t = s.currentThread) (hr : t ∉ s.readyList) (hq : InNoQueue s t)
  | ready (hc : t ≠ s.currentThread) (hr : s.readyList.count t = 1) (hq : InNoQueue s t)
  | waiting (hc : t ≠ s.currentThread) (hr : t ∉ s.readyList) (k : ℕ) (sem : Semaphore)
      (hk : s.sems k = some sem) (hq : sem.queue.count t = 1)
      (ho : ∀ j sem', j ≠ k → s.sems j = some sem' → t ∉ sem'.queue)

/-- Every thread forked and not finished is in exactly one place, and a finished one is in
none. -/
structure ThreadsPlaced (s : SchedState) : Prop where
  live : ∀ t, s.forked t = true → s.finished t = false → InOnePlace s t
  finished : ∀ t, s.finished t = true → t ≠ s.currentThread ∧ t ∉ s.readyList ∧ InNoQueue s t

/-- No assertion has failed; whenever a thread executes outside the scheduler and the sleep
and wake routines, the threads are placed; and the threads dispatched so far are, in order,
the first of those that became ready. -/
structure SchedGood (s : SchedState) : Prop where
  alive : s.failed = false
  placed : s.mode = .outside → ThreadsPlaced s
  order : s.becameReady = s.dispatched ++ s.readyList

/-! ## The lists of an abstract state -/

/-- The ready list and the queues hold the threads that are placed there. -/
structure Lists (place : ThreadId → Place) (readyList : List ThreadId)
    (sems : ℕ → Option Semaphore) : Prop where
  ready : Holds place .ready readyList
  queue : ∀ k sem, sems k = some sem → Holds place (.waiting k) sem.queue
  unused : ∀ k, sems k = none → ∀ t, place t ≠ .waiting k

section Lists

variable {place : ThreadId → Place} {readyList rest : List ThreadId}
  {sems : ℕ → Option Semaphore} {t : ThreadId} {p : Place} {k : ℕ} {sem sem' : Semaphore}

theorem ne_ready_of_unlisted (h : p.unlisted = true) : p ≠ .ready := by
  rintro rfl
  cases h

theorem ne_waiting_of_unlisted (h : p.unlisted = true) (k : ℕ) : p ≠ .waiting k := by
  rintro rfl
  cases h

theorem Lists.unused_update (h : Lists place readyList sems) (hp : ∀ k, p ≠ .waiting k) {k : ℕ}
    (hk : sems k = none) (u : ThreadId) : Function.update place t p u ≠ .waiting k := by
  by_cases hut : u = t
  · rw [hut, Function.update_self]
    exact hp k
  · rw [Function.update_of_ne hut]
    exact h.unused k hk u

theorem Lists.unlisted (h : Lists place readyList sems) (ht : (place t).unlisted = true)
    (hp : p.unlisted = true) : Lists (Function.update place t p) readyList sems where
  ready := h.ready.other (ne_ready_of_unlisted ht) (ne_ready_of_unlisted hp)
  queue := fun k sem hk =>
    (h.queue k sem hk).other (ne_waiting_of_unlisted ht k) (ne_waiting_of_unlisted hp k)
  unused := fun _ hk u => h.unused_update (ne_waiting_of_unlisted hp) hk u

theorem Lists.readyToRun (h : Lists place readyList sems) (ht : (place t).unlisted = true) :
    Lists (Function.update place t .ready) (readyList ++ [t]) sems where
  ready := h.ready.append (ne_ready_of_unlisted ht)
  queue := fun k sem hk => (h.queue k sem hk).other (ne_waiting_of_unlisted ht k) nofun
  unused := fun _ hk u => h.unused_update (fun _ h => by cases h) hk u

theorem Lists.findNextToRun (h : Lists place (t :: rest) sems) :
    Lists (Function.update place t .cpu) rest sems := by
  have ht : place t = .ready := (h.ready.mem t).mp List.mem_cons_self
  refine ⟨h.ready.tail nofun, fun k sem hk => ?_,
    fun _ hk u => h.unused_update (fun _ h => by cases h) hk u⟩
  refine (h.queue k sem hk).other ?_ nofun
  rw [ht]
  exact nofun

theorem Lists.replace (h : Lists place readyList sems) {place' : ThreadId → Place}
    {readyList' : List ThreadId} (hk : sems k = some sem)
    (hready : Holds place' .ready readyList') (hqueue : Holds place' (.waiting k) sem'.queue)
    (hother : ∀ j sem, j ≠ k → sems j = some sem → Holds place' (.waiting j) sem.queue)
    (hsame : ∀ j, j ≠ k → ∀ u, place u ≠ .waiting j → place' u ≠ .waiting j) :
    Lists place' readyList' (Function.update sems k (some sem')) := by
  refine ⟨hready, fun j x hj => ?_, fun j hj u => ?_⟩
  · by_cases hjk : j = k
    · subst hjk
      rw [Function.update_self, Option.some.injEq] at hj
      exact hj ▸ hqueue
    · rw [Function.update_of_ne hjk] at hj
      exact hother j x hjk hj
  · by_cases hjk : j = k
    · rw [hjk, Function.update_self] at hj
      cases hj
    · rw [Function.update_of_ne hjk] at hj
      exact hsame j hjk u (h.unused j hj u)

theorem Lists.setValue (h : Lists place readyList sems) (hk : sems k = some sem)
    (hq : sem'.queue = sem.queue) : Lists place readyList (Function.update sems k (some sem')) :=
  h.replace hk h.ready (hq ▸ h.queue k sem hk) (fun j x _ hj => h.queue j x hj)
    (fun _ _ _ hu => hu)

theorem Lists.joinQueue (h : Lists place readyList sems) (hk : sems k = some sem)
    (ht : (place t).unlisted = true) (hq : sem'.queue = sem.queue ++ [t]) :
    Lists (Function.update place t (.waiting k)) readyList (Function.update sems k (some sem')) := by
  apply h.replace hk
  · exact h.ready.other (ne_ready_of_unlisted ht) nofun
  · rw [hq]
    exact (h.queue k sem hk).append (ne_waiting_of_unlisted ht k)
  · intro j x hjk hj
    refine (h.queue j x hj).other (ne_waiting_of_unlisted ht j) ?_
    intro he
    cases he
    exact hjk rfl
  · intro j hjk u hu
    by_cases hut : u = t
    · rw [hut, Function.update_self]
      intro he
      cases he
      exact hjk rfl
    · rwa [Function.update_of_ne hut]

/-- INTERNAL: a `V` moves the front of the queue to the ready list. -/
theorem Lists.wake (h : Lists place readyList sems) (hk : sems k = some sem)
    (hq : sem.queue = t :: rest) (hq' : sem'.queue = rest) :
    Lists (Function.update place t .ready) (readyList ++ [t])
      (Function.update sems k (some sem')) := by
  have hqueue := h.queue k sem hk
  rw [hq] at hqueue
  have ht : place t = .waiting k := (hqueue.mem t).mp List.mem_cons_self
  apply h.replace hk
  · apply h.ready.append
    rw [ht]
    exact nofun
  · rw [hq']
    exact hqueue.tail nofun
  · intro j x hjk hj
    refine (h.queue j x hj).other ?_ nofun
    rw [ht]
    intro he
    cases he
    exact hjk rfl
  · intro j hjk u hu
    by_cases hut : u = t
    · rw [hut, Function.update_self]
      exact nofun
    · rwa [Function.update_of_ne hut]

theorem Lists.create (h : Lists place readyList sems) (hk : sems k = none)
    (hq : sem'.queue = []) : Lists place readyList (Function.update sems k (some sem')) := by
  refine ⟨h.ready, fun j x hj => ?_, fun j hj u => ?_⟩
  · by_cases hjk : j = k
    · subst hjk
      rw [Function.update_self, Option.some.injEq] at hj
      rw [← hj, hq]
      exact Holds.nil (h.unused j hk)
    · rw [Function.update_of_ne hjk] at hj
      exact h.queue j x hj
  · by_cases hjk : j = k
    · rw [hjk, Function.update_self] at hj
      cases hj
    · rw [Function.update_of_ne hjk] at hj
      exact h.unused j hj u

theorem Lists.delete (h : Lists place readyList sems) (hk : sems k = some sem)
    (hq : sem.queue = []) : Lists place readyList (Function.update sems k none) := by
  refine ⟨h.ready, fun j x hj => ?_, fun j hj u => ?_⟩
  · by_cases hjk : j = k
    · rw [hjk, Function.update_self] at hj
      cases hj
    · rw [Function.update_of_ne hjk] at hj
      exact h.queue j x hj
  · by_cases hjk : j = k
    · subst hjk
      intro hu
      have hmem := ((h.queue j sem hk).mem u).mpr hu
      rw [hq] at hmem
      exact absurd hmem List.not_mem_nil
    · rw [Function.update_of_ne hjk] at hj
      exact h.unused j hj u

end Lists

/-! ## The invariant -/

/-- `place` is the abstract state of `s`. -/
structure SchedInv (s : SchedState) (place : ThreadId → Place) : Prop where
  alive : s.failed = false
  lists : Lists place s.readyList s.sems
  cpu : ∀ t, place t = .cpu ↔ onCpu s.mode = true ∧ t = s.currentThread
  live : ∀ t, place t = .nowhere ↔ ¬ (s.forked t = true ∧ s.finished t = false)
  status : ∀ t st, (place t).status = some st → s.status t = st
  born : ∀ t, s.finished t = true → s.forked t = true
  doomed : ∀ t, s.threadToBeDestroyed = some t → s.finished t = true
  order : s.becameReady = s.dispatched ++ s.readyList

section Invariant

variable {s s' : SchedState} {place : ThreadId → Place} {t : ThreadId}

theorem SchedInv.inNoQueue (h : SchedInv s place) (ht : ∀ k, place t ≠ .waiting k) :
    InNoQueue s t :=
  fun k sem hk => (h.lists.queue k sem hk).not_mem (ht k)

/-- INTERNAL: a thread is where `place` puts it, and nowhere else. -/
theorem SchedInv.inOnePlace (h : SchedInv s place) (hm : s.mode = .outside)
    (ht : place t ≠ .nowhere) : InOnePlace s t := by
  have hcpu : place t = .cpu ↔ t = s.currentThread := by
    rw [h.cpu t, hm]
    simp [onCpu]
  cases hp : place t with
  | nowhere => exact absurd hp ht
  | cpu =>
    apply InOnePlace.current (hcpu.mp hp)
    · apply h.lists.ready.not_mem
      rw [hp]
      exact nofun
    · apply h.inNoQueue
      rw [hp]
      exact nofun
  | ready =>
    have hc : t ≠ s.currentThread := fun he => by rw [hcpu.mpr he] at hp; cases hp
    apply InOnePlace.ready hc (h.lists.ready.count_eq_one hp)
    apply h.inNoQueue
    rw [hp]
    exact nofun
  | waiting k =>
    have hc : t ≠ s.currentThread := fun he => by rw [hcpu.mpr he] at hp; cases hp
    have hr : t ∉ s.readyList := by
      apply h.lists.ready.not_mem
      rw [hp]
      exact nofun
    cases hk : s.sems k with
    | none => exact absurd hp (h.lists.unused k hk t)
    | some sem =>
      refine .waiting hc hr k sem hk ((h.lists.queue k sem hk).count_eq_one hp) ?_
      intro j sem' hjk hj
      apply (h.lists.queue j sem' hj).not_mem
      rw [hp]
      intro he
      cases he
      exact hjk rfl

theorem SchedInv.good (h : SchedInv s place) : SchedGood s := by
  refine ⟨h.alive, fun hm => ⟨fun t hf hn => ?_, fun t hf => ?_⟩, h.order⟩
  · apply h.inOnePlace hm
    intro he
    exact (h.live t).mp he ⟨hf, hn⟩
  · have hp : place t = .nowhere := (h.live t).mpr fun hn => by rw [hn.2] at hf; cases hf
    refine ⟨fun he => ?_, h.lists.ready.not_mem (by rw [hp]; exact nofun),
      h.inNoQueue (by rw [hp]; exact nofun)⟩
    have hc : place t = .cpu := (h.cpu t).mpr ⟨by rw [hm]; rfl, he⟩
    rw [hp] at hc
    cases hc

theorem SchedInv.current (h : SchedInv s place) (hm : onCpu s.mode = true) :
    place s.currentThread = .cpu :=
  (h.cpu _).mpr ⟨hm, rfl⟩

theorem SchedInv.current_live (h : SchedInv s place) (hm : onCpu s.mode = true) :
    s.forked s.currentThread = true ∧ s.finished s.currentThread = false := by
  by_contra hn
  have hp := (h.live _).mpr hn
  rw [h.current hm] at hp
  cases hp

theorem status_update {status : ThreadId → ThreadStatus} {p : Place} {x : ThreadStatus}
    (h : ∀ u st, u ≠ t → (place u).status = some st → status u = st) (hp : p.status = some x)
    (u : ThreadId) (st : ThreadStatus) (hu : (Function.update place t p u).status = some st) :
    Function.update status t x u = st := by
  by_cases hut : u = t
  · subst hut
    rw [Function.update_self] at hu ⊢
    rw [hp, Option.some.injEq] at hu
    exact hu
  · rw [Function.update_of_ne hut] at hu ⊢
    exact h u st hut hu

/-! ## `Scheduler::Run` -/

/-- What `Run` leaves of the state it is called in. -/
structure Ran (s : SchedState) (next : ThreadId) (s' : SchedState) : Prop where
  failed : s'.failed = s.failed
  current : s'.currentThread = next
  mode : onCpu s'.mode = true
  ready : s'.readyList = s.readyList
  sems : s'.sems = s.sems
  status : s'.status = Function.update s.status next .running
  forked : s'.forked = s.forked
  finished : s'.finished = s.finished
  doomed : ∀ t, s'.threadToBeDestroyed = some t → s.threadToBeDestroyed = some t
  order : s'.becameReady = s.becameReady ∧ s'.dispatched = s.dispatched

/-- INTERNAL: `Run` switches to the thread it is given; the thread deleted is another one. -/
theorem ran_run (here : Resume) {next : ThreadId} (hne : s.threadToBeDestroyed ≠ some next) :
    Ran s next (s.run here next) := by
  have hdestroy : ∀ x : SchedState, x.currentThread = next →
      x.threadToBeDestroyed = s.threadToBeDestroyed → x.destroy.failed = x.failed ∧
        x.destroy = { x with
          deleted := x.destroy.deleted, threadToBeDestroyed := none } := by
    intro x hx hd
    unfold SchedState.destroy
    split
    · rename_i hn
      exact ⟨rfl, by rw [← hn]⟩
    · rename_i u hu
      rw [if_neg]
      · exact ⟨rfl, rfl⟩
      · rw [hx]
        rintro rfl
        exact hne (hd ▸ hu)
  unfold SchedState.run
  dsimp only
  split
  · exact ⟨rfl, rfl, rfl, rfl, rfl, rfl, rfl, rfl, fun _ h => h, rfl, rfl⟩
  all_goals
    obtain ⟨-, hd⟩ := hdestroy { s with
      resumeAt := Function.update s.resumeAt s.currentThread here
      currentThread := next
      status := Function.update s.status next .running } rfl rfl
    rw [hd]
    exact ⟨rfl, rfl, rfl, rfl, rfl, rfl, rfl, rfl, nofun, rfl, rfl⟩

/-- INTERNAL: the invariant after a `Run`, from what holds just before it. -/
theorem SchedInv.of_ran {next : ThreadId} (hran : Ran s next s') (halive : s.failed = false)
    (hlists : Lists place s.readyList s.sems) (hcpu : ∀ t, place t = .cpu ↔ t = next)
    (hlive : ∀ t, place t = .nowhere ↔ ¬ (s.forked t = true ∧ s.finished t = false))
    (hstatus : ∀ t st, t ≠ next → (place t).status = some st → s.status t = st)
    (hborn : ∀ t, s.finished t = true → s.forked t = true)
    (hdoomed : ∀ t, s.threadToBeDestroyed = some t → s.finished t = true)
    (horder : s.becameReady = s.dispatched ++ s.readyList) : SchedInv s' place := by
  refine ⟨hran.failed.trans halive, ?_, fun t => ?_, fun t => ?_, fun t st ht => ?_, ?_,
    fun t ht => ?_, ?_⟩
  · rw [hran.ready, hran.sems]
    exact hlists
  · rw [hran.mode, hran.current, hcpu t]
    simp
  · rw [hran.forked, hran.finished]
    exact hlive t
  · have hself : Function.update place next .cpu = place := by
      rw [← (hcpu next).mpr rfl, Function.update_eq_self]
    rw [hran.status]
    refine status_update (t := next) (p := .cpu) hstatus rfl t st ?_
    rw [hself]
    exact ht
  · rw [hran.finished, hran.forked]
    exact hborn
  · rw [hran.finished]
    exact hdoomed t (hran.doomed t ht)
  · rw [hran.order.1, hran.order.2, hran.ready]
    exact horder

theorem SchedInv.not_doomed (h : SchedInv s place) (ht : place t ≠ .nowhere) :
    s.threadToBeDestroyed ≠ some t := by
  intro hd
  apply ht
  rw [h.live t]
  intro hn
  rw [h.doomed t hd] at hn
  cases hn.2

/-! ## The operations -/

theorem SchedInv.run (h : SchedInv s place) (hm : onCpu s.mode = true) :
    SchedInv (s.run .caller s.currentThread) place := by
  have hcur := h.current hm
  have hne : s.threadToBeDestroyed ≠ some s.currentThread := h.not_doomed (by rw [hcur]; exact nofun)
  apply SchedInv.of_ran (ran_run _ hne) h.alive h.lists _ h.live _ h.born h.doomed h.order
  · intro t
    rw [h.cpu t, hm]
    simp
  · intro t st _ ht
    exact h.status t st ht

theorem findNextToRun_cases (s : SchedState) :
    (s.readyList = [] ∧ s.findNextToRun = (none, s)) ∨
    ∃ u rest, s.readyList = u :: rest ∧
      s.findNextToRun =
        (some u, { s with readyList := rest, dispatched := s.dispatched ++ [u] }) := by
  unfold SchedState.findNextToRun
  split
  · rename_i hr
    exact Or.inl ⟨hr, rfl⟩
  · rename_i u rest hr
    exact Or.inr ⟨u, rest, hr, rfl⟩

theorem live_update {p : Place} (hlive : ∀ u, place u = .nowhere ↔
      ¬ (s.forked u = true ∧ s.finished u = false))
    (ht : place t ≠ .nowhere) (hp : p ≠ .nowhere) (u : ThreadId) :
    Function.update place t p u = .nowhere ↔ ¬ (s.forked u = true ∧ s.finished u = false) := by
  rw [← hlive u]
  by_cases hut : u = t
  · rw [hut, Function.update_self]
    exact ⟨fun h => absurd h hp, fun h => absurd h ht⟩
  · rw [Function.update_of_ne hut]

/-- INTERNAL: the loop of `Sleep` dispatches the first ready thread or idles. -/
theorem SchedInv.findNext (h : SchedInv s place) (hm : onCpu s.mode = false) :
    ∃ place', SchedInv s.findNext place' := by
  have hnone : ∀ t, place t ≠ .cpu := by
    intro t ht
    rw [((h.cpu t).mp ht).1] at hm
    cases hm
  unfold SchedState.findNext
  rcases findNextToRun_cases s with ⟨-, hfind⟩ | ⟨u, rest, hready, hfind⟩
  · rw [hfind]
    refine ⟨place, h.alive, h.lists, fun t => ?_, h.live, h.status, h.born, h.doomed, h.order⟩
    simp [hnone t, onCpu]
  · rw [hfind]
    have hlists := h.lists
    rw [hready] at hlists
    have hu : place u = .ready := (hlists.ready.mem u).mp List.mem_cons_self
    have hlive : place u ≠ .nowhere := by rw [hu]; exact nofun
    have hran := ran_run (s := { s with readyList := rest, dispatched := s.dispatched ++ [u] })
      (s.resumeAt s.currentThread) (h.not_doomed hlive)
    refine ⟨Function.update place u .cpu, ?_⟩
    apply SchedInv.of_ran hran h.alive hlists.findNextToRun
    · intro t
      by_cases htu : t = u
      · simp [htu]
      · rw [Function.update_of_ne htu]
        exact ⟨fun ht => absurd ht (hnone t), fun he => absurd he htu⟩
    · exact live_update h.live hlive nofun
    · intro t st htu ht
      rw [Function.update_of_ne htu] at ht
      exact h.status t st ht
    · exact h.born
    · exact h.doomed
    · show s.becameReady = s.dispatched ++ [u] ++ rest
      rw [h.order, hready, List.append_assoc, List.singleton_append]

/-- INTERNAL: `Yield` exchanges the current thread and the first ready one. -/
theorem SchedInv.yield (h : SchedInv s place) (hm : onCpu s.mode = true) :
    ∃ place', SchedInv s.yield place' := by
  have hcur := h.current hm
  unfold SchedState.yield
  rcases findNextToRun_cases s with ⟨-, hfind⟩ | ⟨u, rest, hready, hfind⟩
  · rw [hfind]
    exact ⟨place, h⟩
  · rw [hfind]
    have hlists := h.lists
    rw [hready] at hlists
    have hu : place u = .ready := (hlists.ready.mem u).mp List.mem_cons_self
    have hlive : place u ≠ .nowhere := by rw [hu]; exact nofun
    have hne : s.currentThread ≠ u := by
      intro he
      rw [← he, hcur] at hu
      cases hu
    have hcpu : Function.update place u .cpu s.currentThread = .cpu := by
      rw [Function.update_of_ne hne, hcur]
    -- first the dispatched thread leaves the ready list, then the current one joins it
    have hran := ran_run (s := { s with
      readyList := rest, dispatched := s.dispatched ++ [u] }.readyToRun s.currentThread) .caller
      (h.not_doomed hlive)
    refine ⟨Function.update (Function.update place u .cpu) s.currentThread .ready, ?_⟩
    apply SchedInv.of_ran hran h.alive (hlists.findNextToRun.readyToRun (by rw [hcpu]; rfl))
    · intro t
      by_cases htc : t = s.currentThread
      · simp [htc, hne]
      · rw [Function.update_of_ne htc]
        by_cases htu : t = u
        · simp [htu]
        · rw [Function.update_of_ne htu, h.cpu t]
          simp [htc, htu]
    · have hcpu' : Function.update place u .cpu s.currentThread ≠ .nowhere := by
        rw [hcpu]
        exact nofun
      have hmid := live_update (p := .cpu) h.live hlive nofun
      exact live_update (s := s) (p := .ready) hmid hcpu' nofun
    · intro t st htu ht
      show Function.update s.status s.currentThread .ready t = st
      by_cases htc : t = s.currentThread
      · rw [htc, Function.update_self] at ht ⊢
        exact Option.some.inj ht
      · rw [Function.update_of_ne htc]
        rw [Function.update_of_ne htc, Function.update_of_ne htu] at ht
        exact h.status t st ht
    · exact h.born
    · exact h.doomed
    · show s.becameReady ++ [s.currentThread] = s.dispatched ++ [u] ++ (rest ++ [s.currentThread])
      rw [h.order, hready]
      simp

/-- INTERNAL: `ReadyToRun` on a thread that does not have the CPU, from what holds just
before it. -/
theorem SchedInv.of_readyToRun (halive : s.failed = false)
    (hlists : Lists (Function.update place t .ready) (s.readyList ++ [t]) s.sems)
    (hcpu : ∀ u, place u = .cpu ↔ onCpu s.mode = true ∧ u = s.currentThread)
    (ht : place t ≠ .cpu)
    (hlive : ∀ u, Function.update place t .ready u = .nowhere ↔
      ¬ (s.forked u = true ∧ s.finished u = false))
    (hstatus : ∀ u st, (place u).status = some st → s.status u = st)
    (hborn : ∀ u, s.finished u = true → s.forked u = true)
    (hdoomed : ∀ u, s.threadToBeDestroyed = some u → s.finished u = true)
    (horder : s.becameReady = s.dispatched ++ s.readyList) :
    SchedInv (s.readyToRun t) (Function.update place t .ready) := by
  refine ⟨halive, hlists, fun u => ?_, hlive, ?_, hborn, hdoomed, ?_⟩
  · show Function.update place t .ready u = .cpu ↔ onCpu s.mode = true ∧ u = s.currentThread
    rw [← hcpu u]
    by_cases hut : u = t
    · rw [hut, Function.update_self]
      exact ⟨nofun, fun h => absurd h ht⟩
    · rw [Function.update_of_ne hut]
  · exact status_update (fun u st _ hu => hstatus u st hu) rfl
  · show s.becameReady ++ [t] = s.dispatched ++ (s.readyList ++ [t])
    rw [horder, List.append_assoc]

/-- INTERNAL: `Fork` puts a new thread on the ready list. -/
theorem SchedInv.fork (h : SchedInv s place) (ht : s.forked t = false) :
    SchedInv (s.fork t) (Function.update place t .ready) := by
  have hp : place t = .nowhere := (h.live t).mpr fun hn => by rw [ht] at hn; cases hn.1
  have hnot : s.finished t = false := by
    by_contra hf
    rw [h.born t (by simpa using hf)] at ht
    cases ht
  apply SchedInv.of_readyToRun (s := { s with
    forked := Function.update s.forked t true
    resumeAt := Function.update s.resumeAt t .threadRoot }) h.alive
    (h.lists.readyToRun (by rw [hp]; rfl)) h.cpu
  · rw [hp]
    exact nofun
  · intro u
    show Function.update place t .ready u = .nowhere ↔
      ¬ (Function.update s.forked t true u = true ∧ s.finished u = false)
    by_cases hut : u = t
    · simp [hut, hnot]
    · rw [Function.update_of_ne hut, Function.update_of_ne hut]
      exact h.live u
  · exact h.status
  · intro u hu
    show Function.update s.forked t true u = true
    by_cases hut : u = t
    · rw [hut, Function.update_self]
    · rw [Function.update_of_ne hut]
      exact h.born u hu
  · exact h.doomed
  · exact h.order

/-- INTERNAL: a `V` makes the first waiting thread ready. -/
theorem SchedInv.doV (h : SchedInv s place) {k : ℕ} {sem : Semaphore} (hk : s.sems k = some sem) :
    ∃ place', SchedInv (s.doV k sem) place' := by
  unfold SchedState.doV Semaphore.v
  cases hq : sem.queue with
  | nil =>
    refine ⟨place, h.alive, ?_, h.cpu, h.live, h.status, h.born, h.doomed, h.order⟩
    exact h.lists.setValue hk hq.symm
  | cons t rest =>
    have hwait : place t = .waiting k := by
      apply ((h.lists.queue k sem hk).mem t).mp
      rw [hq]
      exact List.mem_cons_self
    have hlists : Lists (Function.update place t .ready) (s.readyList ++ [t])
        (Function.update s.sems k (some { sem with queue := rest, value := sem.value + 1#32 })) :=
      h.lists.wake hk hq rfl
    refine ⟨Function.update place t .ready, ?_⟩
    apply SchedInv.of_readyToRun (s := { s with sems := Function.update s.sems k (some _) }) h.alive
      hlists h.cpu
    · rw [hwait]
      exact nofun
    · refine live_update h.live ?_ nofun
      rw [hwait]
      exact nofun
    · exact h.status
    · exact h.born
    · exact h.doomed
    · exact h.order

/-- INTERNAL: the current thread gives up the CPU in `Sleep` for the place `p`, from what
holds just before it. -/
theorem SchedInv.of_sleep (here : Resume) {p : Place} (halive : s.failed = false)
    (hlists : Lists (Function.update place s.currentThread p) s.readyList s.sems)
    (hcpu : ∀ u, place u = .cpu ↔ u = s.currentThread) (hp : p ≠ .cpu)
    (hlive : ∀ u, Function.update place s.currentThread p u = .nowhere ↔
      ¬ (s.forked u = true ∧ s.finished u = false))
    (hstatus : ∀ u st, (place u).status = some st → s.status u = st)
    (hpst : ∀ st, p.status = some st → st = .blocked)
    (hborn : ∀ u, s.finished u = true → s.forked u = true)
    (hdoomed : ∀ u, s.threadToBeDestroyed = some u → s.finished u = true)
    (horder : s.becameReady = s.dispatched ++ s.readyList) :
    SchedInv (s.sleep here) (Function.update place s.currentThread p) := by
  refine ⟨halive, hlists, fun u => ?_, hlive, fun u st hu => ?_, hborn, hdoomed, horder⟩
  · show _ ↔ onCpu .inSleep = true ∧ u = s.currentThread
    by_cases huc : u = s.currentThread
    · rw [huc, Function.update_self]
      exact ⟨fun h => absurd h hp, fun h => by cases h.1⟩
    · rw [Function.update_of_ne huc, hcpu u]
      exact ⟨fun h => absurd h huc, fun h => absurd h.2 huc⟩
  · show Function.update s.status s.currentThread .blocked u = st
    by_cases huc : u = s.currentThread
    · rw [huc, Function.update_self] at hu ⊢
      exact (hpst st hu).symm
    · rw [Function.update_of_ne huc] at hu ⊢
      exact hstatus u st hu

theorem SchedInv.cpu_iff (h : SchedInv s place) (hm : onCpu s.mode = true) (u : ThreadId) :
    place u = .cpu ↔ u = s.currentThread := by
  rw [h.cpu u, hm]
  simp

/-- INTERNAL: `Finish` takes the thread out of every place. -/
theorem SchedInv.finish (h : SchedInv s place) (hm : onCpu s.mode = true) :
    SchedInv s.finish (Function.update place s.currentThread .nowhere) := by
  have hcur := h.current hm
  apply SchedInv.of_sleep (p := .nowhere) (s := { s with
    threadToBeDestroyed := some s.currentThread
    finished := Function.update s.finished s.currentThread true }) .caller h.alive
    (h.lists.unlisted (by rw [hcur]; rfl) rfl) (h.cpu_iff hm) nofun
  · intro u
    show _ ↔ ¬ (s.forked u = true ∧ Function.update s.finished s.currentThread true u = false)
    by_cases huc : u = s.currentThread
    · simp [huc]
    · rw [Function.update_of_ne huc, Function.update_of_ne huc]
      exact h.live u
  · exact h.status
  · exact nofun
  · intro u hu
    change Function.update s.finished s.currentThread true u = true at hu
    by_cases huc : u = s.currentThread
    · rw [huc]
      exact (h.current_live hm).1
    · rw [Function.update_of_ne huc] at hu
      exact h.born u hu
  · intro u hu
    cases hu
    exact Function.update_self _ _ _
  · exact h.order

/-- INTERNAL: the loop test of `P`: the thread goes on, or it joins the queue and sleeps. -/
theorem SchedInv.testP (h : SchedInv s place) {k : ℕ} {sem : Semaphore} (hm : s.mode = .inP k)
    (hk : s.sems k = some sem) : ∃ place', SchedInv (s.testP k sem) place' := by
  have hon : onCpu s.mode = true := by rw [hm]; rfl
  have hcur := h.current hon
  unfold SchedState.testP
  by_cases hv : sem.value = 0#32
  · rw [Semaphore.p_of_zero _ hv]
    have hlists : Lists (Function.update place s.currentThread (.waiting k)) s.readyList
        (Function.update s.sems k (some { sem with queue := sem.queue ++ [s.currentThread] })) :=
      h.lists.joinQueue hk (by rw [hcur]; rfl) rfl
    refine ⟨Function.update place s.currentThread (.waiting k), ?_⟩
    apply SchedInv.of_sleep (p := .waiting k) (s := { s with
      sems := Function.update s.sems k (some _) }) (.inP k) h.alive hlists (h.cpu_iff hon) nofun
    · refine live_update h.live ?_ nofun
      rw [hcur]
      exact nofun
    · exact h.status
    · intro st hst
      exact (Option.some.inj hst).symm
    · exact h.born
    · exact h.doomed
    · exact h.order
  · rw [Semaphore.p_of_ne_zero _ hv]
    refine ⟨place, h.alive, h.lists.setValue hk rfl, fun t => ?_, h.live, h.status, h.born,
      h.doomed, h.order⟩
    rw [h.cpu t, hm]
    rfl

/-! ## Runs -/

/-- INTERNAL: every step is a move of the abstract scheduler. -/
theorem SchedInv.step (h : SchedInv s place) {e : SchedEvent} (hs : s.step e = some s') :
    ∃ place', SchedInv s' place' := by
  unfold SchedState.step at hs
  rw [if_neg (by simp [h.alive])] at hs
  have hout : s.mode = .outside → onCpu s.mode = true := fun hm => by rw [hm]; rfl
  cases e with
  | newSemaphore k debugName initialValue =>
    obtain ⟨hc, rfl⟩ := Option.ite_some_none_eq_some.mp hs
    exact ⟨place, h.alive, h.lists.create hc.2 rfl, h.cpu, h.live, h.status, h.born, h.doomed,
      h.order⟩
  | deleteSemaphore k =>
    cases hk : s.sems k with
    | none => simp [hk] at hs
    | some sem =>
      simp only [hk] at hs
      obtain ⟨hc, rfl⟩ := Option.ite_some_none_eq_some.mp hs
      exact ⟨place, h.alive, h.lists.delete hk hc.2, h.cpu, h.live, h.status, h.born, h.doomed,
        h.order⟩
  | fork t =>
    obtain ⟨hc, rfl⟩ := Option.ite_some_none_eq_some.mp hs
    exact ⟨_, h.fork hc.2⟩
  | yield =>
    obtain ⟨hm, rfl⟩ := Option.ite_some_none_eq_some.mp hs
    exact h.yield (hout hm)
  | run =>
    obtain ⟨hm, rfl⟩ := Option.ite_some_none_eq_some.mp hs
    exact ⟨place, h.run (hout hm)⟩
  | p k =>
    obtain ⟨hm, rfl⟩ := Option.ite_some_none_eq_some.mp hs
    refine ⟨place, h.alive, h.lists, fun t => ?_, h.live, h.status, h.born, h.doomed, h.order⟩
    rw [h.cpu t, hm]
    rfl
  | test =>
    simp only at hs
    split at hs
    · rename_i k hm
      obtain ⟨sem, hk, rfl⟩ := Option.map_eq_some_iff.mp hs
      exact h.testP hm hk
    · cases hs
  | v k =>
    obtain ⟨hm, hv⟩ := Option.ite_none_right_eq_some.mp hs
    obtain ⟨sem, hk, rfl⟩ := Option.map_eq_some_iff.mp hv
    exact h.doV hk
  | finish =>
    obtain ⟨hm, rfl⟩ := Option.ite_some_none_eq_some.mp hs
    exact ⟨_, h.finish (hout hm)⟩
  | findNext =>
    obtain ⟨hm, rfl⟩ := Option.ite_some_none_eq_some.mp hs
    apply h.findNext
    rcases hm with hm | hm
    · rw [hm]
      rfl
    · rw [hm]
      rfl

end Invariant

theorem schedInv_init (main : ThreadId) :
    SchedInv (SchedState.init main) (fun t => if t = main then .cpu else .nowhere) := by
  refine ⟨rfl, ⟨Holds.nil fun t => ?_, nofun, fun k _ t => ?_⟩, fun t => ?_, fun t => ?_,
    fun t st ht => ?_, nofun, nofun, rfl⟩
  · split <;> exact nofun
  · split <;> exact nofun
  · by_cases ht : t = main <;> simp [ht, SchedState.init, onCpu]
  · by_cases ht : t = main <;> simp [ht, SchedState.init]
  · by_cases htm : t = main
    · subst htm
      simpa [SchedState.init, Place.status] using ht
    · simp [htm, Place.status] at ht

end Nachos.Analysis
