import Mathlib.Logic.Function.Basic
import Nachos.Model.Semaphore

/-!
# `Scheduler` and `Thread` (threads/scheduler.cc, threads/thread.cc)

One thread has the CPU, `currentThread`. It leaves it in `Yield`, or in `Sleep`, which `P`
and `Finish` call and which stays in its loop as long as `readyList` is empty, idling until
an interrupt handler does a `V`. A thread that gets the CPU back goes on after the `SWITCH`
of `Scheduler::Run` and deletes `threadToBeDestroyed`; a thread that gets it for the first
time starts in `ThreadRoot` and does not.

`mode` says in which routine the current thread is. Interrupts are off inside `P` and
`Sleep`, so a handler runs only while the current thread is outside them or idles.
-/

set_option autoImplicit false

namespace Nachos.Model

/-- `ThreadStatus` (thread.h:59). -/
inductive ThreadStatus where
  | justCreated
  | running
  | ready
  | blocked
deriving DecidableEq, Repr

/-- Where a thread that is not on the CPU goes on when it gets it: in `ThreadRoot` for the
first time, after the call of `Yield` or `Run`, or in the loop of a `P`. -/
inductive Resume where
  | threadRoot
  | caller
  | inP (sem : ℕ)
deriving DecidableEq, Repr

/-- What the current thread executes: its own code, the loop test of a `P`, the loop of
`Sleep`, or `Interrupt::Idle` inside that loop. -/
inductive CpuMode where
  | outside
  | inP (sem : ℕ)
  | inSleep
  | idle
deriving DecidableEq, Repr

/-- The scheduler with the threads and semaphores. `forked` and `finished` are the threads
`Fork` has been called on and those that have called `Finish`. `failed` says that the
assertion of `~Thread` has failed. `deleted`, and `becameReady` and `dispatched`, the threads
in the order `ReadyToRun` was called on them and in the order `FindNextToRun` returned them,
are read by no step. -/
structure SchedState where
  currentThread : ThreadId
  readyList : List ThreadId
  threadToBeDestroyed : Option ThreadId
  mode : CpuMode
  status : ThreadId → ThreadStatus
  resumeAt : ThreadId → Resume
  sems : ℕ → Option Semaphore
  forked : ThreadId → Bool
  finished : ThreadId → Bool
  failed : Bool
  deleted : List ThreadId
  becameReady : List ThreadId
  dispatched : List ThreadId

/-- What can happen. `v` is called by the current thread or by an interrupt handler, `run` is
a `scheduler->Run(currentThread)` of `StartProcess_2` (pcb.cc:35-36), whose two calls both
name the current thread. `test` is the loop test of a `P` and `findNext` that of `Sleep`. -/
inductive SchedEvent where
  | newSemaphore (k : ℕ) (debugName : String) (initialValue : BitVec 32)
  | deleteSemaphore (k : ℕ)
  | fork (t : ThreadId)
  | yield
  | run
  | p (k : ℕ)
  | test
  | v (k : ℕ)
  | finish
  | findNext
deriving DecidableEq, Repr

namespace SchedState

/-- The kernel after `Initialize` (system.cc): the main thread runs, and nothing else is
there. -/
def init (main : ThreadId) : SchedState where
  currentThread := main
  readyList := []
  threadToBeDestroyed := none
  mode := .outside
  status := fun t => if t = main then .running else .justCreated
  resumeAt := fun _ => .threadRoot
  sems := fun _ => none
  forked := fun t => t == main
  finished := fun _ => false
  failed := false
  deleted := []
  becameReady := []
  dispatched := []

/-- `Scheduler::ReadyToRun` (scheduler.cc:53-60). -/
def readyToRun (s : SchedState) (thread : ThreadId) : SchedState :=
  { s with
    status := Function.update s.status thread .ready
    readyList := s.readyList ++ [thread]
    becameReady := s.becameReady ++ [thread] }

/-- `Scheduler::FindNextToRun` (scheduler.cc:70-74). -/
def findNextToRun (s : SchedState) : Option ThreadId × SchedState :=
  match s.readyList with
  | [] => (none, s)
  | t :: rest => (some t, { s with readyList := rest, dispatched := s.dispatched ++ [t] })

/-- The deletion of the finished thread after the switch (scheduler.cc:124-127), with the
assertion of `~Thread` (thread.cc:61). -/
def destroy (s : SchedState) : SchedState :=
  match s.threadToBeDestroyed with
  | none => s
  | some t =>
    if t = s.currentThread then { s with failed := true }
    else { s with deleted := s.deleted ++ [t], threadToBeDestroyed := none }

/-- `Scheduler::Run` (scheduler.cc:90-135) by a thread that will go on at `here`: the switch
to `nextThread`, and what that thread does first. -/
def run (s : SchedState) (here : Resume) (nextThread : ThreadId) : SchedState :=
  let s := { s with
    resumeAt := Function.update s.resumeAt s.currentThread here
    currentThread := nextThread
    status := Function.update s.status nextThread .running }
  match s.resumeAt nextThread with
  | .threadRoot => { s with mode := .outside }
  | .caller => { s.destroy with mode := .outside }
  | .inP k => { s.destroy with mode := .inP k }

/-- `Thread::Fork` (thread.cc:87-99) on a thread just made. -/
def fork (s : SchedState) (t : ThreadId) : SchedState :=
  { s with
    forked := Function.update s.forked t true
    resumeAt := Function.update s.resumeAt t .threadRoot }.readyToRun t

/-- `Thread::Yield` (thread.cc:173-188). -/
def yield (s : SchedState) : SchedState :=
  match s.findNextToRun with
  | (none, s) => s
  | (some nextThread, s) => (s.readyToRun s.currentThread).run .caller nextThread

/-- The loop of `Thread::Sleep` (thread.cc:221-225): run the next thread, or idle. -/
def findNext (s : SchedState) : SchedState :=
  match s.findNextToRun with
  | (none, s) => { s with mode := .idle }
  | (some nextThread, s) => s.run (s.resumeAt s.currentThread) nextThread

/-- `Thread::Sleep` (thread.cc:211-226) up to its loop, called where the thread will go on
at `here`. -/
def sleep (s : SchedState) (here : Resume) : SchedState :=
  { s with
    status := Function.update s.status s.currentThread .blocked
    resumeAt := Function.update s.resumeAt s.currentThread here
    mode := .inSleep }

/-- `Thread::Finish` (thread.cc:143-154). -/
def finish (s : SchedState) : SchedState :=
  { s with
    threadToBeDestroyed := some s.currentThread
    finished := Function.update s.finished s.currentThread true }.sleep .caller

/-- The loop test of `Semaphore::P` (synch.cc:69-73). -/
def testP (s : SchedState) (k : ℕ) (sem : Semaphore) : SchedState :=
  match sem.p s.currentThread with
  | (sem, true) => { s with sems := Function.update s.sems k (some sem), mode := .outside }
  | (sem, false) => { s with sems := Function.update s.sems k (some sem) }.sleep (.inP k)

/-- `Semaphore::V` (synch.cc:87-98). -/
def doV (s : SchedState) (k : ℕ) (sem : Semaphore) : SchedState :=
  match sem.v with
  | (sem, none) => { s with sems := Function.update s.sems k (some sem) }
  | (sem, some thread) =>
    { s with sems := Function.update s.sems k (some sem) }.readyToRun thread

/-- One step. Only the current thread acts, outside the routines or where it stands in one
of them. A thread is forked once, and a semaphore that threads wait on is not deleted. -/
def step (s : SchedState) (e : SchedEvent) : Option SchedState :=
  if s.failed then none
  else match e with
    | .newSemaphore k debugName initialValue =>
      if s.mode = .outside ∧ s.sems k = none then
        some { s with
          sems := Function.update s.sems k (some (Semaphore.new debugName initialValue)) }
      else none
    | .deleteSemaphore k =>
      match s.sems k with
      | none => none
      | some sem =>
        if s.mode = .outside ∧ sem.queue = [] then
          some { s with sems := Function.update s.sems k none }
        else none
    | .fork t => if s.mode = .outside ∧ s.forked t = false then some (s.fork t) else none
    | .yield => if s.mode = .outside then some s.yield else none
    | .run => if s.mode = .outside then some (s.run .caller s.currentThread) else none
    | .p k => if s.mode = .outside then some { s with mode := .inP k } else none
    | .test =>
      match s.mode with
      | .inP k => (s.sems k).map (s.testP k)
      | _ => none
    | .v k =>
      if s.mode = .outside ∨ s.mode = .idle then (s.sems k).map (s.doV k) else none
    | .finish => if s.mode = .outside then some s.finish else none
    | .findNext => if s.mode = .inSleep ∨ s.mode = .idle then some s.findNext else none

end SchedState

end Nachos.Model
