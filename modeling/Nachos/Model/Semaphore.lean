import Mathlib.Data.BitVec

/-!
# `Semaphore` (threads/synch.cc) and the threads that use one

`p` and `v` run with interrupts off, so each is one atomic step; what is not atomic
is a `P` that finds `value == 0`. Such a thread appends itself to `queue` and sleeps,
a later `V` moves it to the ready list, and when the scheduler dispatches it again it
goes back to the loop test, where another thread may have been faster.

`value` is an `int`: 32 bits, and `value++` wraps.
-/

set_option autoImplicit false

namespace Nachos.Model

/-- A thread, named by the address of its control block. -/
abbrev ThreadId : Type := ℕ

/-- class `Semaphore` (synch.h:40-52). -/
structure Semaphore where
  name : String
  value : BitVec 32
  queue : List ThreadId
deriving DecidableEq, Repr

namespace Semaphore

/-- `Semaphore::Semaphore` (synch.cc:36-41). -/
def new (debugName : String) (initialValue : BitVec 32) : Semaphore :=
  ⟨debugName, initialValue, []⟩

/-- One test of the loop of `Semaphore::P` by thread `t` (synch.cc:69-73), and whether
`P` is over: with `value == 0` the thread joins the queue and goes to sleep. -/
def p (s : Semaphore) (t : ThreadId) : Semaphore × Bool :=
  if s.value = 0#32 then ({ s with queue := s.queue ++ [t] }, false)
  else ({ s with value := s.value - 1#32 }, true)

/-- `Semaphore::V` (synch.cc:87-98), and the thread it hands to `ReadyToRun`, if one
was waiting. -/
def v (s : Semaphore) : Semaphore × Option ThreadId :=
  match s.queue with
  | [] => ({ s with value := s.value + 1#32 }, none)
  | t :: rest => ({ s with queue := rest, value := s.value + 1#32 }, some t)

end Semaphore

/-- One semaphore with its callers. `ready` holds the threads a `V` has taken off the
queue that have not tested `value` again; `completedP` and `completedV` count the
calls that have returned and are read by no step. -/
structure SemState where
  sem : Semaphore
  ready : List ThreadId
  completedP : ℕ
  completedV : ℕ
deriving DecidableEq, Repr

/-- What can happen next: a thread calls `P`, a woken thread is dispatched and tests
again, or a `V` is called by a thread or (`none`) by an interrupt handler. -/
inductive SemEvent where
  | callP (t : ThreadId)
  | resume (t : ThreadId)
  | callV (caller : Option ThreadId)
deriving DecidableEq, Repr

namespace SemState

/-- A semaphore just created, used by nobody yet. -/
def init (debugName : String) (initialValue : BitVec 32) : SemState :=
  ⟨Semaphore.new debugName initialValue, [], 0, 0⟩

/-- Thread `t` is inside `P`: asleep in the queue, or woken and not yet dispatched. -/
def inP (s : SemState) (t : ThreadId) : Bool := s.sem.queue.contains t || s.ready.contains t

/-- Thread `t` executes the loop test of `P`. -/
def testP (s : SemState) (t : ThreadId) : SemState :=
  match s.sem.p t with
  | (sem, true) => { s with sem := sem, completedP := s.completedP + 1 }
  | (sem, false) => { s with sem := sem }

/-- A `V` by anybody. -/
def doV (s : SemState) : SemState :=
  match s.sem.v with
  | (sem, none) => { s with sem := sem, completedV := s.completedV + 1 }
  | (sem, some t) =>
    { s with sem := sem, ready := s.ready ++ [t], completedV := s.completedV + 1 }

/-- One step; a thread inside `P` can do nothing but wait for its turn. -/
def step (s : SemState) : SemEvent → Option SemState
  | .callP t => if s.inP t then none else some (s.testP t)
  | .resume t =>
    if s.ready.contains t then some ({ s with ready := s.ready.erase t }.testP t) else none
  | .callV none => some s.doV
  | .callV (some t) => if s.inP t then none else some s.doV

end SemState

end Nachos.Model
