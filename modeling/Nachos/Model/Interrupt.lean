import Nachos.Model.LinkedList

/-!
# class `Interrupt` (machine/interrupt.h, machine/interrupt.cc)

Simulated time and the interrupts that the devices have scheduled. `pending` is a `List` sorted by
time, kept with `SortedInsert` and `SortedRemove`. Its elements are in a heap of their own: what other lists
do is not noticed by it.

A command stops where the simulator does: an `ASSERT` fails, a bad pointer is followed, a sum
is not an `int`, or `Idle` finds nothing to wait for and calls `Halt`. A sum in which the clock takes part is told
apart from the others. `endless` is the end of the rounds that a loop is given.

What the handler of a device does is not fixed: it may schedule interrupts, ask for a yield and do
`V`s, in any order, and something else each time. `DelayedLoad(0, 0)`, which is called on the machine before a
handler runs, is in `Nachos.Model.Simulator`.

`OneTick` is left where it calls `Yield`. The other threads then make calls of their own, and the
`status = old` behind it is a `setStatus`.
-/

set_option autoImplicit false

namespace Nachos.Model

/-- enum `IntStatus` (interrupt.h:42). -/
inductive IntStatus where
  | intOff
  | intOn
deriving DecidableEq, Repr

/-- enum `MachineStatus` (interrupt.h:47). -/
inductive MachineStatus where
  | idleMode
  | systemMode
  | userMode
deriving DecidableEq, Repr

/-- enum `IntType` (interrupt.h:52-53). -/
inductive IntType where
  | timerInt
  | diskInt
  | consoleWriteInt
  | consoleReadInt
  | networkSendInt
  | networkRecvInt
deriving DecidableEq, Repr

/-- class `PendingInterrupt` (interrupt.h:59-70). `serial` tells it from the others: it is the
number of interrupts scheduled before. -/
structure PendingInterrupt where
  handler : ℕ
  arg : ℤ
  when : ℤ
  type : IntType
  serial : ℕ
deriving DecidableEq, Repr

/-- The times of class `Statistics` (stats.h:24-27). -/
structure Statistics where
  totalTicks : ℤ
  idleTicks : ℤ
  systemTicks : ℤ
  userTicks : ℤ
deriving DecidableEq, Repr

/-- `UserTick` (stats.h:52). -/
def userTick : ℤ := 1

/-- `SystemTick` (stats.h:53). -/
def systemTick : ℤ := 10

/-- class `Interrupt` (interrupt.h:77-131), with the statistics. `scheduled` is the number of interrupts scheduled so
far; `fired` are those whose handlers were called, each with the time that was. -/
structure Interrupt where
  level : IntStatus
  pending : LinkedList
  inHandler : Bool
  yieldOnReturn : Bool
  status : MachineStatus
  stats : Statistics
  heap : ListHeap PendingInterrupt
  scheduled : ℕ
  fired : List (PendingInterrupt × ℤ)

/-- How the simulator stops. -/
inductive InterruptStop where
  | assertion
  | badPointer
  | clock
  | overflow
  | halt
  | endless
deriving DecidableEq, Repr

/-- What a handler may do. -/
inductive HandlerAction where
  | schedule (handler : ℕ) (arg fromNow : ℤ) (type : IntType)
  | yieldOnReturn
  | v
deriving DecidableEq, Repr

/-- What the `n`-th handler that is called does. -/
abbrev Handlers : Type := ℕ → PendingInterrupt → List HandlerAction

abbrev InterruptCmd (α : Type) : Type := EStateM InterruptStop Interrupt α

namespace Interrupt

/-- `Interrupt::Interrupt` (interrupt.cc:60-67) and `Statistics::Statistics`. -/
def new (heap : ListHeap PendingInterrupt) : Interrupt where
  level := .intOff
  pending := LinkedList.new
  inHandler := false
  yieldOnReturn := false
  status := .systemMode
  stats := ⟨0, 0, 0, 0⟩
  heap := heap
  scheduled := 0
  fired := []

/-- `a + b` as an `int`. -/
def plus (stop : InterruptStop) (a b : ℤ) : InterruptCmd ℤ :=
  if -2147483648 ≤ a + b ∧ a + b ≤ 2147483647 then pure (a + b) else throw stop

/-- `ASSERT(condition)`. -/
def assert (condition : Bool) : InterruptCmd Unit :=
  if condition then pure () else throw .assertion

/-- `pending->SortedInsert(toOccur, when)`. -/
def sortedInsert (A : Allocator) (toOccur : PendingInterrupt) (when : ℤ) : InterruptCmd Unit := do
  let s ← get
  match s.pending.sortedInsert A s.heap toOccur when with
  | some (pending, heap) => set { s with pending := pending, heap := heap }
  | none => throw .badPointer

/-- `pending->SortedRemove(&when)`. -/
def sortedRemove : InterruptCmd (Option (PendingInterrupt × ℤ)) := do
  let s ← get
  match s.pending.sortedRemove s.heap with
  | some (r, pending, heap) =>
    set { s with pending := pending, heap := heap }
    return r
  | none => throw .badPointer

/-- `Interrupt::ChangeLevel` (interrupt.cc:97-101). -/
def changeLevel (now : IntStatus) : InterruptCmd Unit := modify fun s => { s with level := now }

/-- `Interrupt::Schedule` (interrupt.cc:265-275). -/
def schedule (A : Allocator) (handler : ℕ) (arg fromNow : ℤ) (type : IntType) : InterruptCmd Unit := do
  let s ← get
  let when ← plus .clock s.stats.totalTicks fromNow
  let toOccur : PendingInterrupt := ⟨handler, arg, when, type, s.scheduled⟩
  assert (0 < fromNow)
  sortedInsert A toOccur when
  modify fun s => { s with scheduled := s.scheduled + 1 }

/-- `Interrupt::YieldOnReturn` (interrupt.cc:193-197). -/
def setYieldOnReturn : InterruptCmd Unit := do
  let s ← get
  assert s.inHandler
  set { s with yieldOnReturn := true }

/-- `Interrupt::SetLevel` up to its call of `OneTick` (interrupt.cc:115-123). -/
def switchLevel (now : IntStatus) : InterruptCmd IntStatus := do
  let s ← get
  let old := s.level
  assert (now = .intOff || !s.inHandler)
  changeLevel now
  return old

/-- What one action of a handler does to the interrupts. In a handler `SetLevel(IntOn)` fails before it could get to
`OneTick`, so the two `SetLevel`s of `Semaphore::V` (synch.cc:88-98) are `switchLevel`s. -/
def act (A : Allocator) : HandlerAction → InterruptCmd Unit
  | .schedule handler arg fromNow type => schedule A handler arg fromNow type
  | .yieldOnReturn => setYieldOnReturn
  | .v => do
    let oldLevel ← switchLevel .intOff
    let _ ← switchLevel oldLevel

/-- The end of `CheckIfDue` (interrupt.cc:314-336), for the interrupt that was taken off the list. -/
def invoke (A : Allocator) (H : Handlers) (old : MachineStatus) (toOccur : PendingInterrupt)
    (when : ℤ) : InterruptCmd Bool := do
  let s ← get
  if s.status = .idleMode ∧ toOccur.type = .timerInt ∧ s.pending.isEmpty = true then
    sortedInsert A toOccur when
    return false
  else
    set { s with
      inHandler := true
      status := .systemMode
      fired := s.fired ++ [(toOccur, s.stats.totalTicks)] }
    (H s.fired.length toOccur).forM (act A)
    modify fun s => { s with status := old, inHandler := false }
    return true

/-- `Interrupt::CheckIfDue` (interrupt.cc:291-336). -/
def checkIfDue (A : Allocator) (H : Handlers) (advanceClock : Bool) : InterruptCmd Bool := do
  let s ← get
  let old := s.status
  assert (s.level = .intOff)
  let r ← sortedRemove
  match r with
  | none => return false
  | some (toOccur, when) =>
    let s ← get
    if advanceClock = true ∧ s.stats.totalTicks < when then
      let idleTicks ← plus .overflow s.stats.idleTicks (when - s.stats.totalTicks)
      modify fun s => { s with stats := { s.stats with idleTicks := idleTicks, totalTicks := when } }
      invoke A H old toOccur when
    else if s.stats.totalTicks < when then
      sortedInsert A toOccur when
      return false
    else
      invoke A H old toOccur when

/-- `while (CheckIfDue(FALSE))`, with `n` rounds allowed. -/
def whileDue (A : Allocator) (H : Handlers) : ℕ → InterruptCmd Unit
  | 0 => throw .endless
  | n + 1 => do
    let again ← checkIfDue A H false
    if again = true then whileDue A H n

/-- `stats->totalTicks += tick`, and the same for the time of the mode (interrupt.cc:156-162). -/
def advanceTime : InterruptCmd Unit := do
  let s ← get
  if s.status = .systemMode then
    let totalTicks ← plus .clock s.stats.totalTicks systemTick
    let systemTicks ← plus .overflow s.stats.systemTicks systemTick
    set { s with stats := { s.stats with totalTicks := totalTicks, systemTicks := systemTicks } }
  else
    let totalTicks ← plus .clock s.stats.totalTicks userTick
    let userTicks ← plus .overflow s.stats.userTicks userTick
    set { s with stats := { s.stats with totalTicks := totalTicks, userTicks := userTicks } }

/-- `Interrupt::OneTick` (interrupt.cc:151-179) up to its call of `Yield`. The loop has a round for every
element there is and one more. -/
def oneTick (A : Allocator) (H : Handlers) : InterruptCmd Unit := do
  advanceTime
  changeLevel .intOff
  let s ← get
  whileDue A H (s.heap.live.length + 1)
  changeLevel .intOn
  let s ← get
  if s.yieldOnReturn = true then
    set { s with yieldOnReturn := false, status := .systemMode }

/-- `Interrupt::Idle` (interrupt.cc:211-234). -/
def idle (A : Allocator) (H : Handlers) : InterruptCmd Unit := do
  modify fun s => { s with status := .idleMode }
  let found ← checkIfDue A H true
  if found = true then
    let s ← get
    whileDue A H (s.heap.live.length + 1)
    modify fun s => { s with yieldOnReturn := false, status := .systemMode }
  else
    throw .halt

/-- `Interrupt::SetLevel` (interrupt.cc:115-127). -/
def setLevel (A : Allocator) (H : Handlers) (now : IntStatus) : InterruptCmd Unit := do
  let old ← switchLevel now
  if now = .intOn ∧ old = .intOff then oneTick A H

end Interrupt

/-- A call from outside of the handlers. -/
inductive InterruptCall where
  | schedule (handler : ℕ) (arg fromNow : ℤ) (type : IntType)
  | oneTick
  | idle
  | setLevel (now : IntStatus)
  | setStatus (status : MachineStatus)
deriving DecidableEq, Repr

/-- One call. -/
def Interrupt.call (A : Allocator) (H : Handlers) : InterruptCall → InterruptCmd Unit
  | .schedule handler arg fromNow type => Interrupt.schedule A handler arg fromNow type
  | .oneTick => Interrupt.oneTick A H
  | .idle => Interrupt.idle A H
  | .setLevel now => Interrupt.setLevel A H now
  | .setStatus status => modify fun s => { s with status := status }

end Nachos.Model
