import Nachos.Model.BitMap
import Nachos.Model.Semaphore

/-!
# `STable` (threads/stable.cc) and the semaphore system calls

The table of the semaphores user programs create by name. `create`, `wait` and
`signal` follow `STable::Create`, `STable::Wait` and `STable::Signal`; the system
calls of userprog/exception.cc:404-486 pass the name and return what these return.
Names are values here, compared as `strcmp` does. The handler of `SC_CreateSemaphore` deletes
the buffer its semaphore's name still points to (exception.cc:407-433), so this is the table as
long as the freed bytes stay as they are; `NameBuffers` models the buffers themselves.

A `Wait` may sleep inside `lockTab[i]->P()`. The slot it waits on and the name it was
called with are then locals of the sleeping thread, kept in `calls`.
-/

set_option autoImplicit false

namespace Nachos.Model

/-- `MAX_SEMAPHORE` (stable.h:5). -/
def maxSemaphore : ℕ := 10

/-- class `STable` (stable.h:7-17). -/
structure STable where
  bm : BitMap
  lockTab : ℕ → Option Semaphore

namespace STable

/-- `STable::STable` (stable.cc:3-7); `words` is what the memory of the bitmap held. -/
def new (words : ℕ → BitVec 32) : Option STable := do
  let bm ← BitMap.new maxSemaphore words
  return ⟨bm, fun _ => none⟩

/-- Slot `i` is occupied by a semaphore called `name` (stable.cc:17, 30, 39). -/
def named (tab : STable) (name : String) (i : ℕ) : Bool :=
  match tab.lockTab i with
  | some sem => sem.name == name
  | none => false

/-- Store a semaphore in slot `i`. -/
def setSlot (tab : STable) (i : ℕ) (sem : Semaphore) : STable :=
  { tab with lockTab := Function.update tab.lockTab i (some sem) }

/-- The first slot occupied under `name`: the loop of the three operations. -/
def lookup (tab : STable) (name : String) : Option ℕ :=
  (List.range maxSemaphore).find? (tab.named name)

/-- `STable::Create` (stable.cc:15-26): the slot taken, or `-1`. -/
def create (tab : STable) (name : String) (semval : BitVec 32) : Option (ℤ × STable) :=
  match tab.lookup name with
  | some _ => some (-1, tab)
  | none => do
    let (i, bm) ← tab.bm.find
    if i = -1 then
      return (-1, { tab with bm := bm })
    else
      let bm ← bm.mark i
      return (i, { tab with bm := bm }.setSlot i.toNat (Semaphore.new name semval))

end STable

/-- The table with the threads that use it. `calls t` is the slot and the name of the
`Wait` thread `t` is inside of; `ready` holds the threads a `Signal` has woken that have
not tested the value again; `waited` and `signalled` count, by name, the calls that have
returned `0` and are read by no step. -/
structure SemTabState where
  table : STable
  calls : ThreadId → Option (ℕ × String)
  ready : List ThreadId
  waited : String → ℕ
  signalled : String → ℕ

/-- The system calls, and the dispatch of a thread woken inside `Wait`. -/
inductive SemTabEvent where
  | createSemaphore (t : ThreadId) (name : String) (semval : BitVec 32)
  | wait (t : ThreadId) (name : String)
  | signal (t : ThreadId) (name : String)
  | resume (t : ThreadId)

namespace SemTabState

/-- An empty table nobody has used. -/
def init (words : ℕ → BitVec 32) : Option SemTabState := do
  let table ← STable.new words
  return ⟨table, fun _ => none, [], fun _ => 0, fun _ => 0⟩

/-- Replace the semaphore in slot `i`. -/
def setSem (s : SemTabState) (i : ℕ) (sem : Semaphore) : SemTabState :=
  { s with table := s.table.setSlot i sem }

/-- Thread `t` tests the value of slot `i` in the `P` of its `Wait(name)` (stable.cc:31-32);
an empty slot would be a null dereference. -/
def testWait (s : SemTabState) (t : ThreadId) (i : ℕ) (name : String) : Option SemTabState :=
  match s.table.lockTab i with
  | none => none
  | some sem =>
    match sem.p t with
    | (sem, true) => some { s.setSem i sem with
        calls := Function.update s.calls t none
        waited := Function.update s.waited name (s.waited name + 1) }
    | (sem, false) => some { s.setSem i sem with
        calls := Function.update s.calls t (some (i, name)) }

/-- `lockTab[i]->V()` by `Signal(name)` (stable.cc:40-41). -/
def doSignal (s : SemTabState) (i : ℕ) (name : String) : Option SemTabState :=
  match s.table.lockTab i with
  | none => none
  | some sem =>
    let (sem, woken) := sem.v
    some { s.setSem i sem with
      ready := s.ready ++ woken.toList
      signalled := Function.update s.signalled name (s.signalled name + 1) }

/-- One step. A thread inside `Wait` makes no other call; a call that finds no semaphore
returns `-1` and changes nothing. -/
def step (s : SemTabState) : SemTabEvent → Option SemTabState
  | .createSemaphore t name semval =>
    if (s.calls t).isSome then none
    else (s.table.create name semval).map fun r => { s with table := r.2 }
  | .wait t name =>
    if (s.calls t).isSome then none
    else match s.table.lookup name with
      | none => some s
      | some i => s.testWait t i name
  | .signal t name =>
    if (s.calls t).isSome then none
    else match s.table.lookup name with
      | none => some s
      | some i => s.doSignal i name
  | .resume t =>
    if s.ready.contains t then
      match s.calls t with
      | none => none
      | some (i, name) => { s with ready := s.ready.erase t }.testWait t i name
    else none

end SemTabState

end Nachos.Model
