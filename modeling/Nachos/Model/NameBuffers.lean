import Nachos.Model.SemaphoreTable

/-!
# The buffers behind the names of the semaphore table

`Semaphore::Semaphore` keeps the pointer it is given (synch.cc:38), and the three semaphore
system calls give it the buffer `User2System` has allocated and free that buffer before
they return (userprog/exception.cc:404-486). `strcmp` then reads whatever the memory at that
address holds. Here a buffer is an address with a current content; which address the
allocator returns, and what freed memory comes to hold, are part of the event.

Each of the three calls also allocates a block of 256 bytes whose pointer the next line
overwrites. It is never freed.
-/

set_option autoImplicit false

namespace Nachos.Model

/-- The kernel heap as far as names live in it: which blocks are allocated, and the string
each address holds. -/
structure NameHeap where
  allocated : ℕ → Bool
  contents : ℕ → String

namespace NameHeap

/-- `new char[..]` returning the block `p`. -/
def alloc (h : NameHeap) (p : ℕ) : Option NameHeap :=
  if h.allocated p then none else some { h with allocated := Function.update h.allocated p true }

/-- `delete[]` of the block `p`. -/
def free (h : NameHeap) (p : ℕ) : NameHeap :=
  { h with allocated := Function.update h.allocated p false }

/-- Store a string at `p`. -/
def store (h : NameHeap) (p : ℕ) (str : String) : NameHeap :=
  { h with contents := Function.update h.contents p str }

/-- The reading of the argument in the three calls (exception.cc:407-408): `new char[256]`
returns `leaked`, and then `User2System` allocates `buf` and copies `name` into it. -/
def readName (h : NameHeap) (leaked buf : ℕ) (name : String) : Option NameHeap := do
  let h ← h.alloc leaked
  let h ← h.alloc buf
  return h.store buf name

end NameHeap

/-- The semaphore table over the heap. `nameBuf i` is the pointer the semaphore in slot `i`
keeps as its name; the field `name` of that semaphore is the string the pointer led to when
the semaphore was created, and is read by no step. `calls t` is the slot and the name buffer
of the `Wait` thread `t` is inside of, and `ready` the threads woken there. -/
structure NameTabState where
  heap : NameHeap
  table : STable
  nameBuf : ℕ → ℕ
  calls : ThreadId → Option (ℕ × ℕ)
  ready : List ThreadId

/-- The system calls, with the two blocks the allocator returns; the dispatch of a thread
woken inside `Wait`; and a change of memory that is not allocated. -/
inductive NameTabEvent where
  | createSemaphore (t : ThreadId) (name : String) (semval : BitVec 32) (leaked buf : ℕ)
  | wait (t : ThreadId) (name : String) (leaked buf : ℕ)
  | signal (t : ThreadId) (name : String) (leaked buf : ℕ)
  | resume (t : ThreadId)
  | overwrite (p : ℕ) (str : String)

namespace NameTabState

/-- An empty table over any heap; `words` is what the memory of the bitmap held. -/
def init (heap : NameHeap) (words : ℕ → BitVec 32) : Option NameTabState := do
  let table ← STable.new words
  return ⟨heap, table, fun _ => 0, fun _ => none, []⟩

/-- Slot `i` is occupied and `strcmp` finds `name` at its pointer (stable.cc:17, 30, 39). -/
def named (s : NameTabState) (name : String) (i : ℕ) : Bool :=
  (s.table.lockTab i).isSome && s.heap.contents (s.nameBuf i) == name

/-- The loop of the three operations. -/
def lookup (s : NameTabState) (name : String) : Option ℕ :=
  (List.range maxSemaphore).find? (s.named name)

/-- Put the name buffer of a call back and let the call return. -/
def freeName (s : NameTabState) (buf : ℕ) : NameTabState := { s with heap := s.heap.free buf }

/-- `STable::Create` (stable.cc:15-26) with the name in `buf`. -/
def create (s : NameTabState) (buf : ℕ) (semval : BitVec 32) : Option NameTabState :=
  let name := s.heap.contents buf
  match s.lookup name with
  | some _ => some s
  | none => do
    let (i, bm) ← s.table.bm.find
    if i = -1 then
      return { s with table.bm := bm }
    else
      let bm ← bm.mark i
      return { s with
        table := { s.table with bm := bm }.setSlot i.toNat (Semaphore.new name semval)
        nameBuf := Function.update s.nameBuf i.toNat buf }

/-- Thread `t` tests the value of slot `i` in the `P` of its `Wait` with the name in `buf`
(stable.cc:31-32); past it the call frees the buffer and returns. -/
def testWait (s : NameTabState) (t : ThreadId) (i buf : ℕ) : Option NameTabState :=
  match s.table.lockTab i with
  | none => none
  | some sem =>
    match sem.p t with
    | (sem, true) => some ({ s with
        table := s.table.setSlot i sem
        calls := Function.update s.calls t none }.freeName buf)
    | (sem, false) => some { s with
        table := s.table.setSlot i sem
        calls := Function.update s.calls t (some (i, buf)) }

/-- `lockTab[i]->V()` by `Signal` (stable.cc:40-41). -/
def doSignal (s : NameTabState) (i : ℕ) : Option NameTabState :=
  match s.table.lockTab i with
  | none => none
  | some sem => some { s with
      table := s.table.setSlot i sem.v.1
      ready := s.ready ++ sem.v.2.toList }

/-- The state in which `STable` is called: the name has been read. -/
def entered (s : NameTabState) (leaked buf : ℕ) (name : String) : Option NameTabState :=
  (s.heap.readName leaked buf name).map fun heap => { s with heap := heap }

/-- One step. A thread inside `Wait` makes no other call. -/
def step (s : NameTabState) : NameTabEvent → Option NameTabState
  | .createSemaphore t name semval leaked buf =>
    if (s.calls t).isSome then none
    else do
      let s ← s.entered leaked buf name
      let s ← s.create buf semval
      return s.freeName buf
  | .wait t name leaked buf =>
    if (s.calls t).isSome then none
    else do
      let s ← s.entered leaked buf name
      match s.lookup name with
      | none => return s.freeName buf
      | some i => s.testWait t i buf
  | .signal t name leaked buf =>
    if (s.calls t).isSome then none
    else do
      let s ← s.entered leaked buf name
      match s.lookup name with
      | none => return s.freeName buf
      | some i => do
        let s ← s.doSignal i
        return s.freeName buf
  | .resume t =>
    if s.ready.contains t then
      match s.calls t with
      | none => none
      | some (i, buf) => { s with ready := s.ready.erase t }.testWait t i buf
    else none
  | .overwrite p str =>
    if s.heap.allocated p then none else some { s with heap := s.heap.store p str }

end NameTabState

end Nachos.Model
