import Mathlib.Data.Int.Notation
import Nachos.Model.BitMap
import Nachos.Model.Semaphore

/-!
# The process table (threads/ptable.cc, threads/pcb.cc)

`PTable` keeps one `PCB` per process in an array of `MAXPROCESS` pointers and a bitmap
of the slots in use. The three system calls work on it: `ExecUpdate` makes a slot and a
thread, `JoinUpdate` waits for a child, `ExitUpdate` tells the parent and waits to be
joined. None of them is handed the caller: each finds it by searching the table for the
current thread's name.

A kernel thread loses the processor only where interrupts are switched on again, which
is at the end of `Semaphore::P`, of `Semaphore::V` and of `Thread::Fork`, or where it
goes to sleep. `Pc` lists these places inside the three calls, and one step of a thread
runs the code from one of them to the next. Between calls the thread is in its user
program (`user`) and calls whatever it likes.

Pointers are numbers: the `n`-th `PCB` and the thread that its `PCB::Exec` makes both
have number `n`, and the boot process is number `0`. `heap` says which `PCB`s have not
been deleted. Following a pointer that is `NULL`, outside the array or deleted ends the
run in the status `crashed`.
-/

set_option autoImplicit false

namespace Nachos.Model

/-- `MAXPROCESS` (ptable.h:7). -/
def maxProcess : ℕ := 10

/-! ## Process control blocks and threads -/

/-- class `PCB` (pcb.h:5-31). -/
structure PCB where
  joinsem : Semaphore
  exitsem : Semaphore
  mutex : Semaphore
  exitcode : ℤ
  thread : Option ThreadId
  pid : ℤ
  numwait : ℤ
  parentID : ℤ

/-- The three semaphores of a `PCB`. -/
inductive PCBSem where
  | joinsem
  | exitsem
  | mutex
deriving DecidableEq, Repr

namespace PCB

/-- `PCB::PCB` (pcb.cc:4-16), called by thread `current`. The constructor sets `pid` only
for the boot process; otherwise it keeps what the memory held, `garbage`. -/
def new (id : ℤ) (current : ThreadId) (garbage : ℤ) : PCB where
  joinsem := Semaphore.new "join" 0#32
  exitsem := Semaphore.new "exit" 0#32
  mutex := Semaphore.new "mutex" 1#32
  exitcode := 0
  thread := if id = -1 then some current else none
  pid := if id = -1 then 0 else garbage
  numwait := 0
  parentID := id

def sem (c : PCB) : PCBSem → Semaphore
  | .joinsem => c.joinsem
  | .exitsem => c.exitsem
  | .mutex => c.mutex

def setSem (c : PCB) (x : PCBSem) (s : Semaphore) : PCB :=
  match x with
  | .joinsem => { c with joinsem := s }
  | .exitsem => { c with exitsem := s }
  | .mutex => { c with mutex := s }

end PCB

/-- Where a thread is. `execP`, `execMutex`, `joinP` and `exitP` are the places where it
waits in a `P`; it tests the semaphore again when it gets the processor.

`child` in `joinP` and `joinRead` is the `PCB` that was in slot `id` when the call checked
it; no step reads it. -/
inductive Pc where
  /-- in the user program -/
  | user
  /-- `bmsem->P()` (ptable.cc:21) -/
  | execP (name : Option String) (opens : Bool)
  /-- `bmsem->P()` is over -/
  | execScan (name : Option String) (opens : Bool)
  /-- `mutex->P()` of the new `PCB` (pcb.cc:41) -/
  | execMutex (name : String) (pid ptr : ℕ)
  /-- `mutex->P()` is over -/
  | execFork (name : String) (pid ptr : ℕ)
  /-- `thread->Fork` is over, `this->pid` is not yet set (pcb.cc:54-56) -/
  | execStore (pid ptr : ℕ)
  /-- `mutex->V()` of a failed `PCB::Exec` is over (pcb.cc:43) -/
  | execFail (pid : ℕ)
  /-- `mutex->V()` is over (pcb.cc:57) -/
  | execRelease (pid : ℕ)
  /-- `bmsem->V()` is over; the call returns `result` -/
  | execReturn (result : ℤ)
  /-- `joinsem->P()` of `pcb[currentID]`, which is `ptr` (ptable.cc:98) -/
  | joinP (id currentID : ℤ) (ptr child : ℕ)
  /-- `joinsem->P()` is over -/
  | joinRead (id currentID : ℤ) (child : ℕ)
  /-- `exitsem->V()` is over; the call returns `result` (ptable.cc:101) -/
  | joinReturn (result : ℤ)
  /-- `joinsem->V()` is over, before `pcb[index]->ExitWait()` (ptable.cc:82) -/
  | exitWait (index : ℕ) (pid : ℤ)
  /-- `exitsem->P()` of `ptr` -/
  | exitP (pid : ℤ) (ptr : ℕ)
  /-- `exitsem->P()` is over -/
  | exitRemove (pid : ℤ)
  /-- after `Thread::Finish`; the object is deleted -/
  | finished
deriving DecidableEq, Repr

/-- class `Thread`, as far as the process table sees it: its name, which is the name of its
program, and where it is. -/
structure Thread where
  name : String
  pc : Pc
deriving DecidableEq, Repr

/-! ## The table -/

/-- What the three calls read and write: the array `pcb` and the bitmap `bm` of `PTable`,
the `PCB`s and the threads. `next` is the number of the next `PCB`.

Two fields record history and are read by no step: `creator p` is the thread whose `Exec`
made process `p`, and `exited p` the code with which `p` has called `Exit`. -/
structure ProcTable where
  pcb : ℕ → Option ℕ
  heap : ℕ → Option PCB
  bm : BitMap
  threads : ThreadId → Option Thread
  next : ℕ
  creator : ThreadId → ThreadId
  exited : ThreadId → Option ℤ

namespace ProcTable

/-- `pcb[i]`; reading outside the array is no better than `NULL`. -/
def pcbAt (s : ProcTable) (i : ℤ) : Option ℕ :=
  if 0 ≤ i ∧ i < maxProcess then s.pcb i.toNat else none

/-- `pcb[i]->…`: the `PCB` in slot `i`, `none` if there is no pointer to follow. -/
def deref (s : ProcTable) (i : ℤ) : Option PCB := (s.pcbAt i).bind s.heap

/-- `PCB::GetFileName` (pcb.cc:81): the name of the thread object. -/
def getFileName (s : ProcTable) (ptr : ℕ) : Option String := do
  let c ← s.heap ptr
  let t ← c.thread
  let thr ← s.threads t
  if thr.pc = .finished then none else some thr.name

/-- The search loop of the three calls (ptable.cc:47, 70, 92) from slot `i`, with `n` slots
left: the last slot whose program has the given name. -/
def scanFrom (s : ProcTable) (name : String) : ℕ → ℕ → Option ℕ → Option (Option ℕ)
  | _, 0, index => some index
  | i, n + 1, index =>
    match s.pcb i with
    | none => scanFrom s name (i + 1) n index
    | some ptr => do
      let file ← s.getFileName ptr
      scanFrom s name (i + 1) n (if name = file then some i else index)

/-- The whole search; `none` if it follows a bad pointer, `some none` for `index == -1`. -/
def scan (s : ProcTable) (name : String) : Option (Option ℕ) := s.scanFrom name 0 maxProcess none

/-- `currentID` after the search: `pcb[index]->GetID()`, or `-1`. -/
def currentID (s : ProcTable) (index : Option ℕ) : ℤ :=
  match index with
  | none => -1
  | some i =>
    match s.deref i with
    | none => -1
    | some c => c.pid

def setPcb (s : ProcTable) (ptr : ℕ) (c : PCB) : ProcTable :=
  { s with heap := Function.update s.heap ptr (some c) }

def setPc (s : ProcTable) (t : ThreadId) (pc : Pc) : ProcTable :=
  { s with threads := Function.update s.threads t ((s.threads t).map fun thr => { thr with pc := pc }) }

/-- `pcb[pid] = new PCB(currentID)` by thread `t` (ptable.cc:54); `bm` is the bitmap after
`bm->Mark(pid)`. -/
def publish (s : ProcTable) (t : ThreadId) (pid : ℕ) (currentID garbage : ℤ) (bm : BitMap) :
    ProcTable where
  pcb := Function.update s.pcb pid (some s.next)
  heap := Function.update s.heap s.next (some (PCB.new currentID t garbage))
  bm := bm
  threads := s.threads
  next := s.next + 1
  creator := Function.update s.creator s.next t
  exited := s.exited

/-- `thread = new Thread(filename)` and `thread->Fork(StartProcess_2, …)` in the `PCB` `ptr`
(pcb.cc:47-54). -/
def fork (s : ProcTable) (name : String) (ptr : ℕ) (c : PCB) : ProcTable :=
  { s with
    heap := Function.update s.heap ptr (some { c with thread := some ptr })
    threads := Function.update s.threads ptr (some ⟨name, .user⟩) }

/-- `PTable::Remove` (ptable.cc:115-121). `PCB::~PCB` looks into the thread object for the
address space to delete. -/
def remove (s : ProcTable) (pid : ℤ) : Option ProcTable :=
  match s.pcbAt pid with
  | none => some s
  | some ptr => do
    let _ ← s.getFileName ptr
    let bm ← s.bm.clear pid
    pure { s with
      heap := Function.update s.heap ptr none
      pcb := Function.update s.pcb pid.toNat none
      bm := bm }

end ProcTable

/-! ## The three system calls -/

/-- Whether the machine still runs. -/
inductive Status where
  | running
  | halted
  | crashed
deriving DecidableEq, Repr

/-- The table with its semaphore `bmsem`, and the threads that are asleep in some `P`. -/
structure ProcState extends ProcTable where
  bmsem : Semaphore
  asleep : ThreadId → Bool
  status : Status

namespace ProcState

def onTable (s : ProcState) (f : ProcTable → ProcTable) : ProcState :=
  { s with toProcTable := f s.toProcTable }

/-- Thread `t` goes on at `pc`. -/
def goto (s : ProcState) (t : ThreadId) (pc : Pc) : ProcState := s.onTable (·.setPc t pc)

/-- Thread `t` goes to sleep at `pc`. -/
def sleepAt (s : ProcState) (t : ThreadId) (pc : Pc) : ProcState :=
  { s.goto t pc with asleep := Function.update s.asleep t true }

/-- `scheduler->ReadyToRun` for the thread that a `V` took off the queue, if any. -/
def wake (s : ProcState) (woken : Option ThreadId) : ProcState :=
  match woken with
  | none => s
  | some u => { s with asleep := Function.update s.asleep u false }

/-- A bad pointer was followed. -/
def crash (s : ProcState) : ProcState := { s with status := .crashed }

/-- One test of `P` on semaphore `x` of the `PCB` `ptr` by thread `t`, which goes on at
`passed` or waits at `waiting`. -/
def pTest (s : ProcState) (t : ThreadId) (ptr : ℕ) (x : PCBSem) (passed waiting : Pc) :
    Option ProcState := do
  let c ← s.heap ptr
  let r := (c.sem x).p t
  let s₁ := s.onTable (·.setPcb ptr (c.setSem x r.1))
  pure (if r.2 then s₁.goto t passed else s₁.sleepAt t waiting)

/-- `V` on semaphore `x` of the `PCB` `ptr`. -/
def vCall (s : ProcState) (ptr : ℕ) (x : PCBSem) : Option ProcState := do
  let c ← s.heap ptr
  let r := (c.sem x).v
  pure ((s.onTable (·.setPcb ptr (c.setSem x r.1))).wake r.2)

/-- One test of `bmsem->P()`. -/
def bmsemTest (s : ProcState) (t : ThreadId) (name : Option String) (opens : Bool) : ProcState :=
  let r := s.bmsem.p t
  let s₁ := { s with bmsem := r.1 }
  if r.2 then s₁.goto t (.execScan name opens) else s₁.sleepAt t (.execP name opens)

/-- `bmsem->V()`, after which `ExecUpdate` returns `result`. -/
def bmsemV (s : ProcState) (t : ThreadId) (result : ℤ) : ProcState :=
  let r := s.bmsem.v
  ({ s with bmsem := r.1 }.wake r.2).goto t (.execReturn result)

/-- `PTable::ExecUpdate` from the end of `bmsem->P()` to the end of the new `PCB`'s
`mutex->P()` (ptable.cc:23-56, pcb.cc:40-41), with the outcome of its search. `self` is the name of
the current thread, `opens` whether `fileSystem->Open(name)` succeeds, `garbage` the uninitialised
`pid`. -/
def execScanWith (s : ProcState) (scan : Option (Option ℕ)) (t : ThreadId) (self : String)
    (name : Option String) (opens : Bool) (garbage : ℤ) : Option ProcState :=
  match name with
  | none => some (s.bmsemV t (-1))
  | some name =>
    if opens = false then some (s.bmsemV t (-1))
    -- only the direct caller's name is compared, not the names in the table
    else if self = name then some (s.bmsemV t (-1))
    else do
      let (pid, bm) ← s.bm.find
      if pid = -1 then pure (s.bmsemV t (-1))
      else
        let index ← scan
        let currentID := s.currentID index
        -- the bit that `Find` has marked stays marked
        if currentID = -1 then pure ((s.onTable fun r => { r with bm := bm }).bmsemV t (-1))
        else
          let bm' ← bm.mark pid
          (s.onTable (·.publish t pid.toNat currentID garbage bm')).pTest t s.next .mutex
            (.execFork name pid.toNat s.next) (.execMutex name pid.toNat s.next)

/-- The same with the search of the source. -/
def execScan (s : ProcState) (t : ThreadId) (self : String) (name : Option String) (opens : Bool)
    (garbage : ℤ) : Option ProcState :=
  s.execScanWith (s.scan self) t self name opens garbage

/-- `PCB::Exec` from the end of `mutex->P()` to the end of `Fork`, or to the end of the
`mutex->V()` of its failure (pcb.cc:42-54). -/
def execFork (s : ProcState) (t : ThreadId) (name : String) (pid ptr : ℕ) : Option ProcState := do
  let c ← s.heap ptr
  if c.thread.isSome then
    let s₁ ← s.vCall ptr .mutex
    pure (s₁.goto t (.execFail pid))
  else pure ((s.onTable (·.fork name ptr c)).goto t (.execStore pid ptr))

/-- `this->pid = pid; mutex->V()` (pcb.cc:56-57). -/
def execStore (s : ProcState) (t : ThreadId) (pid ptr : ℕ) : Option ProcState := do
  let c ← s.heap ptr
  let s₁ ← (s.onTable (·.setPcb ptr { c with pid := pid })).vCall ptr .mutex
  pure (s₁.goto t (.execRelease pid))

/-- `ExecUpdate` after a failed `PCB::Exec` (ptable.cc:57-61): the `PCB` is deleted and the
slot keeps the pointer. -/
def execFail (s : ProcState) (t : ThreadId) (pid : ℕ) : Option ProcState := do
  let bm ← s.bm.clear pid
  let ptr ← s.pcbAt pid
  let _ ← s.getFileName ptr
  pure ((s.onTable fun r => { r with bm := bm, heap := Function.update r.heap ptr none }).bmsemV t
    (-1))

/-- `PTable::JoinUpdate` up to the first test of `joinsem->P()` (ptable.cc:88-98), with the outcome of
its search. -/
def joinCallWith (s : ProcState) (scan : Option (Option ℕ)) (t : ThreadId) (id : ℤ) :
    Option ProcState :=
  if id < 0 ∨ id ≥ maxProcess then some s
  else do
    let index ← scan
    let currentID := s.currentID index
    match s.pcb id.toNat with
    | none => pure s
    | some child =>
      let c ← s.heap child
      if c.parentID ≠ currentID then pure s
      else
        let ptr ← s.pcbAt currentID
        let me ← s.heap ptr
        (s.onTable (·.setPcb ptr { me with numwait := me.numwait + 1 })).pTest t ptr .joinsem
          (.joinRead id currentID child) (.joinP id currentID ptr child)

/-- The same with the search of the source. -/
def joinCall (s : ProcState) (t : ThreadId) (self : String) (id : ℤ) : Option ProcState :=
  s.joinCallWith (s.scan self) t id

/-- `PTable::JoinUpdate` from the end of `joinsem->P()` to the end of `exitsem->V()`
(ptable.cc:99-101). -/
def joinRead (s : ProcState) (t : ThreadId) (id currentID : ℤ) : Option ProcState := do
  let c ← s.deref id
  let ec := c.exitcode
  let me ← s.pcbAt currentID
  let m ← s.heap me
  let s₁ := s.onTable (·.setPcb me { m with numwait := m.numwait - 1 })
  let ptr ← s₁.pcbAt id
  let s₂ ← s₁.vCall ptr .exitsem
  pure (s₂.goto t (.joinReturn ec))

/-- `PTable::ExitUpdate` up to the end of the parent's `joinsem->V()` (ptable.cc:68-81), with the
outcome of its search. -/
def exitCallWith (s : ProcState) (scan : Option (Option ℕ)) (t : ThreadId) (ec : ℤ) :
    Option ProcState := do
  match ← scan with
  | none => pure s
  | some index =>
    let ptr ← s.pcbAt index
    let c ← s.heap ptr
    if c.pid = 0 then pure { s with status := .halted }
    else
      let s₁ := s.onTable fun r =>
        { r.setPcb ptr { c with exitcode := ec } with exited := Function.update r.exited t (some ec) }
      let parent ← s₁.pcbAt c.parentID
      let s₂ ← s₁.vCall parent .joinsem
      pure (s₂.goto t (.exitWait index c.pid))

/-- The same with the search of the source. -/
def exitCall (s : ProcState) (t : ThreadId) (self : String) (ec : ℤ) : Option ProcState :=
  s.exitCallWith (s.scan self) t ec

/-- `pcb[index]->ExitWait()` (ptable.cc:82). -/
def exitWait (s : ProcState) (t : ThreadId) (index : ℕ) (pid : ℤ) : Option ProcState := do
  let ptr ← s.pcbAt index
  s.pTest t ptr .exitsem (.exitRemove pid) (.exitP pid ptr)

/-- `Remove(pid)` and `currentThread->Finish()` (ptable.cc:83-84). -/
def exitRemove (s : ProcState) (t : ThreadId) (pid : ℤ) : Option ProcState := do
  let r ← s.remove pid
  pure ({ s with toProcTable := r }.goto t .finished)

end ProcState

/-! ## Steps -/

/-- What can happen next: a thread in its user program makes a system call, or a thread
inside a call runs on to the next place where it can lose the processor. -/
inductive ProcEvent where
  | exec (t : ThreadId) (name : Option String) (opens : Bool)
  | join (t : ThreadId) (id : ℤ)
  | exit (t : ThreadId) (ec : ℤ)
  | resume (t : ThreadId) (garbage : ℤ)
deriving DecidableEq, Repr

/-- The thread that runs. -/
def ProcEvent.thread : ProcEvent → ThreadId
  | .exec t _ _ => t
  | .join t _ => t
  | .exit t _ => t
  | .resume t _ => t

namespace ProcState

/-- A thread inside a call runs on; `none` for a thread that is not inside one, `some none`
if it follows a bad pointer. -/
def resume (s : ProcState) (t : ThreadId) (self : String) (garbage : ℤ) :
    Pc → Option (Option ProcState)
  | .user => none
  | .execP name opens => some (some (s.bmsemTest t name opens))
  | .execScan name opens => some (s.execScan t self name opens garbage)
  | .execMutex name pid ptr =>
    some (s.pTest t ptr .mutex (.execFork name pid ptr) (.execMutex name pid ptr))
  | .execFork name pid ptr => some (s.execFork t name pid ptr)
  | .execStore pid ptr => some (s.execStore t pid ptr)
  | .execFail pid => some (s.execFail t pid)
  | .execRelease pid => some (some (s.bmsemV t pid))
  | .execReturn _ => some (some (s.goto t .user))
  | .joinP id currentID ptr child =>
    some (s.pTest t ptr .joinsem (.joinRead id currentID child) (.joinP id currentID ptr child))
  | .joinRead id currentID _ => some (s.joinRead t id currentID)
  | .joinReturn _ => some (some (s.goto t .user))
  | .exitWait index pid => some (s.exitWait t index pid)
  | .exitP pid ptr => some (s.pTest t ptr .exitsem (.exitRemove pid) (.exitP pid ptr))
  | .exitRemove pid => some (s.exitRemove t pid)
  | .finished => none

/-- What the event makes of the state, before a bad pointer is turned into a crash. -/
def act (s : ProcState) (thr : Thread) : ProcEvent → Option (Option ProcState)
  | .exec t name opens => if thr.pc = .user then some (some (s.bmsemTest t name opens)) else none
  | .join t id => if thr.pc = .user then some (s.joinCall t thr.name id) else none
  | .exit t ec => if thr.pc = .user then some (s.exitCall t thr.name ec) else none
  | .resume t garbage => s.resume t thr.name garbage thr.pc

/-- One step of the running machine. -/
def step (s : ProcState) (e : ProcEvent) : Option ProcState :=
  if s.status = .running ∧ s.asleep e.thread = false then do
    let thr ← s.threads e.thread
    let r ← s.act thr e
    pure (r.getD s.crash)
  else none

/-- `PTable::PTable` (ptable.cc:4-11), called by the boot thread; `words` is what the memory
of the bitmap held. -/
def boot (words : ℕ → BitVec 32) : Option ProcState := do
  let bm ← BitMap.new maxProcess words
  let bm ← bm.mark 0
  pure
    { pcb := fun i => if i = 0 then some 0 else none
      heap := fun p => if p = 0 then some (PCB.new (-1) 0 0) else none
      bm := bm
      threads := fun t => if t = 0 then some ⟨"main", .user⟩ else none
      next := 1
      creator := fun _ => 0
      exited := fun _ => none
      bmsem := Semaphore.new "Bitmap semaphore" 1#32
      asleep := fun _ => false
      status := .running }

end ProcState

end Nachos.Model
