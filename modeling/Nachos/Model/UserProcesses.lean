import Nachos.Model.AddrSpace
import Nachos.Model.ProcessTable

/-!
# User processes on one machine (userprog/exception.cc, threads/scheduler.cc, threads/pcb.cc)

There is one set of machine registers and one page table register. `Scheduler::Run` saves the
registers of the thread that leaves the processor and restores those of the thread that gets
it, if they have an address space. A thread that `PCB::Exec` has made enters `StartProcess_2`
without that code: it loads its program, sets the registers itself and jumps into
`Machine::Run`. From there a system call leads to `ExceptionHandler` and back.

The state is the process table of `Nachos.Model.ProcessTable` with the machine and, for each
thread, its saved registers, its address space and whether it runs in user or in system mode.
`Exec`, `Join` and `Exit` go through the table. What the other calls do inside the kernel is left
open here: `Finish` says how their branches of the dispatcher end. Between the trap and the end
the thread can lose the processor at any time.
-/

set_option autoImplicit false

namespace Nachos.Model

/-! ## Registers -/

/-- Register numbers are written as numerals, as in the source. -/
instance numGPRegs_ne_zero : NeZero 32 := ⟨by decide⟩

/-- `registers` (machine.h:60-75). `LoadReg` holds the `rt` field of a load instruction, so it
names one of the general registers. -/
structure Registers where
  gp : Fin 32 → BitVec 32
  hi : BitVec 32
  lo : BitVec 32
  pc : BitVec 32
  nextPC : BitVec 32
  prevPC : BitVec 32
  loadReg : Fin 32
  loadValue : BitVec 32
  badVAddr : BitVec 32

namespace Registers

/-- `Machine::DelayedLoad` (mipssim.cc:575-582). -/
def delayedLoad (r : Registers) (nextReg : Fin 32) (nextValue : BitVec 32) : Registers :=
  { r with
    gp := Function.update (Function.update r.gp r.loadReg r.loadValue) 0 0#32
    loadReg := nextReg
    loadValue := nextValue }

/-- What `Machine::RaiseException` does to the registers before it calls `ExceptionHandler`
(machine.cc:106-107). -/
def raiseException (r : Registers) (badVAddr : BitVec 32) : Registers :=
  { r with badVAddr := badVAddr }.delayedLoad 0 0#32

/-- `machine->ReadRegister(2)`: the type of a system call, and afterwards its result. -/
abbrev result (r : Registers) : BitVec 32 := r.gp 2

/-- `machine->ReadRegister(4)`: the first argument of a system call. -/
abbrev argument (r : Registers) : BitVec 32 := r.gp 4

/-- `machine->WriteRegister(2, value)`. -/
def writeResult (r : Registers) (value : ℤ) : Registers :=
  { r with gp := Function.update r.gp 2 (BitVec.ofInt 32 value) }

/-- `IncreasePC` (exception.cc:35-39). -/
def increasePC (r : Registers) : Registers :=
  { r with prevPC := r.pc, pc := r.nextPC, nextPC := r.nextPC + 4#32 }

end Registers

/-- `AddrSpace::InitRegisters` (addrspace.cc:233-254). -/
def AddrSpace.initRegisters (a : AddrSpace) : Registers where
  gp := Function.update (fun _ => 0#32) 29 (BitVec.ofNat 32 (a.numPages * pageSize) - 16#32)
  hi := 0#32
  lo := 0#32
  pc := 0#32
  nextPC := 4#32
  prevPC := 0#32
  loadReg := 0
  loadValue := 0#32
  badVAddr := 0#32

/-! ## System calls -/

/-- The system calls `ExceptionHandler` knows (syscall.h:21-39). -/
inductive Syscall where
  | halt
  | readNum
  | printNum
  | readChar
  | printChar
  | readString
  | printString
  | randomNum
  | createFile
  | «open»
  | close
  | read
  | write
  | exit
  | exec
  | join
  | createSemaphore
  | wait
  | signal
deriving DecidableEq, Repr

/-- The call that `type`, the contents of register 2, selects; `none` is the `default` branch,
which asserts `FALSE`. -/
def Syscall.ofType (type : BitVec 32) : Option Syscall :=
  match type.toNat with
  | 1 => some .halt
  | 2 => some .readNum
  | 3 => some .printNum
  | 4 => some .readChar
  | 5 => some .printChar
  | 6 => some .readString
  | 7 => some .printString
  | 8 => some .randomNum
  | 9 => some .createFile
  | 10 => some .open
  | 11 => some .close
  | 12 => some .read
  | 13 => some .write
  | 14 => some .exit
  | 15 => some .exec
  | 16 => some .join
  | 17 => some .createSemaphore
  | 18 => some .wait
  | 19 => some .signal
  | _ => none

/-- How a branch of the dispatcher can end: with a result in register 2, without one, in
`interrupt->Halt()`, which does not return, or in a failed `ASSERT` of the code it calls. -/
inductive Finish where
  | result (value : ℤ)
  | silent
  | halt
  | abort
deriving DecidableEq, Repr

/-- The ends of the branches that do not go to the process table (exception.cc:51-350,
404-486). -/
def Syscall.ends : Syscall → Finish → Bool
  | .exec, _ | .join, _ | .exit, _ => false
  | _, .abort => true
  | .halt, .halt => true
  -- end of input and input that is no number halt the machine; an empty line gives no result
  | .readNum, _ | .readChar, _ => true
  | .readString, .halt | .readString, .silent => true
  | .printNum, .silent | .printChar, .silent | .printString, .silent => true
  | .randomNum, .result _ | .createFile, .result _ | .open, .result _ | .close, .result _ => true
  | .read, .result _ | .write, .result _ => true
  | .createSemaphore, .result _ | .wait, .result _ | .signal, .result _ => true
  | _, _ => false

/-! ## Threads and the machine -/

/-- `thread->space`. The pointer is not reset when the object is deleted. -/
inductive SpacePtr where
  | null
  | live (space : AddrSpace)
  | deleted

/-- `thread->space == NULL`. -/
def SpacePtr.isNull : SpacePtr → Bool
  | .null => true
  | _ => false

/-- What a thread executes: `StartProcess_2` before its program is there, its program, or the
branch of a system call. -/
inductive ProcMode where
  | starting
  | user
  | system (call : Syscall)
deriving DecidableEq, Repr

/-- The process table, the machine and the threads. `pageTable` names the thread whose space
`machine->pageTable` and `machine->pageTableSize` were set from.

Two fields record history and are read by no step: `trapped t` are the registers with which
thread `t` has come to its last system call, and `left t` the registers and the page table with
which it has last left the processor. -/
structure UserState extends ProcState where
  registers : Registers
  pageTable : Option ThreadId
  mainMemory : Memory
  gPhysPageBitMap : BitMap
  currentThread : ThreadId
  userRegisters : ThreadId → Registers
  space : ThreadId → SpacePtr
  mode : ThreadId → ProcMode
  trapped : ThreadId → Registers
  left : ThreadId → Registers × Option ThreadId

/-- What can happen next: the scheduler gives the processor to another thread, or the current
thread goes on.

The registers and the memory that an instruction leaves are any; `name` is what
`User2System` reads, and `opens` and `opens'` say whether the file opens in `SC_Exec` and again
in `ExecUpdate`. -/
inductive UserEvent where
  | run (next : ThreadId)
  | startProcess2 (file : Option Executable) (uninit : AddrSpace)
  | oneInstruction (registers : Registers) (mem : Memory)
  | fault
  | syscall
  | finish (end_ : Finish) (mem : Memory)
  | exec (name : Option String) (opens opens' : Bool)
  | join
  | exit
  | resume (garbage : ℤ)

namespace UserState

/-- A failed `ASSERT`, or a bad pointer was followed. -/
def abort (s : UserState) : UserState := { s with status := .crashed }

/-- A thread that `Scheduler::Run` can be called with. -/
def ready (s : UserState) (t : ThreadId) : Bool :=
  match s.threads t with
  | none => false
  | some thr => thr.pc ≠ .finished && !s.asleep t

/-- `Scheduler::Run` (scheduler.cc:90-135) with `Thread::SaveUserState`,
`Thread::RestoreUserState` and `AddrSpace::RestoreState`. -/
def schedulerRun (s : UserState) (nextThread : ThreadId) : UserState :=
  let oldThread := s.currentThread
  let s₁ := { s with
    userRegisters :=
      if (s.space oldThread).isNull then s.userRegisters
      else Function.update s.userRegisters oldThread s.registers
    left := Function.update s.left oldThread (s.registers, s.pageTable)
    currentThread := nextThread }
  if (s.space nextThread).isNull then s₁
  else { s₁ with registers := s₁.userRegisters nextThread, pageTable := some nextThread }

/-- The page table the machine translates with. -/
def installedTable (s : UserState) : Option (List TranslationEntry) :=
  match s.pageTable with
  | none => none
  | some t =>
    match s.space t with
    | .live a => some a.pageTable
    | _ => none

/-- The first thing of `Machine::OneInstruction`: the word at the program counter
(mipssim.cc:102). -/
def fetch (s : UserState) : Option (Except ExceptionType (BitVec 32 × Machine)) :=
  Machine.readMem ⟨s.mainMemory, none, s.installedTable⟩ s.registers.pc 4

/-- `StartProcess_2` (pcb.cc:25-38) by the current thread, up to the first instruction of the
program; `none` if the constructor aborts, or if the fetch of that instruction raises an
exception, since `ExceptionHandler` asserts `FALSE` for all of them (exception.cc:493-531). -/
def startProcess2 (s : UserState) (file : Option Executable) (uninit : AddrSpace) :
    Option UserState :=
  match AddrSpace.newFilename uninit file s.gPhysPageBitMap s.mainMemory with
  | none => none
  | some (space, b, mem) =>
    let thread := s.currentThread
    let s₁ := { s with
      gPhysPageBitMap := b
      mainMemory := mem
      space := Function.update s.space thread (.live space)
      registers := space.initRegisters
      pageTable := some thread }
    let s₂ := (s₁.schedulerRun s₁.currentThread).schedulerRun thread
    match s₂.fetch with
    | some (.ok _) => some { s₂ with mode := Function.update s₂.mode thread .user }
    | _ => none

/-- `RaiseException(SyscallException, 0)` and the dispatch on register 2. -/
def trap (s : UserState) : UserState :=
  let registers := s.registers.raiseException 0#32
  match Syscall.ofType (registers.gp 2) with
  | none => s.abort
  | some call =>
    { s with
      registers := registers
      mode := Function.update s.mode s.currentThread (.system call)
      trapped := Function.update s.trapped s.currentThread s.registers }

/-- The end of `ExceptionHandler` for a system call: `IncreasePC()` (exception.cc:491). -/
def return_ (s : UserState) : UserState :=
  { s with
    registers := s.registers.increasePC
    mode := Function.update s.mode s.currentThread .user }

/-- `machine->WriteRegister(2, value); break;` and the end of the handler. -/
def returnResult (s : UserState) (value : ℤ) : UserState :=
  { s with registers := s.registers.writeResult value }.return_

/-- The end of a branch that does not go to the process table. -/
def finishCall (s : UserState) : Finish → UserState
  | .result value => s.returnResult value
  | .silent => s.return_
  | .halt => { s with status := .halted }
  | .abort => s.abort

/-- `delete thread->space` in `PCB::~PCB` (pcb.cc:22) for the thread `u`; `none` if the object
was deleted before. -/
def deleteSpace (s : UserState) (u : ThreadId) : Option UserState :=
  match s.space u with
  | .null => some s
  | .deleted => none
  | .live a => (a.delete s.gPhysPageBitMap).map fun b =>
      { s with gPhysPageBitMap := b, space := Function.update s.space u .deleted }

/-- The thread of the `PCB` that a step of the process table deletes (ptable.cc:59, 118). -/
def destroyedThread (s : ProcState) : ProcEvent → Option ThreadId
  | .resume t _ =>
    match (s.threads t).map Thread.pc with
    | some (.exitRemove pid) => (s.deref pid).bind PCB.thread
    | some (.execFail pid) => (s.deref (pid : ℤ)).bind PCB.thread
    | _ => none
  | _ => none

/-- A step of the process table, with the address space of a deleted `PCB`. -/
def tableStep (s : UserState) (e : ProcEvent) : Option UserState :=
  (s.toProcState.step e).map fun p =>
    match destroyedThread s.toProcState e with
    | none => { s with toProcState := p }
    | some u =>
      let s₁ := { s with toProcState := p }
      (s₁.deleteSpace u).getD s₁.abort

/-- The result that `ExecUpdate`, `JoinUpdate` and `ExitUpdate` return from `pc`: a call that
comes back at once returns `-1`. -/
def tableResult : Option Pc → ℤ
  | some (.execReturn result) => result
  | some (.joinReturn result) => result
  | _ => -1

/-- A step of the process table by the current thread. If the table's function has returned,
the handler writes its result and ends (exception.cc:379-380, 388-389, 400-401). -/
def tableCall (s : UserState) (e : ProcEvent) : Option UserState :=
  (s.tableStep e).map fun s' =>
    if s'.status = .running ∧ (s'.threads s'.currentThread).map Thread.pc = some .user then
      s'.returnResult (tableResult ((s.threads s.currentThread).map Thread.pc))
    else s'

/-- The current thread goes on. -/
def act (s : UserState) : UserEvent → ProcMode → Option UserState
  | .startProcess2 file uninit, .starting => some ((s.startProcess2 file uninit).getD s.abort)
  | .oneInstruction registers mem, .user =>
    some { s with registers := registers, mainMemory := mem }
  -- an exception of the program itself
  | .fault, .user => some s.abort
  | .syscall, .user => some s.trap
  | .finish end_ mem, .system call =>
    if call.ends end_ then some ({ s with mainMemory := mem }.finishCall end_) else none
  | .exec name opens opens', .system .exec =>
    if (s.threads s.currentThread).map Thread.pc = some .user then
      if name = none ∨ opens = false then some (s.returnResult (-1))
      else s.tableCall (.exec s.currentThread name opens')
    else none
  | .join, .system .join => s.tableCall (.join s.currentThread (s.registers.gp 4).toInt)
  | .exit, .system .exit => s.tableCall (.exit s.currentThread (s.registers.gp 4).toInt)
  | .resume garbage, .system _ => s.tableCall (.resume s.currentThread garbage)
  | _, _ => none

/-- One step of the running machine. -/
def step (s : UserState) (e : UserEvent) : Option UserState :=
  if s.status = .running then
    match e with
    | .run next => if s.ready next then some (s.schedulerRun next) else none
    | e => s.act e (s.mode s.currentThread)
  else none

/-- The machine when the first program starts (progtest.cc:23-47): the boot thread has loaded
`executable` with the constructor for open files. `words` and `frames` are what the memory of
the two bitmaps held, `garbage` what that of `userRegisters`. -/
def boot (words frames : ℕ → BitVec 32) (executable : Executable) (mem : Memory)
    (garbage : ThreadId → Registers) : Option UserState := do
  let p ← ProcState.boot words
  let b ← BitMap.new numPhysPages frames
  let (space, b, mem) ← AddrSpace.newOpenFile executable b mem
  pure
    { p with
      registers := space.initRegisters
      pageTable := some 0
      mainMemory := mem
      gPhysPageBitMap := b
      currentThread := 0
      userRegisters := garbage
      space := fun t => if t = 0 then .live space else .null
      mode := fun t => if t = 0 then .user else .starting
      trapped := garbage
      left := fun t => (garbage t, none) }

end UserState

end Nachos.Model
