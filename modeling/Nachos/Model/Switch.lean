import Nachos.Library.Runs
import Nachos.Library.ByteMemory

/-!
# `SWITCH` and `ThreadRoot` on the i386 (threads/switch.c, threads/switch.h, threads/thread.cc)

The machine that Nachos itself runs on: eight registers, a memory of bytes and the few
instructions the two routines use. A routine is the list of its instructions, run until one of
them gives control away.

A thread is the memory it has: the first words of its `Thread` object, which hold `stackTop`
and `machineState`, and its stack. Between two calls of `SWITCH` the current thread executes
C++ code, which may load any registers and store anywhere but into the objects and stacks of
the threads that are off the CPU.
-/

set_option autoImplicit false

namespace Nachos.Model

open Nachos.Library

/-- The registers of the i386. -/
inductive HostReg where
  | eax
  | ebx
  | ecx
  | edx
  | ebp
  | esi
  | edi
  | esp
deriving DecidableEq, Repr

/-- The registers, the memory and the program counter. -/
structure HostCpu where
  regs : HostReg → BitVec 32
  mem : BitVec 32 → BitVec 8
  eip : BitVec 32

/-- The addresses the linker gives to the symbols that the routines name. -/
structure HostSymbols where
  switch : BitVec 32
  threadRoot : BitVec 32
  interruptEnable : BitVec 32
  threadFinish : BitVec 32
  eaxSave : BitVec 32

/-- An operand: a register, a displacement from a register, or `_eax_save`. -/
inductive HostOperand where
  | reg (r : HostReg)
  | disp (d : BitVec 32) (base : HostReg)
  | eaxSave
deriving DecidableEq, Repr

/-- The instructions of the two routines; `movl src dst` is in the order of the source. -/
inductive HostInstr where
  | movl (src dst : HostOperand)
  | pushl (r : HostReg)
  | popl (r : HostReg)
  | call (r : HostReg)
  | ret
deriving DecidableEq, Repr

def HostCpu.setReg (cpu : HostCpu) (r : HostReg) (v : BitVec 32) : HostCpu :=
  { cpu with regs := Function.update cpu.regs r v }

def HostCpu.store (cpu : HostCpu) (a v : BitVec 32) : HostCpu :=
  { cpu with mem := writeWord cpu.mem a v }

def HostCpu.push (cpu : HostCpu) (v : BitVec 32) : HostCpu :=
  (cpu.setReg .esp (cpu.regs .esp - 4)).store (cpu.regs .esp - 4) v

def HostOperand.read (sym : HostSymbols) (cpu : HostCpu) : HostOperand → BitVec 32
  | .reg r => cpu.regs r
  | .disp d base => readWord cpu.mem (cpu.regs base + d)
  | .eaxSave => readWord cpu.mem sym.eaxSave

def HostOperand.write (sym : HostSymbols) (cpu : HostCpu) (v : BitVec 32) : HostOperand → HostCpu
  | .reg r => cpu.setReg r v
  | .disp d base => cpu.store (cpu.regs base + d) v
  | .eaxSave => cpu.store sym.eaxSave v

/-- The bytes an operand in memory adds to the two of opcode and register. -/
def HostOperand.size : HostOperand → ℕ
  | .reg _ => 0
  | .disp d base => (if base = .esp then 1 else 0) + if d = 0 ∧ base ≠ .ebp then 0 else 1
  | .eaxSave => 4

/-- The bytes of an instruction. The short form of a move between `%eax` and a fixed address
has no register byte. -/
def HostInstr.size : HostInstr → ℕ
  | .movl src dst =>
    if (src = .reg .eax ∧ dst = .eaxSave) ∨ (src = .eaxSave ∧ dst = .reg .eax) then 5
    else 2 + src.size + dst.size
  | .pushl _ => 1
  | .popl _ => 1
  | .call _ => 2
  | .ret => 1

/-- Whether control goes elsewhere. -/
def HostInstr.leaves : HostInstr → Bool
  | .call _ => true
  | .ret => true
  | _ => false

/-- One instruction, with `eip` at it. -/
def HostInstr.exec (sym : HostSymbols) (cpu : HostCpu) (i : HostInstr) : HostCpu :=
  let next := cpu.eip + BitVec.ofNat 32 i.size
  let top := readWord cpu.mem (cpu.regs .esp)
  match i with
  | .movl src dst => { dst.write sym cpu (src.read sym cpu) with eip := next }
  | .pushl r => { cpu.push (cpu.regs r) with eip := next }
  | .popl r => { (cpu.setReg .esp (cpu.regs .esp + 4)).setReg r top with eip := next }
  | .call r => { cpu.push next with eip := cpu.regs r }
  | .ret => { cpu.setReg .esp (cpu.regs .esp + 4) with eip := top }

/-- The instructions in their order, until one gives control away. -/
def runFrom (sym : HostSymbols) : List HostInstr → HostCpu → HostCpu
  | [], cpu => cpu
  | i :: rest, cpu => if i.leaves then i.exec sym cpu else runFrom sym rest (i.exec sym cpu)

/-- The places of the registers in a `Thread` object (switch.h): `stackTop` holds `%esp` and
`machineState` the others. -/
def HostReg.offset : HostReg → BitVec 32
  | .esp => 0
  | .eax => 4
  | .ebx => 8
  | .ecx => 12
  | .edx => 16
  | .ebp => 20
  | .esi => 24
  | .edi => 28

/-- `_PC` (switch.h). -/
def pcOffset : BitVec 32 := 32

/-- The first half of `SWITCH` (switch.c:313-325): save into the object of `t1`. -/
def switchSave : List HostInstr :=
  [.movl (.reg .eax) .eaxSave,
   .movl (.disp 4 .esp) (.reg .eax),
   .movl (.reg .ebx) (.disp HostReg.ebx.offset .eax),
   .movl (.reg .ecx) (.disp HostReg.ecx.offset .eax),
   .movl (.reg .edx) (.disp HostReg.edx.offset .eax),
   .movl (.reg .esi) (.disp HostReg.esi.offset .eax),
   .movl (.reg .edi) (.disp HostReg.edi.offset .eax),
   .movl (.reg .ebp) (.disp HostReg.ebp.offset .eax),
   .movl (.reg .esp) (.disp HostReg.esp.offset .eax),
   .movl .eaxSave (.reg .ebx),
   .movl (.reg .ebx) (.disp HostReg.eax.offset .eax),
   .movl (.disp 0 .esp) (.reg .ebx),
   .movl (.reg .ebx) (.disp pcOffset .eax)]

/-- The second half (switch.c:327-342): load from the object of `t2` and return. -/
def switchLoad : List HostInstr :=
  [.movl (.disp 8 .esp) (.reg .eax),
   .movl (.disp HostReg.eax.offset .eax) (.reg .ebx),
   .movl (.reg .ebx) .eaxSave,
   .movl (.disp HostReg.ebx.offset .eax) (.reg .ebx),
   .movl (.disp HostReg.ecx.offset .eax) (.reg .ecx),
   .movl (.disp HostReg.edx.offset .eax) (.reg .edx),
   .movl (.disp HostReg.esi.offset .eax) (.reg .esi),
   .movl (.disp HostReg.edi.offset .eax) (.reg .edi),
   .movl (.disp HostReg.ebp.offset .eax) (.reg .ebp),
   .movl (.disp HostReg.esp.offset .eax) (.reg .esp),
   .movl (.disp pcOffset .eax) (.reg .eax),
   .movl (.reg .eax) (.disp 4 .esp),
   .movl .eaxSave (.reg .eax),
   .ret]

/-- `SWITCH` (switch.c:312-342). -/
def switchCode : List HostInstr := switchSave ++ switchLoad

/-- `ThreadRoot` (switch.c:283-294). -/
def threadRootCode : List HostInstr :=
  [.pushl .ebp,
   .movl (.reg .esp) (.reg .ebp),
   .pushl .edx,
   .call .ecx,
   .call .esi,
   .call .edi,
   .movl (.reg .ebp) (.reg .esp),
   .popl .ebp,
   .ret]

/-- The instructions of a routine at `base` from the address `eip` on. -/
def codeFrom (base eip : BitVec 32) : List HostInstr → List HostInstr
  | [] => []
  | i :: rest => if base = eip then i :: rest else codeFrom (base + BitVec.ofNat 32 i.size) eip rest

/-- `ThreadRoot` from the address in `eip` on until it gives control away. -/
def threadRoot (sym : HostSymbols) (cpu : HostCpu) : HostCpu :=
  runFrom sym (codeFrom sym.threadRoot cpu.eip threadRootCode) cpu

/-- The call `SWITCH(t1, t2)` from the place before `ra`: the arguments and the return address
are put on the stack, the last argument first. -/
def callSwitch (sym : HostSymbols) (t1 t2 ra : BitVec 32) (cpu : HostCpu) : HostCpu :=
  let esp := cpu.regs .esp - 12
  runFrom sym switchCode
    { regs := Function.update cpu.regs .esp esp
      mem := writeAll cpu.mem [(esp + 8, t2), (esp + 4, t1), (esp, ra)]
      eip := sym.switch }

/-- `StackSize` (thread.h:56), in words. -/
def stackSize : ℕ := 4 * 1024

/-- `STACK_FENCEPOST` (thread.cc:23). -/
def stackFencepost : BitVec 32 := 0xdeadbeef

/-- The bytes of `stackTop` and `machineState` at the head of a `Thread` (thread.h:80-81). -/
def contextSize : ℕ := 4 + 4 * 18

/-- The memory of a thread: the address of its object, the lowest address and the bytes of its
stack. The stack of the first thread is that of the host's process; `allocated` says that the
field `stack` is not `NULL`. -/
structure HostThread where
  object : BitVec 32
  stack : BitVec 32
  size : ℕ
  allocated : Bool
deriving DecidableEq, Repr

/-- The addresses that belong to a thread. -/
def HostThread.Owns (t : HostThread) (a : BitVec 32) : Prop :=
  Within t.object contextSize a ∨ Within t.stack t.size a

/-- The object and the stack of a thread lie in memory, apart from each other and from
`_eax_save`. -/
def HostThread.Placed (sym : HostSymbols) (t : HostThread) : Prop :=
  t.object.toNat + contextSize ≤ 2 ^ 32 ∧ t.stack.toNat + t.size < 2 ^ 32 ∧
    sym.eaxSave.toNat + 4 ≤ 2 ^ 32 ∧ Apart t.object contextSize t.stack t.size ∧
    Apart sym.eaxSave 4 t.object contextSize ∧ Apart sym.eaxSave 4 t.stack t.size

/-- Two threads have no memory in common. -/
def HostThread.Disjoint (t u : HostThread) : Prop :=
  Apart t.object contextSize u.object contextSize ∧ Apart t.object contextSize u.stack u.size ∧
    Apart t.stack t.size u.object contextSize ∧ Apart t.stack t.size u.stack u.size

instance (t : HostThread) (a : BitVec 32) : Decidable (t.Owns a) :=
  inferInstanceAs (Decidable (_ ∨ _))

instance (sym : HostSymbols) (t : HostThread) : Decidable (t.Placed sym) :=
  inferInstanceAs (Decidable (_ ∧ _))

instance (t u : HostThread) : Decidable (t.Disjoint u) :=
  inferInstanceAs (Decidable (_ ∧ _))

/-- The stores of `Thread::StackAllocate` (thread.cc:252-284), on the i386: `stackTop` is four
words below the end and then one more for the address of `ThreadRoot`. -/
def stackAllocateStores (sym : HostSymbols) (t : HostThread) (func arg : BitVec 32) :
    List (BitVec 32 × BitVec 32) :=
  let stackTop := t.stack + BitVec.ofNat 32 (4 * (stackSize - 4 - 1))
  [(t.object + HostReg.esp.offset, stackTop),
   (stackTop, sym.threadRoot),
   (t.stack, stackFencepost),
   (t.object + pcOffset, sym.threadRoot),
   (t.object + HostReg.ecx.offset, sym.interruptEnable),
   (t.object + HostReg.esi.offset, func),
   (t.object + HostReg.edx.offset, arg),
   (t.object + HostReg.edi.offset, sym.threadFinish)]

/-- `Thread::StackAllocate` (thread.cc:252-284). -/
def stackAllocate (sym : HostSymbols) (t : HostThread) (func arg : BitVec 32)
    (mem : BitVec 32 → BitVec 8) : BitVec 32 → BitVec 8 :=
  writeAll mem (stackAllocateStores sym t func arg)

/-- `Thread::CheckOverflow` (thread.cc:117-125): whether its assertion holds. -/
def checkOverflow (t : HostThread) (mem : BitVec 32 → BitVec 8) : Bool :=
  !t.allocated || readWord mem t.stack == stackFencepost

/-- The machine, the thread on the CPU and all threads. -/
structure SwitchState where
  cpu : HostCpu
  current : HostThread
  threads : List HostThread

/-- What happens: the current thread computes; it forks the thread `t`, whose memory the
allocator has placed; it calls `SWITCH` in `Scheduler::Run` for the thread `next`, which may be
the current one, with the return address `ra`; a thread off the CPU is deleted. -/
inductive SwitchEvent where
  | work (regs : HostReg → BitVec 32) (eip : BitVec 32) (stores : List (BitVec 32 × BitVec 8))
  | fork (t : HostThread) (func arg : BitVec 32)
  | switch (next : HostThread) (ra : BitVec 32)
  | delete (t : HostThread)

/-- The stack pointer is in the stack of the current thread, with room for the call. -/
def SwitchState.HasRoom (s : SwitchState) : Prop :=
  s.current.stack.toNat + 12 ≤ (s.cpu.regs .esp).toNat ∧
    (s.cpu.regs .esp).toNat ≤ s.current.stack.toNat + s.current.size

instance (s : SwitchState) : Decidable s.HasRoom :=
  inferInstanceAs (Decidable (_ ∧ _))

/-- No store goes to the memory of a thread that is not running. -/
def SwitchState.StoresOwn (s : SwitchState) (stores : List (BitVec 32 × BitVec 8)) : Prop :=
  ∀ st ∈ stores, ∀ t ∈ s.threads, t ≠ s.current → ¬ t.Owns st.1

instance (s : SwitchState) (stores : List (BitVec 32 × BitVec 8)) : Decidable (s.StoresOwn stores) :=
  List.decidableBAll (fun st : BitVec 32 × BitVec 8 => ∀ t ∈ s.threads, t ≠ s.current → ¬ t.Owns st.1) _

/-- One event; `none` where it cannot happen or an assertion fails. -/
def SwitchState.step (sym : HostSymbols) (s : SwitchState) : SwitchEvent → Option SwitchState
  | .work regs eip stores =>
    if s.StoresOwn stores then
      let mem := stores.foldl (fun mem st => Function.update mem st.1 st.2) s.cpu.mem
      some { s with cpu := ⟨regs, mem, eip⟩ }
    else none
  | .fork t func arg =>
    if t.allocated ∧ t.size = 4 * stackSize ∧ t.Placed sym ∧ ∀ u ∈ s.threads, t.Disjoint u then
      let mem := stackAllocate sym t func arg s.cpu.mem
      some { s with cpu := { s.cpu with mem := mem }, threads := t :: s.threads }
    else none
  | .switch next ra =>
    if checkOverflow s.current s.cpu.mem ∧ s.HasRoom ∧ next ∈ s.threads then
      let cpu := callSwitch sym s.current.object next.object ra s.cpu
      some { s with cpu := cpu, current := next }
    else none
  | .delete t =>
    if t = s.current then none else some { s with threads := s.threads.filter (· ≠ t) }

end Nachos.Model
