import Nachos.Model.MemoryAccess
import Nachos.Model.Mipssim

/-!
# `OneInstruction` with its assignments (machine/mipssim.cc, machine/machine.cc)

`Nachos.Model.Mipssim` gives the registers after an instruction. Here `registers` is the array
`int registers[NumTotalRegs]`, an instruction is the sequence of its reads and assignments, and `LoadReg` is a number
like any other that `DelayedLoad` uses as an index. A command stops where the simulator stops, and
where `RaiseException` calls `ExceptionHandler`: the state is then the one that the handler finds.

What is done to the registers between two instructions is in `MachineEvent`: the kernel writes the result of a
system call and moves the program counters, it reads and writes the memory of the program, `Scheduler::Run` saves
and restores the registers of threads, a new program is given its first registers, and an interrupt
finishes a load.
-/

set_option autoImplicit false

namespace Nachos.Model

/-! ## The array of registers -/

/-- Register numbers are written as numerals, as in the source. -/
instance numTotalRegs_ne_zero : NeZero 40 := ⟨by decide⟩

theorem numGPRegs_le_numTotalRegs : 32 ≤ 40 := by decide

/-- A general register (machine.h:62). -/
def gpReg (num : Fin 32) : Fin 40 := Fin.castLE numGPRegs_le_numTotalRegs num

/-- `HiReg` to `BadVAddrReg` (machine.h:63-71). -/
def hiReg : Fin 40 := 32

@[inherit_doc hiReg] def loReg : Fin 40 := 33

@[inherit_doc hiReg] def pcReg : Fin 40 := 34

@[inherit_doc hiReg] def nextPCReg : Fin 40 := 35

@[inherit_doc hiReg] def prevPCReg : Fin 40 := 36

@[inherit_doc hiReg] def loadReg : Fin 40 := 37

@[inherit_doc hiReg] def loadValueReg : Fin 40 := 38

@[inherit_doc hiReg] def badVAddrReg : Fin 40 := 39

/-- `registers` (machine.h:171) with what translation uses. -/
structure Simulator where
  registers : Fin 40 → BitVec 32
  machine : Machine

/-- `ExceptionHandler` is called, with what `RaiseException` was called with; an `ASSERT` fails; a division has no
quotient; an index is not one of the array. -/
inductive SimStop where
  | handler (which : ExceptionType) (badVAddr : BitVec 32)
  | assertion
  | undefinedDivision
  | outOfRange
deriving DecidableEq, Repr

abbrev Sim (α : Type) : Type := EStateM SimStop Simulator α

/-- The variables `nextLoadReg`, `nextLoadValue` and `pcAfter` behind the `switch`. -/
structure After where
  nextLoadReg : BitVec 32
  nextLoadValue : BitVec 32
  pcAfter : BitVec 32

namespace Simulator

/-- `registers[num] = value`. -/
def setReg (num : Fin 40) (value : BitVec 32) : Sim Unit :=
  modify fun s => { s with registers := Function.update s.registers num value }

/-- `registers[num]`. -/
def reg (num : Fin 40) : Sim (BitVec 32) := do
  let s ← get
  return s.registers num

/-- A value that is used as an index of `registers`. -/
def index (value : BitVec 32) : Sim (Fin 40) :=
  if h : value.toNat < 40 then pure ⟨value.toNat, h⟩ else throw .outOfRange

/-- `Machine::DelayedLoad` (mipssim.cc:575-582). -/
def delayedLoad (nextReg nextValue : BitVec 32) : Sim Unit := do
  let num ← reg loadReg
  let i ← index num
  let value ← reg loadValueReg
  setReg i value
  setReg loadReg nextReg
  setReg loadValueReg nextValue
  setReg 0 0#32

/-- `Machine::RaiseException` (machine.cc:100-111) up to its call of `ExceptionHandler`. -/
def raiseException {α : Type} (which : ExceptionType) (badVAddr : BitVec 32) : Sim α := do
  setReg badVAddrReg badVAddr
  delayedLoad 0#32 0#32
  throw (.handler which badVAddr)

/-- `Machine::ReadMem` (translate.cc:87-122). -/
def readMem (addr : BitVec 32) (size : ℕ) : Sim (BitVec 32) := do
  let s ← get
  match s.machine.readMemInPlace addr size with
  | none => throw .assertion
  | some (.error which, m) =>
    set { s with machine := m }
    raiseException which addr
  | some (.ok value, m) =>
    set { s with machine := m }
    return value

/-- `Machine::WriteMem` (translate.cc:137-169). -/
def writeMem (addr : BitVec 32) (size : ℕ) (value : BitVec 32) : Sim Unit := do
  let s ← get
  match s.machine.writeMemInPlace addr size value with
  | none => throw .assertion
  | some (.error which, m) =>
    set { s with machine := m }
    raiseException which addr
  | some (.ok (), m) => set { s with machine := m }

/-! ## The cases of the `switch` -/

/-- An assignment to a general register and `break`. -/
def assign (num : Fin 32) (value : BitVec 32) (after : After) : Sim After := do
  setReg (gpReg num) value
  return after

/-- An assignment to `HiReg` and `LoReg` and `break`. -/
def assignHiLo (hi lo : BitVec 32) (after : After) : Sim After := do
  setReg loReg lo
  setReg hiReg hi
  return after

/-- An arithmetic operation that traps. -/
def assignUnless (overflow : Bool) (num : Fin 32) (value : BitVec 32) (after : After) : Sim After :=
  if overflow then raiseException .overflowException 0#32 else assign num value after

/-- `if (taken) pcAfter = registers[NextPCReg] + IndexToAddr(instr->extra)`. -/
def branch (extra : BitVec 32) (taken : Bool) (after : After) : Sim After := do
  let nextPC ← reg nextPCReg
  return if taken then { after with pcAfter := nextPC + indexToAddr extra } else after

/-- A load whose address has to be a multiple of the size, and the value that is loaded. -/
def load (rt : Fin 32) (tmp : BitVec 32) (size : ℕ) (convert : BitVec 32 → BitVec 32) (after : After) :
    Sim After := do
  let value ← readMem tmp size
  return { after with nextLoadReg := BitVec.ofNat 32 rt, nextLoadValue := convert value }

/-- `LH`, `LHU` and `LW` (mipssim.cc:245-278). -/
def loadAligned (rt : Fin 32) (tmp mask : BitVec 32) (size : ℕ) (convert : BitVec 32 → BitVec 32)
    (after : After) : Sim After :=
  if tmp &&& mask ≠ 0#32 then raiseException .addressErrorException tmp
  else load rt tmp size convert after

/-- `LWL` and `LWR` (mipssim.cc:280-343). -/
def loadPart (rt : Fin 32) (tmp : BitVec 32) (merge : BitVec 32 → BitVec 32 → BitVec 32 → BitVec 32)
    (after : After) : Sim After := do
  if tmp &&& 3#32 ≠ 0#32 then throw .assertion
  let value ← readMem tmp 4
  let num ← reg loadReg
  let loaded ← reg loadValueReg
  let old ← reg (gpReg rt)
  let next := if num = BitVec.ofNat 32 rt then loaded else old
  return { after with nextLoadReg := BitVec.ofNat 32 rt, nextLoadValue := merge tmp value next }

/-- `SB`, `SH` and `SW`. -/
def store (tmp : BitVec 32) (size : ℕ) (value : BitVec 32) (after : After) : Sim After := do
  writeMem tmp size value
  return after

/-- `SWL` and `SWR` (mipssim.cc:477-532). -/
def storePart (rt : Fin 32) (tmp : BitVec 32) (merge : BitVec 32 → BitVec 32 → BitVec 32 → BitVec 32)
    (after : After) : Sim After := do
  if tmp &&& 3#32 ≠ 0#32 then throw .assertion
  let value ← readMem (tmp &&& ~~~3#32) 4
  let rt ← reg (gpReg rt)
  writeMem (tmp &&& ~~~3#32) 4 (merge tmp value rt)
  return after

/-- `DIV` (mipssim.cc:195-203). -/
def divide (rs rt : BitVec 32) (after : After) : Sim After :=
  if rt = 0#32 then assignHiLo 0#32 0#32 after
  else if rs = 0x80000000#32 ∧ rt = 0xffffffff#32 then throw .undefinedDivision
  else assignHiLo (rs.srem rt) (rs.sdiv rt) after

/-- The `switch` of `OneInstruction` (mipssim.cc:123-553). -/
def execute (instr : Instruction) : Sim After := do
  let s ← get
  let registers := s.registers
  let rs := registers (gpReg instr.rs)
  let rt := registers (gpReg instr.rt)
  let extra := instr.extra
  let pcAfter := registers nextPCReg + 4#32
  let after : After := ⟨0#32, 0#32, pcAfter⟩
  match instr.opCode with
  | .add => assignUnless (!hasSign (rs ^^^ rt) && hasSign (rs ^^^ (rs + rt))) instr.rd (rs + rt) after
  | .addi =>
    assignUnless (!hasSign (rs ^^^ extra) && hasSign (extra ^^^ (rs + extra))) instr.rt (rs + extra) after
  | .addiu => assign instr.rt (rs + extra) after
  | .addu => assign instr.rd (rs + rt) after
  | .and => assign instr.rd (rs &&& rt) after
  | .andi => assign instr.rt (rs &&& (extra &&& 0xffff#32)) after
  | .beq => branch extra (rs = rt) after
  -- the register of the link is written before the test
  | .bgezal =>
    setReg 31 (registers nextPCReg + 4#32)
    let rs ← reg (gpReg instr.rs)
    branch extra (!hasSign rs) after
  | .bgez => branch extra (!hasSign rs) after
  | .bgtz => branch extra ((0#32).slt rs) after
  | .blez => branch extra (rs.sle 0#32) after
  | .bltzal =>
    setReg 31 (registers nextPCReg + 4#32)
    let rs ← reg (gpReg instr.rs)
    branch extra (hasSign rs) after
  | .bltz => branch extra (hasSign rs) after
  | .bne => branch extra (rs ≠ rt) after
  | .div => divide rs rt after
  | .divu => if rt = 0#32 then assignHiLo 0#32 0#32 after else assignHiLo (rs % rt) (rs / rt) after
  | .jal =>
    setReg 31 (registers nextPCReg + 4#32)
    return { after with pcAfter := (pcAfter &&& 0xf0000000#32) ||| indexToAddr extra }
  | .j => return { after with pcAfter := (pcAfter &&& 0xf0000000#32) ||| indexToAddr extra }
  | .jalr =>
    setReg (gpReg instr.rd) (registers nextPCReg + 4#32)
    let rs ← reg (gpReg instr.rs)
    return { after with pcAfter := rs }
  | .jr => return { after with pcAfter := rs }
  | .lb => load instr.rt (rs + extra) 1 (fun value =>
      if value &&& 0x80#32 ≠ 0#32 then value ||| 0xffffff00#32 else value &&& 0xff#32) after
  | .lbu => load instr.rt (rs + extra) 1 (fun value => value &&& 0xff#32) after
  | .lh => loadAligned instr.rt (rs + extra) 1#32 2 (fun value =>
      if value &&& 0x8000#32 ≠ 0#32 then value ||| 0xffff0000#32 else value &&& 0xffff#32) after
  | .lhu => loadAligned instr.rt (rs + extra) 1#32 2 (fun value => value &&& 0xffff#32) after
  | .lui => assign instr.rt (extra <<< 16) after
  | .lw => loadAligned instr.rt (rs + extra) 3#32 4 (fun value => value) after
  | .lwl => loadPart instr.rt (rs + extra) Machine.lwl after
  | .lwr => loadPart instr.rt (rs + extra) Machine.lwr after
  | .mfhi => assign instr.rd (registers hiReg) after
  | .mflo => assign instr.rd (registers loReg) after
  | .mthi =>
    setReg hiReg rs
    return after
  | .mtlo =>
    setReg loReg rs
    return after
  | .mult => assignHiLo (Model.mult rs rt true).1 (Model.mult rs rt true).2 after
  | .multu => assignHiLo (Model.mult rs rt false).1 (Model.mult rs rt false).2 after
  | .nor => assign instr.rd (~~~(rs ||| rt)) after
  -- both operands are `registers[instr->rs]` (mipssim.cc:376)
  | .or => assign instr.rd (rs ||| rs) after
  | .ori => assign instr.rt (rs ||| (extra &&& 0xffff#32)) after
  | .sb => store (rs + extra) 1 rt after
  | .sh => store (rs + extra) 2 rt after
  | .sll => assign instr.rd (rt <<< extra.toNat) after
  | .sllv => assign instr.rd (rt <<< (rs &&& 0x1f#32).toNat) after
  | .slt => assign instr.rd (if rs.slt rt then 1#32 else 0#32) after
  | .slti => assign instr.rt (if rs.slt extra then 1#32 else 0#32) after
  | .sltiu => assign instr.rt (if rs.ult extra then 1#32 else 0#32) after
  | .sltu => assign instr.rd (if rs.ult rt then 1#32 else 0#32) after
  | .sra => assign instr.rd (rt.sshiftRight extra.toNat) after
  | .srav => assign instr.rd (rt.sshiftRight (rs &&& 0x1f#32).toNat) after
  -- `tmp` is an `int` (mipssim.cc:445-455)
  | .srl => assign instr.rd (rt.sshiftRight extra.toNat) after
  | .srlv => assign instr.rd (rt.sshiftRight (rs &&& 0x1f#32).toNat) after
  | .sub => assignUnless (hasSign (rs ^^^ rt) && hasSign (rs ^^^ (rs - rt))) instr.rd (rs - rt) after
  | .subu => assign instr.rd (rs - rt) after
  | .sw => store (rs + extra) 4 rt after
  | .swl => storePart instr.rt (rs + extra) Machine.swl after
  | .swr => storePart instr.rt (rs + extra) Machine.swr after
  | .syscall => raiseException .syscallException 0#32
  | .xor => assign instr.rd (rs ^^^ rt) after
  | .xori => assign instr.rt (rs ^^^ (extra &&& 0xffff#32)) after
  | .res | .unimp => raiseException .illegalInstrException 0#32
  | .rfe | .special | .bcond => throw .assertion

/-- The end of `OneInstruction` (mipssim.cc:557-564). -/
def finish (after : After) : Sim Unit := do
  delayedLoad after.nextLoadReg after.nextLoadValue
  let pc ← reg pcReg
  setReg prevPCReg pc
  let nextPC ← reg nextPCReg
  setReg pcReg nextPC
  setReg nextPCReg after.pcAfter

/-- `Machine::OneInstruction` (mipssim.cc:93-565). -/
def oneInstruction : Sim Unit := do
  let pc ← reg pcReg
  let raw ← readMem pc 4
  let after ← execute (.decode raw)
  finish after

/-! ## Between two instructions -/

/-- `IncreasePC` (exception.cc:35-39). -/
def increasePC : Sim Unit := do
  let pc ← reg pcReg
  setReg prevPCReg pc
  let nextPC ← reg nextPCReg
  setReg pcReg nextPC
  setReg nextPCReg (nextPC + 4#32)

/-- `AddrSpace::InitRegisters` (addrspace.cc:233-254). -/
def initRegisters (numPages : BitVec 32) : Sim Unit := do
  (List.finRange 40).forM fun i => setReg i 0#32
  setReg pcReg 0#32
  setReg nextPCReg 4#32
  setReg 29 (numPages * BitVec.ofNat 32 pageSize - 16#32)

/-- `Machine::Machine` (machine.cc:56-82). -/
def new (machine : Machine) : Simulator := ⟨fun _ => 0#32, machine⟩

end Simulator

/-- The machine and the arrays `userRegisters` of the threads; one that nothing was saved in holds
what its memory held, and is not restored from. -/
structure MachineState where
  sim : Simulator
  userRegisters : ℕ → Option (Fin 40 → BitVec 32)

/-- What the simulator and the kernel do with the registers. `setMachine` is all that the kernel does to the
memory and the tables without the machine's routines. -/
inductive MachineEvent where
  | oneInstruction
  | interrupt
  | writeResult (value : BitVec 32)
  | increasePC
  | readMem (addr : BitVec 32) (size : AccessSize)
  | writeMem (addr : BitVec 32) (size : AccessSize) (value : BitVec 32)
  | initRegisters (numPages : BitVec 32)
  | saveUserState (thread : ℕ)
  | restoreUserState (thread : ℕ)
  | setMachine (machine : Machine)

namespace MachineState

/-- The state after a command, or the one in which `ExceptionHandler` is called; `none` if the simulator has
stopped. -/
def after {α : Type} (s : MachineState) (x : Sim α) : Option MachineState :=
  match x s.sim with
  | .ok _ sim => some { s with sim := sim }
  | .error (.handler _ _) sim => some { s with sim := sim }
  | .error _ _ => none

/-- One event. The interrupt is the call in interrupt.cc:325, `writeResult` is `machine->WriteRegister(2, value)`,
and saving and restoring are `Thread::SaveUserState` and `Thread::RestoreUserState` (thread.cc:299-319). -/
def step (s : MachineState) : MachineEvent → Option MachineState
  | .oneInstruction => s.after Simulator.oneInstruction
  | .interrupt => s.after (Simulator.delayedLoad 0#32 0#32)
  | .writeResult value => s.after (Simulator.setReg 2 value)
  | .increasePC => s.after Simulator.increasePC
  | .readMem addr size => s.after (Simulator.readMem addr size.bytes)
  | .writeMem addr size value => s.after (Simulator.writeMem addr size.bytes value)
  | .initRegisters numPages => s.after (Simulator.initRegisters numPages)
  | .saveUserState thread =>
    some { s with userRegisters := Function.update s.userRegisters thread (some s.sim.registers) }
  | .restoreUserState thread =>
    (s.userRegisters thread).map fun registers => { s with sim := { s.sim with registers := registers } }
  | .setMachine machine => some { s with sim := { s.sim with machine := machine } }

/-- Before the first thread has run a program. -/
def new (machine : Machine) : MachineState := ⟨Simulator.new machine, fun _ => none⟩

end MachineState

end Nachos.Model
