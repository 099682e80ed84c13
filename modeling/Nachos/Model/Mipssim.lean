import Nachos.Model.UserProcesses

/-!
# The instructions of the machine (machine/mipssim.cc, machine/mipssim.h)

`OneInstruction` fetches a word, decodes it with two tables and executes it. An `int` of the host has
the 32 bits of a register: `+`, `-` and `<<` wrap around, `>>` copies the sign bit, and a comparison is
signed unless a variable of type `unsigned int` has taken the operand.

A load is delayed: it is put down in `LoadReg` and `LoadValueReg`, and reaches its register behind the
next instruction. `none` is a failed `ASSERT`, or a division that the host does not do.
-/

set_option autoImplicit false

namespace Nachos.Model

/-- The opcodes (mipssim.h:25-87) and the two marks of `opTable` (mipssim.h:105-106). -/
inductive OpCode where
  | add | addi | addiu | addu | and | andi
  | beq | bgez | bgezal | bgtz | blez | bltz | bltzal | bne
  | div | divu | j | jal | jalr | jr
  | lb | lbu | lh | lhu | lui | lw | lwl | lwr
  | mfhi | mflo | mthi | mtlo | mult | multu
  | nor | or | ori | rfe | sb | sh
  | sll | sllv | slt | slti | sltiu | sltu | sra | srav | srl | srlv
  | sub | subu | sw | swl | swr | xor | xori
  | syscall | unimp | res
  | special | bcond
deriving DecidableEq, Repr

/-- The formats (mipssim.h:108-110). -/
inductive Format where
  | ifmt | jfmt | rfmt
deriving DecidableEq, Repr

/-- `opTable` (mipssim.h:117-134). -/
def opTable : List (OpCode × Format) := [
  (.special, .rfmt), (.bcond, .ifmt), (.j, .jfmt), (.jal, .jfmt),
  (.beq, .ifmt), (.bne, .ifmt), (.blez, .ifmt), (.bgtz, .ifmt),
  (.addi, .ifmt), (.addiu, .ifmt), (.slti, .ifmt), (.sltiu, .ifmt),
  (.andi, .ifmt), (.ori, .ifmt), (.xori, .ifmt), (.lui, .ifmt),
  (.unimp, .ifmt), (.unimp, .ifmt), (.unimp, .ifmt), (.unimp, .ifmt),
  (.res, .ifmt), (.res, .ifmt), (.res, .ifmt), (.res, .ifmt),
  (.res, .ifmt), (.res, .ifmt), (.res, .ifmt), (.res, .ifmt),
  (.res, .ifmt), (.res, .ifmt), (.res, .ifmt), (.res, .ifmt),
  (.lb, .ifmt), (.lh, .ifmt), (.lwl, .ifmt), (.lw, .ifmt),
  (.lbu, .ifmt), (.lhu, .ifmt), (.lwr, .ifmt), (.res, .ifmt),
  (.sb, .ifmt), (.sh, .ifmt), (.swl, .ifmt), (.sw, .ifmt),
  (.res, .ifmt), (.res, .ifmt), (.swr, .ifmt), (.res, .ifmt),
  (.unimp, .ifmt), (.unimp, .ifmt), (.unimp, .ifmt), (.unimp, .ifmt),
  (.res, .ifmt), (.res, .ifmt), (.res, .ifmt), (.res, .ifmt),
  (.unimp, .ifmt), (.unimp, .ifmt), (.unimp, .ifmt), (.unimp, .ifmt),
  (.res, .ifmt), (.res, .ifmt), (.res, .ifmt), (.res, .ifmt)]

/-- `specialTable` (mipssim.h:141-150). -/
def specialTable : List OpCode := [
  .sll, .res, .srl, .sra, .sllv, .res, .srlv, .srav,
  .jr, .jalr, .res, .res, .syscall, .unimp, .res, .res,
  .mfhi, .mthi, .mflo, .mtlo, .res, .res, .res, .res,
  .mult, .multu, .div, .divu, .res, .res, .res, .res,
  .add, .addu, .sub, .subu, .and, .or, .xor, .nor,
  .res, .res, .slt, .sltu, .res, .res, .res, .res,
  .res, .res, .res, .res, .res, .res, .res, .res,
  .res, .res, .res, .res, .res, .res, .res, .res]

/-- class `Instruction` (machine.h:81-92) once it is decoded. -/
structure Instruction where
  opCode : OpCode
  rs : Fin 32
  rt : Fin 32
  rd : Fin 32
  extra : BitVec 32

namespace Instruction

/-- `(value >> shift) & 0x1f`. -/
def registerField (value : BitVec 32) (shift : ℕ) : Fin 32 :=
  Fin.ofNat 32 ((value >>> shift) &&& 0x1f#32).toNat

/-- The entry of `opTable` for a word. -/
def opInfo (value : BitVec 32) : OpCode × Format :=
  opTable.getD ((value >>> 26) &&& 0x3f#32).toNat (.res, .ifmt)

/-- `extra` (mipssim.cc:599-608). -/
def extraField (value : BitVec 32) : Format → BitVec 32
  | .ifmt =>
    let extra := value &&& 0xffff#32
    if extra &&& 0x8000#32 ≠ 0#32 then extra ||| 0xffff0000#32 else extra
  | .rfmt => (value >>> 6) &&& 0x1f#32
  | .jfmt => value &&& 0x3ffffff#32

/-- `opCode` behind the marks of `opTable` (mipssim.cc:609-625). -/
def finalOpCode (value : BitVec 32) : OpCode → OpCode
  | .special => specialTable.getD (value &&& 0x3f#32).toNat .res
  | .bcond =>
    let i := value &&& 0x1f0000#32
    if i = 0#32 then .bltz
    else if i = 0x10000#32 then .bgez
    else if i = 0x100000#32 then .bltzal
    else if i = 0x110000#32 then .bgezal
    else .unimp
  | opCode => opCode

/-- `Instruction::Decode` (mipssim.cc:589-626). -/
def decode (value : BitVec 32) : Instruction where
  opCode := finalOpCode value (opInfo value).1
  rs := registerField value 21
  rt := registerField value 16
  rd := registerField value 11
  extra := extraField value (opInfo value).2

end Instruction

namespace Registers

/-- `registers[num] = value` for a general register. -/
def set (r : Registers) (num : Fin 32) (value : BitVec 32) : Registers :=
  { r with gp := Function.update r.gp num value }

end Registers

/-- `x & SIGN_BIT` (mipssim.h:96). -/
def hasSign (x : BitVec 32) : Bool := x &&& 0x80000000#32 ≠ 0#32

/-- `IndexToAddr` (mipssim.h:94). -/
def indexToAddr (x : BitVec 32) : BitVec 32 := x <<< 2

/-- The loop of `Mult` (mipssim.cc:663-678) with `n` rounds left: `hi` and `lo`. -/
def multLoop : ℕ → (a bLo bHi lo hi : BitVec 32) → BitVec 32 × BitVec 32
  | 0, _, _, _, lo, hi => (hi, lo)
  | n + 1, a, bLo, bHi, lo, hi =>
    if a &&& 1#32 ≠ 0#32 then
      let lo := lo + bLo
      let hi := (if lo.ult bLo then hi + 1#32 else hi) + bHi
      if a &&& 0xfffffffe#32 = 0#32 then (hi, lo)
      else multLoop n (a.sshiftRight 1) (bLo <<< 1) (if hasSign bLo then bHi <<< 1 ||| 1#32 else bHi <<< 1)
        lo hi
    else multLoop n (a.sshiftRight 1) (bLo <<< 1) (if hasSign bLo then bHi <<< 1 ||| 1#32 else bHi <<< 1)
      lo hi

/-- `Mult` (mipssim.cc:635-692): `*hiPtr` and `*loPtr`. -/
def mult (a b : BitVec 32) (signedArith : Bool) : BitVec 32 × BitVec 32 :=
  if a = 0#32 ∨ b = 0#32 then (0#32, 0#32)
  else
    let aNegative := signedArith && hasSign a
    let bNegative := signedArith && hasSign b
    let (hi, lo) := multLoop 32 (if aNegative then -a else a) (if bNegative then -b else b) 0#32 0#32 0#32
    if aNegative != bNegative then
      let lo := ~~~lo + 1#32
      (if lo = 0#32 then ~~~hi + 1#32 else ~~~hi, lo)
    else (hi, lo)

/-- What the `switch` of `OneInstruction` leads to: the end of the routine with a delayed load and
the variable `pcAfter`, or an exception. -/
inductive Outcome where
  | next (registers : Registers) (machine : Machine) (nextLoadReg : Fin 32) (nextLoadValue : BitVec 32)
      (pcAfter : BitVec 32)
  | raise (which : ExceptionType) (badVAddr : BitVec 32) (machine : Machine)

namespace Machine

/-- `pcAfter` as it is before the `switch` (mipssim.cc:118). -/
def pcAfter (r : Registers) : BitVec 32 := r.nextPC + 4#32

/-- A `break` with the registers `r'` and no load. -/
def break_ (m : Machine) (r r' : Registers) : Option Outcome :=
  some (.next r' m 0 0#32 (pcAfter r))

/-- A branch with the registers `r'`. -/
def branch (m : Machine) (instr : Instruction) (r r' : Registers) (taken : Bool) : Option Outcome :=
  some (.next r' m 0 0#32 (if taken then r'.nextPC + indexToAddr instr.extra else pcAfter r))

/-- `registers[num] = NextPCReg + 4`. -/
def link (r : Registers) (num : Fin 32) : Registers := r.set num (r.nextPC + 4#32)

/-- A load of `size` bytes whose value is turned into the one to be loaded. -/
def load (m : Machine) (instr : Instruction) (r : Registers) (addr : BitVec 32) (size : ℕ)
    (convert : BitVec 32 → BitVec 32) : Option Outcome :=
  match m.readMem addr size with
  | none => none
  | some (.error which) => some (.raise which addr m)
  | some (.ok (value, m')) => some (.next r m' instr.rt (convert value) (pcAfter r))

/-- A store of `size` bytes. -/
def store (m : Machine) (r : Registers) (addr : BitVec 32) (size : ℕ) (value : BitVec 32) :
    Option Outcome :=
  match m.writeMem addr size value with
  | none => none
  | some (.error which) => some (.raise which addr m)
  | some (.ok m') => m'.break_ r r

/-- What the register of `LWL` and `LWR` holds, or is about to hold (mipssim.cc:290-293, 321-324). -/
def unaligned (instr : Instruction) (r : Registers) : BitVec 32 :=
  if r.loadReg = instr.rt then r.loadValue else r.gp instr.rt

/-- The `switch` of `LWL` (mipssim.cc:294-307). -/
def lwl (tmp value next : BitVec 32) : BitVec 32 :=
  match (tmp &&& 3#32).toNat with
  | 0 => value
  | 1 => (next &&& 0xff#32) ||| (value <<< 8)
  | 2 => (next &&& 0xffff#32) ||| (value <<< 16)
  | _ => (next &&& 0xffffff#32) ||| (value <<< 24)

/-- The `switch` of `LWR` (mipssim.cc:325-341). -/
def lwr (tmp value next : BitVec 32) : BitVec 32 :=
  match (tmp &&& 3#32).toNat with
  | 0 => (next &&& 0xffffff00#32) ||| ((value.sshiftRight 24) &&& 0xff#32)
  | 1 => (next &&& 0xffff0000#32) ||| ((value.sshiftRight 16) &&& 0xffff#32)
  | 2 => (next &&& 0xff000000#32) ||| ((value.sshiftRight 8) &&& 0xffffff#32)
  | _ => value

/-- The `switch` of `SWL` (mipssim.cc:486-502). -/
def swl (tmp value rt : BitVec 32) : BitVec 32 :=
  match (tmp &&& 3#32).toNat with
  | 0 => rt
  | 1 => (value &&& 0xff000000#32) ||| ((rt.sshiftRight 8) &&& 0xffffff#32)
  | 2 => (value &&& 0xffff0000#32) ||| ((rt.sshiftRight 16) &&& 0xffff#32)
  | _ => (value &&& 0xffffff00#32) ||| ((rt.sshiftRight 24) &&& 0xff#32)

/-- The `switch` of `SWR` (mipssim.cc:516-529). -/
def swr (tmp value rt : BitVec 32) : BitVec 32 :=
  match (tmp &&& 3#32).toNat with
  | 0 => (value &&& 0xffffff#32) ||| (rt <<< 24)
  | 1 => (value &&& 0xffff#32) ||| (rt <<< 16)
  | 2 => (value &&& 0xff#32) ||| (rt <<< 8)
  | _ => rt

/-- `SWL` and `SWR` (mipssim.cc:477-532): the word is read, changed and written back. -/
def storePart (m : Machine) (instr : Instruction) (r : Registers) (tmp : BitVec 32)
    (merge : BitVec 32 → BitVec 32 → BitVec 32 → BitVec 32) : Option Outcome :=
  if tmp &&& 3#32 ≠ 0#32 then none
  else match m.readMem (tmp &&& ~~~3#32) 4 with
    | none => none
    | some (.error which) => some (.raise which (tmp &&& ~~~3#32) m)
    | some (.ok (value, m')) => m'.store r (tmp &&& ~~~3#32) 4 (merge tmp value (r.gp instr.rt))

/-- The `switch` of `OneInstruction` (mipssim.cc:123-553). -/
def execute (m : Machine) (instr : Instruction) (r : Registers) : Option Outcome :=
  let rs := r.gp instr.rs
  let rt := r.gp instr.rt
  let extra := instr.extra
  match instr.opCode with
  | .add =>
    let sum := rs + rt
    if !hasSign (rs ^^^ rt) && hasSign (rs ^^^ sum) then some (.raise .overflowException 0#32 m)
    else m.break_ r (r.set instr.rd sum)
  | .addi =>
    let sum := rs + extra
    if !hasSign (rs ^^^ extra) && hasSign (extra ^^^ sum) then some (.raise .overflowException 0#32 m)
    else m.break_ r (r.set instr.rt sum)
  | .addiu => m.break_ r (r.set instr.rt (rs + extra))
  | .addu => m.break_ r (r.set instr.rd (rs + rt))
  | .and => m.break_ r (r.set instr.rd (rs &&& rt))
  | .andi => m.break_ r (r.set instr.rt (rs &&& (extra &&& 0xffff#32)))
  | .beq => m.branch instr r r (rs = rt)
  -- the register of the link is written before the test
  | .bgezal => m.branch instr r (link r 31) (!hasSign ((link r 31).gp instr.rs))
  | .bgez => m.branch instr r r (!hasSign rs)
  | .bgtz => m.branch instr r r ((0#32).slt rs)
  | .blez => m.branch instr r r (rs.sle 0#32)
  | .bltzal => m.branch instr r (link r 31) (hasSign ((link r 31).gp instr.rs))
  | .bltz => m.branch instr r r (hasSign rs)
  | .bne => m.branch instr r r (rs ≠ rt)
  | .div =>
    if rt = 0#32 then m.break_ r { r with lo := 0#32, hi := 0#32 }
    else if rs = 0x80000000#32 ∧ rt = 0xffffffff#32 then none
    else m.break_ r { r with lo := rs.sdiv rt, hi := rs.srem rt }
  | .divu =>
    if rt = 0#32 then m.break_ r { r with lo := 0#32, hi := 0#32 }
    else m.break_ r { r with lo := rs / rt, hi := rs % rt }
  | .jal => some (.next (link r 31) m 0 0#32
      ((pcAfter r &&& 0xf0000000#32) ||| indexToAddr extra))
  | .j => some (.next r m 0 0#32 ((pcAfter r &&& 0xf0000000#32) ||| indexToAddr extra))
  | .jalr => some (.next (link r instr.rd) m 0 0#32 ((link r instr.rd).gp instr.rs))
  | .jr => some (.next r m 0 0#32 rs)
  | .lb => m.load instr r (rs + extra) 1 fun value =>
      if value &&& 0x80#32 ≠ 0#32 then value ||| 0xffffff00#32 else value &&& 0xff#32
  | .lbu => m.load instr r (rs + extra) 1 fun value => value &&& 0xff#32
  | .lh =>
    let tmp := rs + extra
    if tmp &&& 1#32 ≠ 0#32 then some (.raise .addressErrorException tmp m)
    else m.load instr r tmp 2 fun value =>
      if value &&& 0x8000#32 ≠ 0#32 then value ||| 0xffff0000#32 else value &&& 0xffff#32
  | .lhu =>
    let tmp := rs + extra
    if tmp &&& 1#32 ≠ 0#32 then some (.raise .addressErrorException tmp m)
    else m.load instr r tmp 2 fun value => value &&& 0xffff#32
  | .lui => m.break_ r (r.set instr.rt (extra <<< 16))
  | .lw =>
    let tmp := rs + extra
    if tmp &&& 3#32 ≠ 0#32 then some (.raise .addressErrorException tmp m)
    else m.load instr r tmp 4 fun value => value
  | .lwl =>
    let tmp := rs + extra
    if tmp &&& 3#32 ≠ 0#32 then none
    else m.load instr r tmp 4 fun value => lwl tmp value (unaligned instr r)
  | .lwr =>
    let tmp := rs + extra
    if tmp &&& 3#32 ≠ 0#32 then none
    else m.load instr r tmp 4 fun value => lwr tmp value (unaligned instr r)
  | .mfhi => m.break_ r (r.set instr.rd r.hi)
  | .mflo => m.break_ r (r.set instr.rd r.lo)
  | .mthi => m.break_ r { r with hi := rs }
  | .mtlo => m.break_ r { r with lo := rs }
  | .mult => m.break_ r { r with hi := (Model.mult rs rt true).1, lo := (Model.mult rs rt true).2 }
  | .multu => m.break_ r { r with hi := (Model.mult rs rt false).1, lo := (Model.mult rs rt false).2 }
  | .nor => m.break_ r (r.set instr.rd (~~~(rs ||| rt)))
  -- both operands are `registers[instr->rs]` (mipssim.cc:376)
  | .or => m.break_ r (r.set instr.rd (rs ||| rs))
  | .ori => m.break_ r (r.set instr.rt (rs ||| (extra &&& 0xffff#32)))
  | .sb => m.store r (rs + extra) 1 rt
  | .sh => m.store r (rs + extra) 2 rt
  | .sll => m.break_ r (r.set instr.rd (rt <<< extra.toNat))
  | .sllv => m.break_ r (r.set instr.rd (rt <<< (rs &&& 0x1f#32).toNat))
  | .slt => m.break_ r (r.set instr.rd (if rs.slt rt then 1#32 else 0#32))
  | .slti => m.break_ r (r.set instr.rt (if rs.slt extra then 1#32 else 0#32))
  | .sltiu => m.break_ r (r.set instr.rt (if rs.ult extra then 1#32 else 0#32))
  | .sltu => m.break_ r (r.set instr.rd (if rs.ult rt then 1#32 else 0#32))
  | .sra => m.break_ r (r.set instr.rd (rt.sshiftRight extra.toNat))
  | .srav => m.break_ r (r.set instr.rd (rt.sshiftRight (rs &&& 0x1f#32).toNat))
  -- `tmp` is an `int` (mipssim.cc:445-455)
  | .srl => m.break_ r (r.set instr.rd (rt.sshiftRight extra.toNat))
  | .srlv => m.break_ r (r.set instr.rd (rt.sshiftRight (rs &&& 0x1f#32).toNat))
  | .sub =>
    let diff := rs - rt
    if hasSign (rs ^^^ rt) && hasSign (rs ^^^ diff) then some (.raise .overflowException 0#32 m)
    else m.break_ r (r.set instr.rd diff)
  | .subu => m.break_ r (r.set instr.rd (rs - rt))
  | .sw => m.store r (rs + extra) 4 rt
  | .swl => m.storePart instr r (rs + extra) swl
  | .swr => m.storePart instr r (rs + extra) swr
  | .syscall => some (.raise .syscallException 0#32 m)
  | .xor => m.break_ r (r.set instr.rd (rs ^^^ rt))
  | .xori => m.break_ r (r.set instr.rt (rs ^^^ (extra &&& 0xffff#32)))
  | .res | .unimp => some (.raise .illegalInstrException 0#32 m)
  | .rfe | .special | .bcond => none

/-- The machine after an instruction, or when `ExceptionHandler` is called. -/
inductive Executed where
  | done (registers : Registers) (machine : Machine)
  | raised (which : ExceptionType) (registers : Registers) (machine : Machine)

/-- `Machine::OneInstruction` (mipssim.cc:93-565) up to a call of `ExceptionHandler`. -/
def oneInstruction (m : Machine) (r : Registers) : Option Executed :=
  match m.readMem r.pc 4 with
  | none => none
  | some (.error which) => some (.raised which (r.raiseException r.pc) m)
  | some (.ok (raw, m')) =>
    match m'.execute (.decode raw) r with
    | none => none
    | some (.raise which badVAddr m'') => some (.raised which (r.raiseException badVAddr) m'')
    | some (.next r' m'' nextLoadReg nextLoadValue pcAfter) =>
      let r'' := r'.delayedLoad nextLoadReg nextLoadValue
      some (.done { r'' with prevPC := r''.pc, pc := r''.nextPC, nextPC := pcAfter } m'')

end Machine

/-! ## Processes that execute user code -/

/-- The spaces, and the user registers of the thread of each of them
(`SaveUserState` and `RestoreUserState`, thread.cc:298-319). -/
structure CodeState where
  kernel : SpaceState
  userRegisters : SpaceId → Registers

/-- Something happens to the spaces, a thread executes an instruction, or the kernel sets its
registers (`InitRegisters`, addrspace.cc:233-253, and the handler of a system call). -/
inductive CodeEvent where
  | space (e : SpaceEvent)
  | oneInstruction (id : SpaceId)
  | writeRegisters (id : SpaceId) (registers : Registers)

namespace CodeState

/-- `OneInstruction` of `Machine::Run` (mipssim.cc:39-44) in the thread of space `id`. -/
def oneInstruction (s : CodeState) (id : SpaceId) : Option CodeState :=
  match s.kernel.spaces id with
  | none => none
  | some a => ((s.kernel.restoreState a).oneInstruction (s.userRegisters id)).map fun
    | .done r m | .raised _ r m => ⟨s.kernel.saveMachine id m, Function.update s.userRegisters id r⟩

/-- One step. -/
def step (s : CodeState) : CodeEvent → Option CodeState
  | .space e => (s.kernel.step e).map fun kernel => { s with kernel := kernel }
  | .oneInstruction id => s.oneInstruction id
  | .writeRegisters id r => some { s with userRegisters := Function.update s.userRegisters id r }

end CodeState

end Nachos.Model
