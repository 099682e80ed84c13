import Nachos.Model.ConsoleCalls
import Nachos.Model.FileCalls

/-!
# The dispatcher (userprog/exception.cc:41-532)

`ExceptionHandler` reads the arguments of a system call from the registers, names and data from the
user's memory, and puts a result into register 2. Here it is seen from the thread that makes the
call: its registers and its memory are the machine's, the console has the bytes that are typed for
it, and the file system is that of either build (`Nachos.Model.FileCalls`). What the call gets from
the host or from tables that other threads share is its argument `env`.

`none` is a call that does not come back: a failed `ASSERT`, an access that is not defined, or a
wait without end.
-/

set_option autoImplicit false

namespace Nachos.Model

/-- What a system call works on. -/
structure KernelState (σ : Type) where
  registers : Registers
  machine : Machine
  fs : σ
  terminal : Terminal

/-- What a call gets from outside: the value of `Random()`; the answers to its one or two requests to
the file system; what new memory holds, and the variable `ch` of `SynchConsole::Read`; the value that
`ExecUpdate`, `JoinUpdate` or `ExitUpdate` returns, and the one of a method of `semTab`. -/
structure CallEnv (κ : Type) where
  random : ℤ
  file : κ
  file' : κ
  buff : Buffer
  ch : Byte
  pTab : ℤ
  semTab : ℤ

/-- The characters of a C string in a buffer of 256 bytes. -/
def nameOf (kernelBuf : Buffer) : String :=
  String.ofList ((((List.range 256).map kernelBuf).takeWhile fun c => c ≠ 0#8).map
    fun c => Char.ofNat c.toNat)

namespace FileBuild

variable {σ κ : Type} (b : FileBuild σ κ)

/-- The checks of `SC_Read` (exception.cc:273-285). -/
def acceptsRead (s : σ) (id charcount : ℤ) : Bool :=
  !(id < 0 ∨ id = 1 ∨ id > 9) && (b.file s id.toNat).isSome && charcount > 0

/-- The checks of `SC_Write` (exception.cc:315-327). -/
def acceptsWrite (s : σ) (id charcount : ℤ) : Bool :=
  !(id ≤ 0 ∨ id > 9) && ((b.file s id.toNat).any fun p => b.typeOf s p ≠ some 1) && charcount > 0

end FileBuild

namespace KernelState

variable {σ κ : Type} (b : FileBuild σ κ) (s : KernelState σ) (env : CallEnv κ)

/-- `machine->ReadRegister(num)` as an `int`. -/
def readRegister (num : Fin 32) : ℤ := (s.registers.gp num).toInt

/-- `User2System(machine->ReadRegister(4), 255)` as a name. -/
def readName : Option (String × KernelState σ) :=
  (s.machine.user2System (s.registers.gp 4) 255).map
    fun r => (nameOf r.1, { s with machine := r.2 })

/-- What `gSynchConsole->Read(buff, charcount)` gives (exception.cc:288-289). -/
def consoleRead (fromConsole : Bool) (charcount : ℤ) : Option (ℤ × Buffer × Terminal) :=
  if fromConsole then s.terminal.read env.buff charcount env.ch else some (0, env.buff, s.terminal)

/-- `System2User(addr, charcount+1, buff)` (exception.cc:307), if there is something to copy. -/
def copyToUser (charcount : ℤ) : Option Buffer → Option Machine
  | none => some s.machine
  | some buff => (s.machine.system2User (s.registers.gp 4) (charcount + 1) buff).map Prod.snd

/-- `SC_Read` (exception.cc:269-311) with the console and the copy to the user. The buffer is made by
`new char[charcount + 1]`. -/
def read : Option (Finish × KernelState σ) :=
  let id := s.readRegister 6
  let charcount := s.readRegister 5
  let accepted := b.acceptsRead s.fs id charcount
  if accepted && !Machine.allocates (charcount + 1) then none
  else do
    let (result, into, terminal) ← s.consoleRead env (accepted && id == 0) charcount
    let (result, buff, fs) ← b.scRead s.fs env.file id charcount env.buff (result, into)
    let machine ← s.copyToUser charcount buff
    return (.result result, { s with machine := machine, fs := fs, terminal := terminal })

/-- `User2System(addr, charcount)` (exception.cc:328), if the checks are passed. -/
def copyFromUser (accepted : Bool) (charcount : ℤ) : Option (Buffer × Machine) :=
  if accepted then s.machine.user2System (s.registers.gp 4) charcount
  else some (env.buff, s.machine)

/-- `SC_Write` (exception.cc:312-350) with the copy from the user and the console. -/
def write : Option (Finish × KernelState σ) := do
  let id := s.readRegister 6
  let charcount := s.readRegister 5
  let accepted := b.acceptsWrite s.fs id charcount
  let (buff, machine) ← s.copyFromUser env accepted charcount
  let (result, fs) ← b.scWrite s.fs env.file id charcount buff
  let terminal := if accepted && id == 1 then s.terminal.write buff charcount else s.terminal
  return (.result result, { s with machine := machine, fs := fs, terminal := terminal })

/-- The branches of the dispatcher: how they end, and the state they leave. -/
def branch : Syscall → Option (Finish × KernelState σ)
  | .halt => some (.halt, s)
  | .randomNum => some (.result env.random, s)
  | .readNum => do
    let (finish, terminal) ← s.terminal.readNum env.buff env.ch
    return (finish, { s with terminal := terminal })
  | .printNum => do
    let terminal ← s.terminal.printNum (s.registers.gp 4)
    return (.silent, { s with terminal := terminal })
  | .readChar => do
    let (finish, terminal) ← s.terminal.readChar env.buff env.ch
    return (finish, { s with terminal := terminal })
  | .printChar => some (.silent, { s with terminal := s.terminal.printChar (s.registers.gp 4) })
  | .readString => do
    let (finish, terminal, machine) ←
      s.terminal.readString s.machine (s.registers.gp 4) (s.registers.gp 5) env.buff env.ch
    return (finish, { s with terminal := terminal, machine := machine })
  | .printString => do
    let (terminal, machine) ← s.terminal.printString s.machine (s.registers.gp 4)
    return (.silent, { s with terminal := terminal, machine := machine })
  | .createFile => do
    let (name, s) ← s.readName
    let (result, fs) ← b.createFile s.fs env.file name
    return (.result result, { s with fs := fs })
  | .open => do
    let (name, s) ← s.readName
    let (result, fs) ← b.scOpen s.fs env.file name (s.readRegister 5)
    return (.result result, { s with fs := fs })
  | .close => do
    let (result, fs) ← b.scClose s.fs (s.readRegister 4)
    return (.result result, { s with fs := fs })
  | .read => s.read b env
  | .write => s.write b env
  | .exec => do
    let (name, s) ← s.readName
    let (result, fs) ← b.scExec s.fs env.file env.file' name env.pTab
    return (.result result, { s with fs := fs })
  | .join => some (.result env.pTab, s)
  | .exit => some (.result env.pTab, s)
  | .createSemaphore | .wait | .signal => do
    let (_, s) ← s.readName
    -- `-1` and any other value of the method are written by different statements
    return (.result env.semTab, s)

end KernelState

/-- What becomes of the program that has raised an exception. `written` is what the handler has put
into register 2, if it has. -/
inductive Handled (σ : Type) where
  | resumed (written : Option ℤ) (s : KernelState σ)
  | halted (s : KernelState σ)

/-- The end of the handler for a branch that ends so: `IncreasePC` behind its `break`
(exception.cc:491). -/
def KernelState.finishCall {σ : Type} (s : KernelState σ) : Finish → Option (Handled σ)
  | .result value =>
    some (.resumed (some value) { s with registers := (s.registers.writeResult value).increasePC })
  | .silent => some (.resumed none { s with registers := s.registers.increasePC })
  | .halt => some (.halted s)
  | .abort => none

/-- `ExceptionHandler` (exception.cc:41-532). The exceptions of the machine other than a system call
fail an `ASSERT`, and so does an unknown type of call. -/
def KernelState.exceptionHandler {σ κ : Type} (b : FileBuild σ κ) (s : KernelState σ)
    (env : CallEnv κ) : ExceptionType → Option (Handled σ)
  | .syscallException => do
    let call ← Syscall.ofType (s.registers.gp 2)
    let (finish, s') ← s.branch b env call
    s'.finishCall finish
  | _ => none

end Nachos.Model
