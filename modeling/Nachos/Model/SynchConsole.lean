import Nachos.Model.OpenFile
import Nachos.Model.Semaphore

/-!
# `Console` (machine/console.cc) and `SynchConsole` (threads/synchcons.cc)

The device takes one byte at a time and reports later, by an interrupt, that it is free
again; it is polled for typed bytes and reports each one it has buffered. `SynchConsole`
turns the two interrupts into the semaphores `synchWriteAvail` and `synchReadAvail` and
lets one thread write and one thread read at a time, by `WLineBlock` and `RLineBlock`.

A thread inside a call stands at one of the program points of `ConsolePc`. Interrupts are
off only inside the semaphore operations and the handlers, so between any two of these
points anything else may run: every event below is one stretch of code of one thread, or
one interrupt.
-/

set_option autoImplicit false

namespace Nachos.Model

/-- `EOF` as a `char`. -/
def eof : Byte := 0xFF#8

/-- class `Console` (console.h:42-75). `display` and `typed` are the bytes that have gone
to `writeFileNo` and come from `readFileNo`, `scheduled` the number of `ConsoleWriteDone`
interrupts to come. -/
structure Console where
  putBusy : Bool
  incoming : Byte
  display : List Byte
  typed : List Byte
  scheduled : ℕ
deriving DecidableEq, Repr

namespace Console

/-- `Console::Console` (console.cc:39-60). -/
def new : Console := ⟨false, eof, [], [], 0⟩

/-- `Console::PutChar` (console.cc:142-150); `none` is the failed assertion. -/
def putChar (c : Console) (ch : Byte) : Option Console :=
  if c.putBusy then none
  else some { c with
    display := c.display ++ [ch]
    putBusy := true
    scheduled := c.scheduled + 1 }

/-- `Console::WriteDone` (console.cc:113-119) up to the call of `writeHandler`. -/
def writeDone (c : Console) : Console :=
  { c with putBusy := false, scheduled := c.scheduled - 1 }

/-- `Console::GetChar` (console.cc:127-134). -/
def getChar (c : Console) : Byte × Console := (c.incoming, { c with incoming := eof })

/-- `Console::CheckCharAvail` (console.cc:86-104) when the keyboard has the byte `key` to
offer, and whether `readHandler` is called. -/
def checkCharAvail (c : Console) (key : Option Byte) : Console × Bool :=
  match key with
  | none => (c, false)
  | some ch =>
    if c.incoming ≠ eof then (c, false)
    else ({ c with incoming := ch, typed := c.typed ++ [ch] }, true)

end Console

/-- class `SynchConsole` (synchcons.h) with the four semaphores of synchcons.cc:9-12. -/
structure SynchConsole where
  cons : Console
  synchReadAvail : Semaphore
  synchWriteAvail : Semaphore
  rLineBlock : Semaphore
  wLineBlock : Semaphore

namespace SynchConsole

/-- `SynchConsole::SynchConsole` (synchcons.cc:28-35). -/
def new : SynchConsole where
  cons := Console.new
  synchReadAvail := Semaphore.new "Synch Read Avail" 0#32
  synchWriteAvail := Semaphore.new "Synch Write Avail" 0#32
  rLineBlock := Semaphore.new "Read Synch Line Block" 1#32
  wLineBlock := Semaphore.new "Write Synch Line Block" 1#32

/-- Thread `t` is asleep inside a `P` of the console. -/
def asleep (c : SynchConsole) (t : ThreadId) : Bool :=
  c.synchReadAvail.queue.contains t || c.synchWriteAvail.queue.contains t ||
    c.rLineBlock.queue.contains t || c.wLineBlock.queue.contains t

end SynchConsole

/-- Where a thread stands in `SynchConsole::Write` (the first three) or `SynchConsole::Read`:
at the test of a `P`, at the loop test of `Write`, or between `synchReadAvail->P()` and
`GetChar`. `loop` is the loop counter. -/
inductive ConsolePc where
  | wLineBlock
  | putChar (loop : ℕ)
  | synchWriteAvail (loop : ℕ)
  | rLineBlock
  | synchReadAvail (loop : ℕ)
  | getChar (loop : ℕ)
deriving DecidableEq, Repr

/-- A call of `Write` or `Read`: the buffer `from` or `into`, the local `ch` of `Read`, and
the program point. -/
structure ConsoleCall where
  buffer : Buffer
  numBytes : ℤ
  ch : Byte
  pc : ConsolePc

/-- The bytes a `Write` is asked to send. -/
def ConsoleCall.whole (c : ConsoleCall) : List Byte := (List.range c.numBytes.toNat).map c.buffer

/-- A `Read` that has returned: its buffer, the length asked for and the value returned. -/
structure ConsoleRead where
  into : Buffer
  numBytes : ℤ
  result : ℤ

/-- The console with its callers. `failed` says that the assertion of `PutChar` has failed,
which aborts the kernel. `written` and `reads`, the buffers of the `Write`s and the results
of the `Read`s that have returned, are read by no step. -/
structure ConsoleState where
  console : SynchConsole
  calls : ThreadId → Option ConsoleCall
  failed : Bool
  written : List (List Byte)
  reads : List ConsoleRead

/-- A thread calls `Write` or `Read`, a thread inside a call runs on, the device has sent its
byte, or the keyboard is polled. -/
inductive ConsoleEvent where
  | write (t : ThreadId) (buffer : Buffer) (numBytes : ℤ)
  | read (t : ThreadId) (into : Buffer) (numBytes : ℤ) (ch : Byte)
  | run (t : ThreadId)
  | writeDone
  | poll (key : Option Byte)

namespace ConsoleState

def init : ConsoleState := ⟨SynchConsole.new, fun _ => none, false, [], []⟩

/-- Thread `t` goes on in its call at `pc`. -/
def goto (s : ConsoleState) (t : ThreadId) (c : ConsoleCall) (pc : ConsolePc) : ConsoleState :=
  { s with calls := Function.update s.calls t (some { c with pc := pc }) }

/-- The loop test of `Write` (synchcons.cc:79-86): the next byte, or the end of the call. -/
def putNext (s : ConsoleState) (t : ThreadId) (c : ConsoleCall) (loop : ℕ) : ConsoleState :=
  if (loop : ℤ) < c.numBytes then
    match s.console.cons.putChar (c.buffer loop) with
    | none => { s with failed := true }
    | some cons => { s with console.cons := cons }.goto t c (.synchWriteAvail loop)
  else
    { s with
      console.wLineBlock := s.console.wLineBlock.v.1
      calls := Function.update s.calls t none
      written := s.written ++ [c.whole] }

/-- The loop test of `Read` (synchcons.cc:111, 130-135): the next `P`, or the end of the
call. -/
def readNext (s : ConsoleState) (t : ThreadId) (c : ConsoleCall) (loop : ℕ) (eolncond : Bool) :
    ConsoleState :=
  if (loop : ℤ) < c.numBytes ∧ eolncond = false then s.goto t c (.synchReadAvail loop)
  else
    { s with
      console.rLineBlock := s.console.rLineBlock.v.1
      calls := Function.update s.calls t none
      reads := s.reads ++ [⟨c.buffer, c.numBytes, if c.ch = 0x01#8 then -1 else loop⟩] }

/-- What `Read` does with the byte `GetChar` gave it (synchcons.cc:116-127). -/
def storeChar (s : ConsoleState) (t : ThreadId) (c : ConsoleCall) (loop : ℕ) : ConsoleState :=
  if c.ch = eof then s.goto t c (.synchReadAvail loop)
  else if c.ch = 0x0A#8 ∨ c.ch = 0x01#8 then s.readNext t c loop true
  else s.readNext t { c with buffer := Function.update c.buffer loop c.ch } (loop + 1) false

/-- Thread `t`, inside the call `c` and awake, runs to its next program point. -/
def resume (s : ConsoleState) (t : ThreadId) (c : ConsoleCall) : ConsoleState :=
  match c.pc with
  | .wLineBlock =>
    match s.console.wLineBlock.p t with
    | (sem, true) => { s with console.wLineBlock := sem }.goto t c (.putChar 0)
    | (sem, false) => { s with console.wLineBlock := sem }
  | .putChar loop => s.putNext t c loop
  | .synchWriteAvail loop =>
    match s.console.synchWriteAvail.p t with
    | (sem, true) => { s with console.synchWriteAvail := sem }.goto t c (.putChar (loop + 1))
    | (sem, false) => { s with console.synchWriteAvail := sem }
  | .rLineBlock =>
    match s.console.rLineBlock.p t with
    | (sem, true) => { s with console.rLineBlock := sem }.readNext t c 0 false
    | (sem, false) => { s with console.rLineBlock := sem }
  | .synchReadAvail loop =>
    match s.console.synchReadAvail.p t with
    | (sem, true) => { s with console.synchReadAvail := sem }.goto t c (.getChar loop)
    | (sem, false) => { s with console.synchReadAvail := sem }
  | .getChar loop =>
    { s with console.cons := s.console.cons.getChar.2 }.storeChar t
      { c with ch := s.console.cons.getChar.1 } loop

/-- One step. Nothing runs after a failed assertion, a thread inside a call makes no other,
and a thread asleep does not run. -/
def step (s : ConsoleState) (e : ConsoleEvent) : Option ConsoleState :=
  if s.failed then none
  else match e with
    | .write t buffer numBytes =>
      if (s.calls t).isSome then none
      else some (s.goto t ⟨buffer, numBytes, 0#8, .wLineBlock⟩ .wLineBlock)
    | .read t into numBytes ch =>
      if (s.calls t).isSome then none
      -- the first loop of `Read` clears the buffer (synchcons.cc:102-103)
      else some (s.goto t
        ⟨fun k => if (k : ℤ) < numBytes then 0#8 else into k, numBytes, ch, .rLineBlock⟩ .rLineBlock)
    | .run t =>
      if s.console.asleep t then none
      else (s.calls t).map (s.resume t)
    | .writeDone =>
      -- `SynchWriteFunct` is the write handler (synchcons.cc:20)
      if s.console.cons.scheduled = 0 then none
      else some { s with
        console.cons := s.console.cons.writeDone
        console.synchWriteAvail := s.console.synchWriteAvail.v.1 }
    | .poll key =>
      -- `SynchReadFunct` is the read handler (synchcons.cc:19)
      match s.console.cons.checkCharAvail key with
      | (cons, false) => some { s with console.cons := cons }
      | (cons, true) => some { s with
          console.cons := cons
          console.synchReadAvail := s.console.synchReadAvail.v.1 }

end ConsoleState

end Nachos.Model
