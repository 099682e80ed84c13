import Nachos.Model.SynchConsole
import Nachos.Model.UserCopy
import Nachos.Model.UserProcesses

/-!
# The console system calls (userprog/exception.cc:62-155)

One call at a time, seen from the thread that makes it: `typed` are the bytes the keyboard has for
it, in their order, and `display` those that have been sent. `SynchConsole::Read` waits for each
byte it takes and `SynchConsole::Write` for each byte it sends; how they do this among other
threads is `Nachos.Model.SynchConsole`.

`none` is a call that does not come back, waiting for a byte that is not typed, or an access that
is not defined, such as a store behind a buffer. `Finish` says how a call ends that does.
-/

set_option autoImplicit false

namespace Nachos.Model

/-- The console of one thread. -/
structure Terminal where
  typed : List Byte
  display : List Byte
deriving DecidableEq, Repr

namespace Terminal

/-- What `SynchConsole::Read` returns when `ch` is the last byte it has taken (synchcons.cc:132-135). -/
def readResult (ch : Byte) (loop : ℕ) : ℤ := if ch = 0x01#8 then -1 else loop

/-- The loop of `SynchConsole::Read` (synchcons.cc:111-128) with `loop` bytes in the buffer: the
result, the buffer and the bytes that are left. -/
def readFrom (numBytes : ℤ) : List Byte → ℕ → Buffer → Byte → Option (ℤ × Buffer × List Byte)
  | [], loop, into, ch =>
    if (loop : ℤ) < numBytes then none else some (readResult ch loop, into, [])
  | c :: rest, loop, into, ch =>
    if (loop : ℤ) < numBytes then
      if c = eof then readFrom numBytes rest loop into c
      else if c = 0x0A#8 ∨ c = 0x01#8 then some (readResult c loop, into, rest)
      else readFrom numBytes rest (loop + 1) (Function.update into loop c) c
    else some (readResult ch loop, into, c :: rest)

/-- `SynchConsole::Read` (synchcons.cc:95-136); `ch` is what its local variable holds. -/
def read (t : Terminal) (into : Buffer) (numBytes : ℤ) (ch : Byte) : Option (ℤ × Buffer × Terminal) :=
  (readFrom numBytes t.typed 0 (fun k => if (k : ℤ) < numBytes then 0#8 else into k) ch).map
    fun r => (r.1, r.2.1, { t with typed := r.2.2 })

/-- `SynchConsole::Write` (synchcons.cc:71-87). -/
def write (t : Terminal) (src : Buffer) (numBytes : ℤ) : Terminal :=
  { t with display := t.display ++ (List.range numBytes.toNat).map src }

/-! ## Numbers -/

/-- `'0'`. -/
def zeroChar : ℤ := 0x30

/-- `'-'`. -/
def minusChar : Byte := 0x2D#8

/-- The loop of `SC_ReadNum` (exception.cc:72-80) from `num[i]` on, with `n` left; `none` is its
exit for a character that is no digit. A `char` is signed. -/
def parseFrom (num : Buffer) : ℕ → ℕ → ℤ → Option ℤ
  | _, 0, ans => some ans
  | i, n + 1, ans =>
    if (num i).toInt ≥ zeroChar ∧ (num i).toInt ≤ 0x39 then
      parseFrom num (i + 1) n (toInt32 (ans * 10 + ((num i).toInt - zeroChar)))
    else none

/-- `SC_ReadNum` (exception.cc:62-85); `num` is what the new buffer holds. -/
def readNum (t : Terminal) (num : Buffer) (ch : Byte) : Option (Finish × Terminal) :=
  match t.read num 9 ch with
  | none => none
  | some (leng, num, t) =>
    if leng = -1 then some (.halt, t)
    else if leng = 0 then some (.silent, t)
    else
      let i := if num 0 = minusChar then 1 else 0
      match parseFrom num i (leng.toNat - i) 0 with
      | none => some (.halt, t)
      | some ans => some (.result (if num 0 = minusChar then toInt32 (-ans) else ans), t)

/-- `out[i] = c` for the ten bytes of `out`. -/
def storeOut (out : Buffer) (i : ℕ) (c : Byte) : Option Buffer :=
  if i < 10 then some (Function.update out i c) else none

/-- The digits of `SC_PrintNum` (exception.cc:98-101), the last one first. -/
def digitsFrom (num leng : ℕ) (out : Buffer) : Option (ℕ × Buffer) :=
  if num > 0 then
    match storeOut out leng (BitVec.ofInt 8 (num % 10 + zeroChar)) with
    | none => none
    | some out => digitsFrom (num / 10) (leng + 1) out
  else some (leng, out)
termination_by num
decreasing_by omega

/-- The reversal (exception.cc:104-108) from `i` on, with `n` swaps left. -/
def reverseFrom (leng : ℕ) : ℕ → ℕ → Buffer → Buffer
  | _, 0, out => out
  | i, n + 1, out =>
    reverseFrom leng (i + 1) n
      (Function.update (Function.update out i (out (leng - i - 1))) (leng - i - 1) (out i))

/-- `SC_PrintNum` (exception.cc:86-113). -/
def printNum (t : Terminal) (num : BitVec 32) : Option Terminal :=
  let out : Buffer := fun _ => 0#8
  if num.toInt = 0 then some (t.write (Function.update out 0 (BitVec.ofInt 8 zeroChar)) 1)
  else
    let sign : ℤ := if num.toInt > 0 then 1 else -1
    match digitsFrom (toInt32 (num.toInt * sign)).toNat 0 out with
    | none => none
    | some (leng, out) =>
      let signed := if sign = -1 then (storeOut out leng minusChar).map fun out => (leng + 1, out)
        else some (leng, out)
      signed.map fun r => t.write (reverseFrom r.1 0 (r.1 / 2) r.2) r.1

/-! ## Characters and strings -/

/-- `SC_ReadChar` (exception.cc:114-124); `into` is the memory of the local variable. -/
def readChar (t : Terminal) (into : Buffer) (ch : Byte) : Option (Finish × Terminal) :=
  match t.read into 1 ch with
  | none => none
  | some (ok, into, t) =>
    if ok = -1 then some (.halt, t)
    else if ok = 0 then some (.silent, t)
    else some (.result (into 0).toInt, t)

/-- `SC_PrintChar` (exception.cc:125-129). -/
def printChar (t : Terminal) (character : BitVec 32) : Terminal :=
  t.write (fun _ => character.setWidth 8) 1

/-- `SC_ReadString` (exception.cc:130-148); `string` is what the new buffer holds. -/
def readString (t : Terminal) (m : Machine) (virtAddr leng : BitVec 32) (string : Buffer) (ch : Byte) :
    Option (Finish × Terminal × Machine) :=
  if leng.toInt ≤ 0 then some (.halt, t, m)
  else if !Machine.allocates (leng.toInt + 1) then none
  else match t.read string leng.toInt ch with
    | none => none
    | some (ok, string, t) =>
      if ok = -1 then some (.halt, t, m)
      else if ok = 0 then some (.silent, t, m)
      else (m.system2User virtAddr (leng.toInt + 1) (Function.update string ok.toNat 0#8)).map
        fun r => (.silent, t, r.2)

/-- `SC_PrintString` (exception.cc:149-155). -/
def printString (t : Terminal) (m : Machine) (virtAddr : BitVec 32) : Option (Terminal × Machine) :=
  (m.user2System virtAddr 255).map fun r => (t.write r.1 255, r.2)

end Terminal

end Nachos.Model
