import Nachos.Model.Machine
import Nachos.Model.OpenFile

/-!
# Copies between the kernel and the user (userprog/exception.cc:6-33)

Both copies go byte by byte through `ReadMem` and `WriteMem` and stop behind a zero byte. An
exception of the machine raised there goes to `ExceptionHandler`, which asserts `FALSE` for all
exceptions but system calls (exception.cc:493-531): it is an abort, `none`, like the request of a
buffer whose size is negative.
-/

set_option autoImplicit false

namespace Nachos.Model

namespace Machine

/-- `new char[size]` for an `int` expression `size`: a negative one is an enormous `size_t`. -/
def allocates (size : ℤ) : Bool := 0 ≤ toInt32 size

/-- The loop of `User2System` (exception.cc:13-17) from byte `i` on, with `n` left. `ReadMem` puts
the byte into an `int`. -/
def user2SystemFrom (virtAddr : BitVec 32) : ℕ → ℕ → Machine → Buffer → Option (Buffer × Machine)
  | _, 0, m, kernelBuf => some (kernelBuf, m)
  | i, n + 1, m, kernelBuf =>
    match m.readMem (virtAddr + BitVec.ofNat 32 i) 1 with
    | some (.ok (oneChar, m')) =>
      let kernelBuf' := Function.update kernelBuf i (oneChar.setWidth 8)
      if oneChar = 0#32 then some (kernelBuf', m')
      else user2SystemFrom virtAddr (i + 1) n m' kernelBuf'
    | _ => none

/-- `User2System` (exception.cc:6-19). -/
def user2System (m : Machine) (virtAddr : BitVec 32) (limit : ℤ) : Option (Buffer × Machine) :=
  if allocates (limit + 1) then user2SystemFrom virtAddr 0 limit.toNat m fun _ => 0#8 else none

/-- The loop of `System2User` (exception.cc:27-31) from byte `i` on, with `n` left. -/
def system2UserFrom (virtAddr : BitVec 32) (buffer : Buffer) : ℕ → ℕ → Machine → Option (ℤ × Machine)
  | i, 0, m => some (i, m)
  | i, n + 1, m =>
    let oneChar := (buffer i).signExtend 32
    match m.writeMem (virtAddr + BitVec.ofNat 32 i) 1 oneChar with
    | some (.ok m') =>
      if oneChar = 0#32 then some (↑(i + 1), m')
      else system2UserFrom virtAddr buffer (i + 1) n m'
    | _ => none

/-- `System2User` (exception.cc:22-33). -/
def system2User (m : Machine) (virtAddr : BitVec 32) (len : ℤ) (buffer : Buffer) :
    Option (ℤ × Machine) :=
  if len < 0 then some (-1, m)
  else if len = 0 then some (0, m)
  else system2UserFrom virtAddr buffer 0 len.toNat m

end Machine

end Nachos.Model
