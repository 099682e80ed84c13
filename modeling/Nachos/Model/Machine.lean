import Nachos.Model.Disk

/-!
# Memory and address translation (machine/machine.h, machine/translate.cc)

`mainMemory` is a pointer to `MemorySize` bytes. The kernel computes addresses relative
to it that need not stay inside, so memory is read and written here at any offset from
that pointer.

`translate` goes through the page table or, in a build with `USE_TLB`, through the TLB.
`none` is a failed `ASSERT`, which aborts the simulator; an exception of the simulated
machine is a value. The host is little endian, so `WordToHost` and its relatives are the
identity.
-/

set_option autoImplicit false

namespace Nachos.Model

/-- `PageSize` (machine.h:31). -/
def pageSize : ℕ := sectorSize

/-- `NumPhysPages` (machine.h:35). -/
def numPhysPages : ℕ := 320

/-- `MemorySize` (machine.h:36). -/
def memorySize : ℕ := numPhysPages * pageSize

/-- Bytes by their offset from `mainMemory`. -/
abbrev Memory : Type := ℤ → Byte

/-- `ExceptionType` (machine.h:39-53) without `NoException`, which is success. -/
inductive ExceptionType where
  | syscallException
  | pageFaultException
  | readOnlyException
  | busErrorException
  | addressErrorException
  | overflowException
  | illegalInstrException
  deriving DecidableEq, Repr

/-- class `TranslationEntry` (translate.h:30-43). -/
structure TranslationEntry where
  virtualPage : ℤ
  physicalPage : ℤ
  valid : Bool
  readOnly : Bool
  use : Bool
  dirty : Bool
  deriving DecidableEq, Repr

namespace Memory

/-- `bzero(&mainMemory[start], n)`. -/
def bzero (mem : Memory) (start : ℤ) (n : ℤ) : Memory := fun x =>
  if start ≤ x ∧ x < start + n then 0#8 else mem x

/-- The `n` bytes from `start` on, combined little endian, as a host word. -/
def load (mem : Memory) (start : ℤ) : ℕ → BitVec 32
  | 0 => 0#32
  | n + 1 => (load mem (start + 1) n) <<< 8 ||| (mem start).zeroExtend 32

/-- The low `n` bytes of `value` at `start`, the lowest first. -/
def store (mem : Memory) (start : ℤ) (n : ℕ) (value : BitVec 32) : Memory := fun x =>
  if start ≤ x ∧ x < start + n then value.extractLsb' (8 * (x - start).toNat) 8 else mem x

end Memory

/-- The part of class `Machine` that translation uses (machine.h:156-183). A table is
`none` when its pointer is `NULL`; `pageTableSize` is the length of the page table. -/
structure Machine where
  mainMemory : Memory
  tlb : Option (List TranslationEntry)
  pageTable : Option (List TranslationEntry)

namespace Machine

/-- `Machine::Translate` once it has the entry (translate.cc:236-254): the physical
address and the entry with its `use` and `dirty` bits set. -/
def useEntry (entry : TranslationEntry) (offset size : ℕ) (writing : Bool) :
    Option (Except ExceptionType (ℕ × TranslationEntry)) :=
  if entry.readOnly && writing then some (.error .readOnlyException)
  else
    let pageFrame := (entry.physicalPage % 2 ^ 32).toNat
    if pageFrame ≥ numPhysPages then some (.error .busErrorException)
    else
      let physAddr := pageFrame * pageSize + offset
      if physAddr + size ≤ memorySize then
        some (.ok (physAddr, { entry with use := true, dirty := entry.dirty || writing }))
      else none

/-- The alignment test (translate.cc:197). -/
def misaligned (virtAddr : BitVec 32) (size : ℕ) : Bool :=
  (size == 4 && virtAddr &&& 3#32 != 0#32) || (size == 2 && virtAddr &&& 1#32 != 0#32)

/-- `Machine::Translate` (translate.cc:186-255). -/
def translate (m : Machine) (virtAddr : BitVec 32) (size : ℕ) (writing : Bool) :
    Option (Except ExceptionType (ℕ × Machine)) :=
  if misaligned virtAddr size then some (.error .addressErrorException)
  else
    let vpn := virtAddr.toNat / pageSize
    let offset := virtAddr.toNat % pageSize
    match m.tlb, m.pageTable with
    | none, some table =>
      match table[vpn]? with
      | none => some (.error .addressErrorException)
      | some entry =>
        if !entry.valid then some (.error .pageFaultException)
        else match useEntry entry offset size writing with
          | none => none
          | some (.error e) => some (.error e)
          | some (.ok (physAddr, entry')) =>
            some (.ok (physAddr, { m with pageTable := some (table.set vpn entry') }))
    | some tlb, none =>
      match tlb.findIdx? (fun e => e.valid && e.virtualPage % 2 ^ 32 == (vpn : ℤ)) with
      | none => some (.error .pageFaultException)
      | some i =>
        match tlb[i]? with
        | none => none
        | some entry =>
          match useEntry entry offset size writing with
          | none => none
          | some (.error e) => some (.error e)
          | some (.ok (physAddr, entry')) =>
            some (.ok (physAddr, { m with tlb := some (tlb.set i entry') }))
    | _, _ => none

/-- What `ReadMem` puts in `*value` (translate.cc:101-118). A single byte goes through a
`char`, so it is sign extended; two bytes go through an `unsigned short`. -/
def loadValue (mem : Memory) (physicalAddress : ℕ) : ℕ → Option (BitVec 32)
  | 1 => some ((mem physicalAddress).signExtend 32)
  | 2 => some (mem.load physicalAddress 2)
  | 4 => some (mem.load physicalAddress 4)
  | _ => none

/-- `Machine::ReadMem` (translate.cc:87-122). -/
def readMem (m : Machine) (addr : BitVec 32) (size : ℕ) :
    Option (Except ExceptionType (BitVec 32 × Machine)) :=
  match m.translate addr size false with
  | none => none
  | some (.error e) => some (.error e)
  | some (.ok (physicalAddress, m')) =>
    match loadValue m'.mainMemory physicalAddress size with
    | none => none
    | some value => some (.ok (value, m'))

/-- `Machine::WriteMem` (translate.cc:137-169). -/
def writeMem (m : Machine) (addr : BitVec 32) (size : ℕ) (value : BitVec 32) :
    Option (Except ExceptionType Machine) :=
  match m.translate addr size true with
  | none => none
  | some (.error e) => some (.error e)
  | some (.ok (physicalAddress, m')) =>
    if size = 1 ∨ size = 2 ∨ size = 4 then
      some (.ok { m' with mainMemory := m'.mainMemory.store physicalAddress size value })
    else none

end Machine

end Nachos.Model
