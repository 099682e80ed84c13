import Nachos.Model.Machine

/-!
# `Translate`, `ReadMem` and `WriteMem` with their assignments (machine/translate.cc)

`Nachos.Model.Machine` gives the machine after an access that succeeds. Here the machine is passed
through every statement, so that an access that fails leaves it as the statements before the failure
have left it: `entry` is a pointer into one of the tables, and the two assignments to its bits stand
where the source has them. `none` is a failed assertion.
-/

set_option autoImplicit false

namespace Nachos.Model

/-- `TranslationEntry *entry`: `&pageTable[vpn]` or `&tlb[i]`. -/
inductive EntryRef where
  | page (vpn : ℕ)
  | tlb (i : ℕ)
deriving DecidableEq, Repr

/-- The sizes of `ReadMem` and `WriteMem`. -/
inductive AccessSize where
  | byte
  | half
  | word
deriving DecidableEq, Repr

/-- The number of bytes. -/
def AccessSize.bytes : AccessSize → ℕ
  | .byte => 1
  | .half => 2
  | .word => 4

/-- A call of `ReadMem` or `WriteMem`. -/
inductive MemCall where
  | read (addr : BitVec 32) (size : AccessSize)
  | write (addr : BitVec 32) (size : AccessSize) (value : BitVec 32)
deriving DecidableEq, Repr

/-- What a call does for its caller: it puts a value into `*value`, it stores one, or it calls
`RaiseException` and returns `FALSE`. -/
inductive MemAnswer where
  | value (v : BitVec 32)
  | stored
  | fault (e : ExceptionType)
deriving DecidableEq, Repr

namespace Machine

/-- `*entry`. -/
def entryAt (m : Machine) : EntryRef → Option TranslationEntry
  | .page vpn => m.pageTable.bind fun table => table[vpn]?
  | .tlb i => m.tlb.bind fun table => table[i]?

/-- An assignment through `entry`. -/
def setEntry (m : Machine) (f : TranslationEntry → TranslationEntry) : EntryRef → Machine
  | .page vpn => { m with pageTable := m.pageTable.map fun table => table.modify vpn f }
  | .tlb i => { m with tlb := m.tlb.map fun table => table.modify i f }

/-- The lookup of the entry (translate.cc:213-234). -/
def findEntry (m : Machine) (vpn : ℕ) : Except ExceptionType EntryRef :=
  match m.tlb with
  | none =>
    match m.entryAt (.page vpn) with
    | none => .error .addressErrorException
    | some entry => if !entry.valid then .error .pageFaultException else .ok (.page vpn)
  | some tlb =>
    match tlb.findIdx? (fun e => e.valid && e.virtualPage % 2 ^ 32 == (vpn : ℤ)) with
    | none => .error .pageFaultException
    | some i => .ok (.tlb i)

/-- `Machine::Translate` (translate.cc:186-255): the exception or the physical address, and the
machine. -/
def translateInPlace (m : Machine) (virtAddr : BitVec 32) (size : ℕ) (writing : Bool) :
    Option (Except ExceptionType ℕ × Machine) :=
  if misaligned virtAddr size then some (.error .addressErrorException, m)
  else if m.tlb.isSome && m.pageTable.isSome then none
  else if m.tlb.isNone && m.pageTable.isNone then none
  else
    let vpn := virtAddr.toNat / pageSize
    let offset := virtAddr.toNat % pageSize
    match m.findEntry vpn with
    | .error e => some (.error e, m)
    | .ok ref =>
      match m.entryAt ref with
      | none => none
      | some entry =>
        if entry.readOnly && writing then some (.error .readOnlyException, m)
        else
          let pageFrame := (entry.physicalPage % 2 ^ 32).toNat
          if pageFrame ≥ numPhysPages then some (.error .busErrorException, m)
          else
            let m₁ := m.setEntry (fun e => { e with use := true }) ref
            let m₂ := if writing then m₁.setEntry (fun e => { e with dirty := true }) ref else m₁
            let physAddr := pageFrame * pageSize + offset
            if physAddr + size ≤ memorySize then some (.ok physAddr, m₂) else none

/-- `Machine::ReadMem` (translate.cc:87-122) up to the call of `RaiseException`. -/
def readMemInPlace (m : Machine) (addr : BitVec 32) (size : ℕ) :
    Option (Except ExceptionType (BitVec 32) × Machine) :=
  match m.translateInPlace addr size false with
  | none => none
  | some (.error e, m') => some (.error e, m')
  | some (.ok physicalAddress, m') =>
    match loadValue m'.mainMemory physicalAddress size with
    | none => none
    | some value => some (.ok value, m')

/-- `Machine::WriteMem` (translate.cc:137-169) up to the call of `RaiseException`. -/
def writeMemInPlace (m : Machine) (addr : BitVec 32) (size : ℕ) (value : BitVec 32) :
    Option (Except ExceptionType Unit × Machine) :=
  match m.translateInPlace addr size true with
  | none => none
  | some (.error e, m') => some (.error e, m')
  | some (.ok physicalAddress, m') =>
    if size = 1 ∨ size = 2 ∨ size = 4 then
      some (.ok (), { m' with mainMemory := m'.mainMemory.store physicalAddress size value })
    else none

/-- One call. -/
def access (m : Machine) : MemCall → Option (MemAnswer × Machine)
  | .read addr size =>
    match m.readMemInPlace addr size.bytes with
    | none => none
    | some (.error e, m') => some (.fault e, m')
    | some (.ok value, m') => some (.value value, m')
  | .write addr size value =>
    match m.writeMemInPlace addr size.bytes value with
    | none => none
    | some (.error e, m') => some (.fault e, m')
    | some (.ok (), m') => some (.stored, m')

end Machine

end Nachos.Model
