import Nachos.Model.BitMap
import Nachos.Model.Machine
import Nachos.Model.Utility

/-!
# Address spaces (userprog/addrspace.cc)

The two constructors of class `AddrSpace`, its destructor, and the system they make
together with the machine: a page map, a memory, and the spaces that are alive.

An executable is what the constructors see of an open file: the `NoffHeader` that the
first `ReadAt` leaves in `noffH`, and the bytes that the later ones copy. Sizes and
addresses of the header are `int`s of the file, so they are 32-bit words here and the
arithmetic on them wraps as the C types make it. `none` is an abort: a failed `ASSERT`
(`Lseek` asserts that the position is not negative), or an access past the end of the
page table.
-/

set_option autoImplicit false

namespace Nachos.Model

/-- `UserStackSize` (addrspace.h:19). -/
def userStackSize : ℕ := 1024

/-- `NOFFMAGIC` (noff.h:8). -/
def noffMagicNumber : BitVec 32 := 0xbadfad#32

/-- `struct segment` (noff.h:12-16). -/
structure Segment where
  virtualAddr : BitVec 32
  inFileAddr : BitVec 32
  size : BitVec 32
  deriving DecidableEq, Repr

/-- `struct noffHeader` (noff.h:18-25). -/
structure NoffHeader where
  noffMagic : BitVec 32
  code : Segment
  initData : Segment
  uninitData : Segment
  deriving DecidableEq, Repr

/-- An open executable. The header is not tied to the contents: a file that is too short
leaves part of `noffH` with what the stack held. -/
structure Executable where
  noffH : NoffHeader
  contents : List Byte

/-- `OpenFile::ReadAt` (openfile.h:37-40) into `mainMemory + into`: as many of the
`numBytes` bytes at `position` as the file has. -/
def Executable.readAt (executable : Executable) (mem : Memory) (into numBytes position : ℤ) :
    Option Memory :=
  if position < 0 then none
  else some fun x =>
    if into ≤ x ∧ x < into + numBytes then
      (executable.contents[(position + (x - into)).toNat]?).getD (mem x)
    else mem x

/-- class `AddrSpace` (addrspace.h:21-40); `numPages` is the length of the page table. -/
structure AddrSpace where
  pageTable : List TranslationEntry

namespace AddrSpace

/-- `numPages` (addrspace.h:38). -/
def numPages (a : AddrSpace) : ℕ := a.pageTable.length

/-- The frames of the page table, in the order of the pages. -/
def frames (a : AddrSpace) : List ℤ := a.pageTable.map TranslationEntry.physicalPage

/-- The `size` both constructors start from (addrspace.cc:75-76, 145). -/
def headerSize (noffH : NoffHeader) : ℕ :=
  (noffH.code.size + noffH.initData.size + noffH.uninitData.size +
    BitVec.ofNat 32 userStackSize).toNat

/-- The loop over the pages of both constructors (addrspace.cc:91-101, 159-169), from page
`i` on with `n` pages left. What the loop does with a page it has just taken is
`clearPage`. -/
def allocPages (clearPage : ℤ → Memory → Memory) :
    ℕ → ℕ → BitMap → Memory → Option (List TranslationEntry × BitMap × Memory)
  | _, 0, b, mem => some ([], b, mem)
  | i, n + 1, b, mem => do
    let (page, b₁) ← b.find
    let b₂ ← b₁.mark page
    let (rest, b₃, mem') ← allocPages clearPage (i + 1) n b₂ (clearPage page mem)
    return (⟨i, page, true, false, false, false⟩ :: rest, b₃, mem')

/-- One segment to its own address in `mainMemory` (addrspace.cc:108-113, 114-119). -/
def copySegment (executable : Executable) (segment : Segment) (mem : Memory) : Option Memory :=
  if segment.size.toInt > 0 then
    executable.readAt mem segment.virtualAddr.toInt segment.size.toInt segment.inFileAddr.toInt
  else some mem

/-- `AddrSpace::AddrSpace(OpenFile *executable)` (addrspace.cc:63-121). It zeroes and
fills memory as if page `i` were in frame `i`. -/
def newOpenFile (executable : Executable) (b : BitMap) (mem : Memory) :
    Option (AddrSpace × BitMap × Memory) :=
  let noffH := executable.noffH
  let numPages := divRoundUp (headerSize noffH) pageSize
  if noffH.noffMagic ≠ noffMagicNumber then none
  else do
    let free ← b.numClear
    if numPages ≤ free then
      let (table, b', mem₁) ← allocPages (fun _ mem => mem) 0 numPages b mem
      let mem₂ := mem₁.bzero 0 (toUInt32 (numPages * pageSize))
      let mem₃ ← copySegment executable noffH.code mem₂
      let mem₄ ← copySegment executable noffH.initData mem₃
      return (⟨table⟩, b', mem₄)
    else none

/-- The two copying loops of `AddrSpace(char*)` (addrspace.cc:188-192, 201-206): `k` counts
the pages of the loop done, `n` those left, and the page copied is entry `i + k` of the
table. All pages but the last one are full. -/
def copyPages (executable : Executable) (table : List TranslationEntry) (virtualAddr : ℤ) (i : ℕ)
    (lastPageSize position : ℤ) : ℕ → ℕ → Memory → Option Memory
  | _, 0, mem => some mem
  | k, n + 1, mem => do
    let entry ← table[i + k]?
    let mem' ← executable.readAt mem (virtualAddr + entry.physicalPage * pageSize)
      (if n = 0 then lastPageSize else pageSize) (toInt32 (position + k * pageSize))
    copyPages executable table virtualAddr i lastPageSize position (k + 1) n mem'

/-- How the data segment continues in the pages (addrspace.cc:176-186): `numDataPage`,
`lastDataPageSize` and `firstDataPageSize`. Without a data page of its own the segment
leaves `lastDataPageSize` unset, and nothing reads it. -/
def dataPages (noffH : NoffHeader) (lastCodePageSize : ℤ) : ℤ × ℤ × ℤ :=
  let tempDataSize := toInt32 (noffH.initData.size.toInt - (pageSize - lastCodePageSize))
  if tempDataSize < 0 then (0, 0, noffH.initData.size.toInt)
  else
    let numDataPage := toUInt32 (divRoundUpInt tempDataSize pageSize)
    (numDataPage, toInt32 (tempDataSize - (numDataPage - 1) * pageSize),
      toInt32 (pageSize - lastCodePageSize))

/-- The beginning of the data on the last code page (addrspace.cc:194-199). -/
def copyShared (executable : Executable) (table : List TranslationEntry)
    (numCodePage lastCodePageSize firstDataPageSize : ℤ) (mem : Memory) : Option Memory :=
  if lastCodePageSize < pageSize ∧ firstDataPageSize > 0 then do
    let entry ← table[(toUInt32 (numCodePage - 1)).toNat]?
    executable.readAt mem (executable.noffH.code.virtualAddr.toInt +
        (entry.physicalPage * pageSize + lastCodePageSize))
      firstDataPageSize executable.noffH.initData.inFileAddr.toInt
  else some mem

/-- `AddrSpace(char*)` after the page table is set up (addrspace.cc:173-206): the code
page by page, the part of the data that shares the last code page, and the rest of the
data page by page. -/
def copySegments (executable : Executable) (table : List TranslationEntry) (mem : Memory) :
    Option Memory := do
  let noffH := executable.noffH
  let virtualAddr := noffH.code.virtualAddr.toInt
  let numCodePage := toUInt32 (divRoundUpInt noffH.code.size.toInt pageSize)
  let lastCodePageSize := toInt32 (noffH.code.size.toInt - (numCodePage - 1) * pageSize)
  let (numDataPage, lastDataPageSize, firstDataPageSize) := dataPages noffH lastCodePageSize
  let mem₁ ← copyPages executable table virtualAddr 0 lastCodePageSize
    noffH.code.inFileAddr.toInt 0 numCodePage.toNat mem
  let mem₂ ← copyShared executable table numCodePage lastCodePageSize firstDataPageSize mem₁
  copyPages executable table virtualAddr numCodePage.toNat lastDataPageSize
    (noffH.initData.inFileAddr.toInt + firstDataPageSize) 0 numDataPage.toNat mem₂

/-- `AddrSpace::AddrSpace(char *filename)` (addrspace.cc:123-210), where `file` is what
`fileSystem->Open` returns. When it does not open, the object keeps what its memory held,
`uninit`. When there are not enough free pages the object has no page. -/
def newFilename (uninit : AddrSpace) (file : Option Executable) (b : BitMap) (mem : Memory) :
    Option (AddrSpace × BitMap × Memory) :=
  match file with
  | none => some (uninit, b, mem)
  | some executable =>
    let numPages := divRoundUp (headerSize executable.noffH) pageSize
    if executable.noffH.noffMagic ≠ noffMagicNumber then none
    else do
      let free ← b.numClear
      if numPages > free then return (⟨[]⟩, b, mem)
      else
        let (table, b', mem₁) ←
          allocPages (fun page mem => mem.bzero (page * pageSize) pageSize) 0 numPages b mem
        let mem₂ ← copySegments executable table mem₁
        return (⟨table⟩, b', mem₂)

/-- The loop of the destructor over the rest of the page table. -/
def clearPages : List TranslationEntry → BitMap → Option BitMap
  | [], b => some b
  | entry :: rest, b => do
    let b' ← b.clear entry.physicalPage
    clearPages rest b'

/-- `AddrSpace::~AddrSpace` (addrspace.cc:217-221). -/
def delete (a : AddrSpace) (b : BitMap) : Option BitMap := clearPages a.pageTable b

end AddrSpace

/-! ## The spaces of a running kernel -/

/-- Names the address space objects, as their addresses do. -/
abbrev SpaceId : Type := ℕ

/-- Memory, page map and the spaces that are alive. -/
structure SpaceState where
  mainMemory : Memory
  gPhysPageBitMap : BitMap
  spaces : SpaceId → Option AddrSpace

/-- Construction by either constructor, destruction, and an access of user memory with
the page table of a space installed. -/
inductive SpaceEvent where
  | newOpenFile (id : SpaceId) (executable : Executable)
  | newFilename (id : SpaceId) (file : Option Executable) (uninit : AddrSpace)
  | delete (id : SpaceId)
  | readMem (id : SpaceId) (addr : BitVec 32) (size : ℕ)
  | writeMem (id : SpaceId) (addr : BitVec 32) (size : ℕ) (value : BitVec 32)

namespace SpaceState

/-- Before the first space: any memory, and the page map of system.cc:130. -/
def init (mem : Memory) (b : BitMap) : SpaceState := ⟨mem, b, fun _ => none⟩

/-- A new space under the name `id`, with the page map and the memory its constructor
leaves. -/
def construct (s : SpaceState) (id : SpaceId) (r : AddrSpace × BitMap × Memory) : SpaceState :=
  ⟨r.2.2, r.2.1, Function.update s.spaces id (some r.1)⟩

/-- `AddrSpace::RestoreState` (addrspace.cc:274-278): the machine with the page table of
`a`. -/
def restoreState (s : SpaceState) (a : AddrSpace) : Machine :=
  ⟨s.mainMemory, none, some a.pageTable⟩

/-- The machine works on the space's own page table, so the bits it sets stay there. -/
def saveMachine (s : SpaceState) (id : SpaceId) (m : Machine) : SpaceState :=
  { s with
    mainMemory := m.mainMemory
    spaces := Function.update s.spaces id (m.pageTable.map AddrSpace.mk) }

/-- One step. A space is constructed under a name not in use and destroyed or installed
under its own; a memory access that faults changes nothing. -/
def step (s : SpaceState) : SpaceEvent → Option SpaceState
  | .newOpenFile id executable =>
    match s.spaces id with
    | some _ => none
    | none => (AddrSpace.newOpenFile executable s.gPhysPageBitMap s.mainMemory).map (s.construct id)
  | .newFilename id file uninit =>
    match s.spaces id with
    | some _ => none
    | none => (AddrSpace.newFilename uninit file s.gPhysPageBitMap s.mainMemory).map (s.construct id)
  | .delete id =>
    match s.spaces id with
    | none => none
    | some a => (a.delete s.gPhysPageBitMap).map fun b =>
        { s with gPhysPageBitMap := b, spaces := Function.update s.spaces id none }
  | .readMem id addr size =>
    match s.spaces id with
    | none => none
    | some a => (((s.restoreState a).readMem addr size)).map fun
        | .error _ => s
        | .ok (_, m) => s.saveMachine id m
  | .writeMem id addr size value =>
    match s.spaces id with
    | none => none
    | some a => ((s.restoreState a).writeMem addr size value).map fun
        | .error _ => s
        | .ok m => s.saveMachine id m

end SpaceState

end Nachos.Model
