import Nachos.Library.LittleEndian
import Nachos.Model.BitMap
import Nachos.Model.Disk
import Nachos.Model.Utility

/-!
# File headers and open files (filesys/filehdr.cc, filesys/openfile.cc)

A header fills one sector: `numBytes`, `numSectors` and `NumDirect` sector numbers, all
`int`s. An open file keeps its header in memory and reads and writes the data sectors
through it.

A buffer is the memory from a `char *` on. `none` is an abort or an access that is not
defined: a failed `ASSERT`, a sector outside the disk, an index past `dataSectors`, or a
copy past the end of `buf`.
-/

set_option autoImplicit false

namespace Nachos.Model

open Nachos.Library

/-- The memory from a `char *` on. -/
abbrev Buffer : Type := ℕ → Byte

/-- `NumDirect` (filehdr.h:20), with `sizeof(int) = 4`. -/
def numDirect : ℕ := (sectorSize - 2 * 4) / 4

/-- `MaxFileSize` (filehdr.h:21). -/
def maxFileSize : ℕ := numDirect * sectorSize

/-- class `FileHeader` (filehdr.h:37-63). -/
structure FileHeader where
  numBytes : BitVec 32
  numSectors : BitVec 32
  dataSectors : Fin numDirect → BitVec 32

namespace FileHeader

/-- The words of a header in memory. -/
def words (hdr : FileHeader) (i : ℕ) : BitVec 32 :=
  if i = 0 then hdr.numBytes
  else if i = 1 then hdr.numSectors
  else if h : i - 2 < numDirect then hdr.dataSectors ⟨i - 2, h⟩
  else 0#32

/-- The sector `WriteBack` writes. -/
def toSector (hdr : FileHeader) : Sector := fun k => bytesOf hdr.words k

/-- The header a sector holds. -/
def ofSector (sector : Sector) : FileHeader :=
  let word := wordAt fun k => if h : k < sectorSize then sector ⟨k, h⟩ else 0#8
  ⟨word 0, word 1, fun i => word (i + 2)⟩

/-- `FileHeader::FetchFrom` (filehdr.cc:77-81). -/
def fetchFrom (d : DiskImage) (sector : ℤ) : Option FileHeader :=
  (d.readSector sector).map ofSector

/-- `FileHeader::WriteBack` (filehdr.cc:90-94). -/
def writeBack (hdr : FileHeader) (d : DiskImage) (sector : ℤ) : Option DiskImage :=
  d.writeSector sector hdr.toSector

/-- `dataSectors[i]`. -/
def sectorAt (hdr : FileHeader) (i : ℤ) : Option ℤ :=
  if h : 0 ≤ i ∧ i.toNat < numDirect then some (hdr.dataSectors ⟨i.toNat, h.2⟩).toInt else none

/-- `dataSectors[i] = sector`. -/
def setSectorAt (hdr : FileHeader) (i : ℕ) (sector : ℤ) : Option FileHeader :=
  if h : i < numDirect then
    some { hdr with dataSectors := Function.update hdr.dataSectors ⟨i, h⟩ (BitVec.ofInt 32 sector) }
  else none

/-- The loop of `FileHeader::Allocate` from sector `i` on, with `n` left. -/
def allocateFrom : ℕ → ℕ → FileHeader → BitMap → Option (FileHeader × BitMap)
  | _, 0, hdr, freeMap => some (hdr, freeMap)
  | i, n + 1, hdr, freeMap => do
    let (sector, freeMap') ← freeMap.find
    let hdr' ← hdr.setSectorAt i sector
    allocateFrom (i + 1) n hdr' freeMap'

/-- `FileHeader::Allocate` (filehdr.cc:41-52). -/
def allocate (hdr : FileHeader) (freeMap : BitMap) (fileSize : ℤ) :
    Option (Bool × FileHeader × BitMap) :=
  let n := divRoundUpInt fileSize sectorSize
  let hdr' := { hdr with numBytes := BitVec.ofInt 32 fileSize, numSectors := BitVec.ofInt 32 n }
  match freeMap.numClear with
  | none => none
  | some free =>
    if (free : ℤ) < n then some (false, hdr', freeMap)
    else (allocateFrom 0 n.toNat hdr' freeMap).map fun r => (true, r)

/-- The loop of `FileHeader::Deallocate` from sector `i` on, with `n` left. -/
def deallocateFrom (hdr : FileHeader) : ℕ → ℕ → BitMap → Option BitMap
  | _, 0, freeMap => some freeMap
  | i, n + 1, freeMap => do
    let sector ← hdr.sectorAt i
    let marked ← freeMap.test sector
    if marked then
      let freeMap' ← freeMap.clear sector
      deallocateFrom hdr (i + 1) n freeMap'
    else none

/-- `FileHeader::Deallocate` (filehdr.cc:61-68). -/
def deallocate (hdr : FileHeader) (freeMap : BitMap) : Option BitMap :=
  hdr.deallocateFrom 0 hdr.numSectors.toInt.toNat freeMap

/-- `FileHeader::ByteToSector` (filehdr.cc:106-110). -/
def byteToSector (hdr : FileHeader) (offset : ℤ) : Option ℤ := hdr.sectorAt (offset.tdiv sectorSize)

/-- `FileHeader::FileLength` (filehdr.cc:117-121). -/
def fileLength (hdr : FileHeader) : ℤ := hdr.numBytes.toInt

end FileHeader

/-- class `OpenFile` (openfile.h:71-107). -/
structure OpenFile where
  hdr : FileHeader
  seekPosition : ℤ
  type : ℤ

namespace OpenFile

/-- `OpenFile::OpenFile` (openfile.cc:30-44). -/
def new (d : DiskImage) (sector type : ℤ) : Option OpenFile :=
  (FileHeader.fetchFrom d sector).map fun hdr => ⟨hdr, 0, type⟩

/-- `OpenFile::Length` (openfile.cc:202-206). -/
def length (f : OpenFile) : ℤ := f.hdr.fileLength

/-- A request cut to the end of the file (openfile.cc:134-135, 165-166). -/
def clip (f : OpenFile) (numBytes position : ℤ) : ℤ :=
  if toInt32 (position + numBytes) > f.length then toInt32 (f.length - position) else numBytes

/-- The sectors of a request (openfile.cc:139-140, 170-171): the first and the last one. -/
def sectorRange (numBytes position : ℤ) : ℤ × ℤ :=
  (divRoundDown position sectorSize, divRoundDown (toInt32 (position + numBytes - 1)) sectorSize)

/-- A copy of `numBytes` bytes at the request's offset in `buf` stays inside `buf`. -/
def fitsBuf (numBytes position : ℤ) : Bool :=
  let (firstSector, lastSector) := sectorRange numBytes position
  position - firstSector * sectorSize + numBytes ≤ (1 + lastSector - firstSector) * sectorSize

/-- The reading loop (openfile.cc:145-147): `j` sectors are in `buf`, `n` are left. -/
def readSectors (hdr : FileHeader) (d : DiskImage) (firstSector : ℤ) :
    ℕ → ℕ → Buffer → Option Buffer
  | _, 0, buf => some buf
  | j, n + 1, buf => do
    let sector ← hdr.byteToSector ((firstSector + j) * sectorSize)
    let data ← d.readSector sector
    readSectors hdr d firstSector (j + 1) n fun k =>
      if k / sectorSize = j then data ⟨k % sectorSize, Nat.mod_lt _ (by decide)⟩ else buf k

/-- `OpenFile::ReadAt` (openfile.cc:125-153): the buffer `into` afterwards and the number of
bytes read. `buf` is read where the loop has filled it. -/
def readAt (f : OpenFile) (d : DiskImage) (into : Buffer) (numBytes position : ℤ) :
    Option (Buffer × ℤ) :=
  if numBytes ≤ 0 ∨ position ≥ f.length then some (into, 0)
  else
    let n := f.clip numBytes position
    let (firstSector, lastSector) := sectorRange n position
    if position < 0 ∨ !fitsBuf n position then none
    else do
      let buf ← readSectors f.hdr d firstSector 0 (1 + lastSector - firstSector).toNat fun _ => 0#8
      return (fun k => if (k : ℤ) < n then buf ((position - firstSector * sectorSize).toNat + k)
        else into k, n)

/-- `ReadAt` into `&buf[offset]`. -/
def readAtOffset (f : OpenFile) (d : DiskImage) (buf : Buffer) (offset : ℕ)
    (numBytes position : ℤ) : Option Buffer :=
  (f.readAt d (fun k => buf (offset + k)) numBytes position).map fun r k =>
    if k < offset then buf k else r.1 (k - offset)

/-- The sectors a write changes in part are read first (openfile.cc:180-184). -/
def readEdges (f : OpenFile) (d : DiskImage) (buf : Buffer) (numBytes position : ℤ) :
    Option Buffer := do
  let (firstSector, lastSector) := sectorRange numBytes position
  let firstAligned := position == firstSector * sectorSize
  let lastAligned := position + numBytes == (lastSector + 1) * sectorSize
  let buf' ← if firstAligned then some buf
    else f.readAtOffset d buf 0 sectorSize (firstSector * sectorSize)
  if !lastAligned && (firstSector != lastSector || firstAligned) then
    f.readAtOffset d buf' ((lastSector - firstSector) * sectorSize).toNat sectorSize
      (lastSector * sectorSize)
  else some buf'

/-- The writing loop (openfile.cc:190-192). -/
def writeSectors (hdr : FileHeader) (buf : Buffer) (firstSector : ℤ) :
    ℕ → ℕ → DiskImage → Option DiskImage
  | _, 0, d => some d
  | j, n + 1, d => do
    let sector ← hdr.byteToSector ((firstSector + j) * sectorSize)
    let d' ← d.writeSector sector fun k => buf (j * sectorSize + k)
    writeSectors hdr buf firstSector (j + 1) n d'

/-- `OpenFile::WriteAt` (openfile.cc:155-195): the disk afterwards and the number of bytes
written. `buf` is what the new buffer holds before anything is put into it; what is left
of it after the end of the file goes to the disk with the last sector. -/
def writeAt (f : OpenFile) (d : DiskImage) (buf src : Buffer) (numBytes position : ℤ) :
    Option (DiskImage × ℤ) :=
  if numBytes ≤ 0 ∨ position ≥ f.length then some (d, 0)
  else
    let n := f.clip numBytes position
    let (firstSector, lastSector) := sectorRange n position
    if position < 0 ∨ !fitsBuf n position then none
    else do
      let buf' ← f.readEdges d buf n position
      let start := (position - firstSector * sectorSize).toNat
      let d' ← writeSectors f.hdr
        (fun k => if start ≤ k ∧ (k : ℤ) < start + n then src (k - start) else buf' k)
        firstSector 0 (1 + lastSector - firstSector).toNat d
      return (d', n)

/-- `OpenFile::Seek` (openfile.cc:64-68). -/
def seek (f : OpenFile) (position : ℤ) : OpenFile := { f with seekPosition := position }

/-- `seekPosition += result`. -/
def advance (f : OpenFile) (result : ℤ) : OpenFile :=
  { f with seekPosition := toInt32 (f.seekPosition + result) }

/-- `OpenFile::Read` (openfile.cc:83-89): the buffer and the file afterwards, and the result. -/
def read (f : OpenFile) (d : DiskImage) (into : Buffer) (numBytes : ℤ) :
    Option (Buffer × OpenFile × ℤ) := do
  let (into', result) ← f.readAt d into numBytes f.seekPosition
  return (into', f.advance result, result)

/-- `OpenFile::Write` (openfile.cc:91-97): the disk and the file afterwards, and the result. -/
def write (f : OpenFile) (d : DiskImage) (buf src : Buffer) (numBytes : ℤ) :
    Option (DiskImage × OpenFile × ℤ) := do
  let (d', result) ← f.writeAt d buf src numBytes f.seekPosition
  return (d', f.advance result, result)

/-- The calls on an open file; `buf` is as in `writeAt`. -/
inductive Call where
  | seek (position : ℤ)
  | read (into : Buffer) (numBytes : ℤ)
  | write (src buf : Buffer) (numBytes : ℤ)
  | readAt (into : Buffer) (numBytes position : ℤ)
  | writeAt (src buf : Buffer) (numBytes position : ℤ)

/-- What a call leaves: its result, the caller's buffer, the file and the disk. `Seek` has no result
and no buffer. -/
structure Served where
  result : ℤ
  buffer : Buffer
  file : OpenFile
  disk : DiskImage

/-- One call. -/
def perform (f : OpenFile) (d : DiskImage) : Call → Option Served
  | .seek position => some ⟨0, fun _ => 0#8, f.seek position, d⟩
  | .read into numBytes => do
    let (into', f', result) ← f.read d into numBytes
    return ⟨result, into', f', d⟩
  | .write src buf numBytes => do
    let (d', f', result) ← f.write d buf src numBytes
    return ⟨result, src, f', d'⟩
  | .readAt into numBytes position => do
    let (into', result) ← f.readAt d into numBytes position
    return ⟨result, into', f, d⟩
  | .writeAt src buf numBytes position => do
    let (d', result) ← f.writeAt d buf src numBytes position
    return ⟨result, src, f, d'⟩

end OpenFile

end Nachos.Model
