import Nachos.Library.LittleEndian
import Nachos.Model.AddrSpace

/-!
# From COFF to NOFF (bin/coff2noff.c)

The program that makes the executables of Nachos out of the linker's COFF files. `main` reads the
three headers of the input, and a loop over the section headers copies the sections behind the
place of the NOFF header, which is written last. `exit(1)` is an error here, with the text that
goes to `stderr`; `exit(0)` is a result, the file that is left.

The structures of coff.h are those of a host whose `long` has 32 bits. Section sizes are such
`long`s, so a size can be negative: `read` and `write` then return -1, and the test of `Read` and
`Write`, which compares that with the size, lets the size -1 pass.
-/

set_option autoImplicit false

namespace Nachos.Model

open Nachos.Library

/-- The bytes of `struct noffHeader` (noff.h:18-25). -/
def NoffHeader.bytes (noffH : NoffHeader) : List Byte :=
  (List.range 40).map (bytesOf fun i =>
    ([noffH.noffMagic, noffH.code.virtualAddr, noffH.code.inFileAddr, noffH.code.size,
      noffH.initData.virtualAddr, noffH.initData.inFileAddr, noffH.initData.size,
      noffH.uninitData.virtualAddr, noffH.uninitData.inFileAddr, noffH.uninitData.size][i]?).getD
        0#32)

/-- `struct scnhdr` (coff.h:37-48), as far as `main` uses it. `sName` is the string that begins at
`s_name`, without its end. -/
structure Scnhdr where
  sName : List Byte
  sPaddr : BitVec 32
  sSize : BitVec 32
  sScnptr : BitVec 32
  deriving DecidableEq, Repr

namespace Coff2noff

/-- A string literal of the program, without its end. -/
def cString (s : String) : List Byte := s.toList.map fun c => BitVec.ofNat 8 c.toNat

/-- `MIPSELMAGIC` (coff.h:15). -/
def mipselMagic : ℕ := 0x0162

/-- `OMAGIC` (coff.h:17), written `0407` in octal. -/
def oMagic : ℕ := 0x0107

/-- What the host adds to a run: whether the `k`-th `write` goes through (none does when the output
could not be opened), and what the stack holds where `noffH` is. -/
structure Host where
  writes : ℕ → Bool
  stack : NoffHeader

/-- `noffH` and `inNoffFile` of `main`, the offset of `fdIn`, what has been written behind the place
of the header, and the number of writes so far. -/
structure Conversion where
  noffH : NoffHeader
  inNoffFile : BitVec 32
  position : ℕ
  output : List Byte
  writes : ℕ

/-- `lseek(fd, offset, 0)`. A negative offset is refused, which the program does not notice. -/
def lseek (position : ℕ) (offset : ℤ) : ℕ := if offset < 0 then position else offset.toNat

/-- `Read` (coff2noff.c:73-80): the buffer, and the offset of the file afterwards. -/
def read (input : List Byte) (position : ℕ) (nBytes : ℤ) : Except String (List Byte × ℕ) :=
  if nBytes < 0 then
    if nBytes = -1 then .ok ([], position) else .error "File is too short\n"
  else
    let buf := (input.drop position).take nBytes.toNat
    if (buf.length : ℤ) = nBytes then .ok (buf, position + buf.length)
    else .error "File is too short\n"

/-- `Write` (coff2noff.c:83-90) of a segment. No file gets longer than a `long` can say. -/
def write (host : Host) (c : Conversion) (buf : List Byte) (nBytes : ℤ) :
    Except String Conversion :=
  if nBytes < 0 then
    if nBytes = -1 then .ok c else .error "Unable to write file\n"
  else if host.writes c.writes ∧ 40 + c.output.length + nBytes < 2 ^ 31 then
    .ok { c with output := c.output ++ buf, writes := c.writes + 1 }
  else .error "Unable to write file\n"

/-- The bytes of a section from the one file to the other (coff2noff.c:174-179, 192-197). -/
def copyIn (host : Host) (input : List Byte) (c : Conversion) (s : Scnhdr) :
    Except String Conversion := do
  let (buffer, position) ← read input (lseek c.position s.sScnptr.toInt) s.sSize.toInt
  let c' ← write host { c with position := position } buffer s.sSize.toInt
  return { c' with inNoffFile := c'.inNoffFile + s.sSize }

/-- One round of the loop over the sections (coff2noff.c:168-220). -/
def copySection (host : Host) (input : List Byte) (c : Conversion) (s : Scnhdr) :
    Except String Conversion :=
  if s.sSize = 0#32 then .ok c
  else if s.sName = cString ".text" then
    copyIn host input { c with noffH.code := ⟨s.sPaddr, c.inNoffFile, s.sSize⟩ } s
  else if s.sName = cString ".data" ∨ s.sName = cString ".rdata" then
    if c.noffH.initData.size ≠ 0#32 then .error "Can't handle both data and rdata\n"
    else copyIn host input { c with noffH.initData := ⟨s.sPaddr, c.inNoffFile, s.sSize⟩ } s
  else if s.sName = cString ".bss" ∨ s.sName = cString ".sbss" then
    if c.noffH.uninitData.size ≠ 0#32 then
      if s.sPaddr = c.noffH.uninitData.virtualAddr + c.noffH.uninitData.size then
        .error "Can't handle both bss and sbss\n"
      else .ok { c with noffH.uninitData.size := c.noffH.uninitData.size + s.sSize }
    else
      .ok { c with
        noffH.uninitData := { c.noffH.uninitData with virtualAddr := s.sPaddr, size := s.sSize } }
  else .error ("Unknown segment type: " ++
    String.ofList (s.sName.map fun b => Char.ofNat b.toNat) ++ "\n")

/-- `noffH` and the two files before the loop (coff2noff.c:155-162). -/
def start (host : Host) (position : ℕ) : Conversion where
  noffH := ⟨noffMagicNumber, { host.stack.code with size := 0#32 },
    { host.stack.initData with size := 0#32 }, { host.stack.uninitData with size := 0#32 }⟩
  inNoffFile := 40#32
  position := position
  output := []
  writes := 0

/-- `main` from the header on (coff2noff.c:155-226). -/
def convert (host : Host) (input : List Byte) (position : ℕ) (sections : List Scnhdr) :
    Except String Executable := do
  let c ← sections.foldlM (copySection host input) (start host position)
  if host.writes c.writes then return ⟨c.noffH, c.noffH.bytes ++ c.output⟩
  else throw "Unable to write file\n"

/-- An `unsigned short` of a structure that has been read. -/
def shortAt (bytes : List Byte) (i : ℕ) : ℕ :=
  ((bytes[i]?).getD 0#8).toNat + 256 * ((bytes[i + 1]?).getD 0#8).toNat

/-- The `numsections` structures of 40 bytes at `sections` (coff2noff.c:146-150). The string at
`s_name` ends at the first zero, wherever that is. -/
def scnhdrs (numsections : ℕ) (sections : List Byte) : List Scnhdr :=
  (List.range numsections).map fun i =>
    let word := wordAt fun k => (sections[k]?).getD 0#8
    ⟨(sections.drop (40 * i)).takeWhile (· ≠ 0#8), word (10 * i + 2), word (10 * i + 4),
      word (10 * i + 5)⟩

/-- `main` (coff2noff.c:92-227) once there are two arguments; `fdIn` is what the first of them
names, or the text of `perror`. -/
def main (host : Host) (fdIn : Except String (List Byte)) : Except String Executable := do
  let input ← fdIn
  let (fileh, position) ← read input 0 20
  if shortAt fileh 0 ≠ mipselMagic then throw "File is not a MIPSEL COFF file\n"
  let (systemh, position) ← read input position 56
  if shortAt systemh 0 ≠ oMagic then throw "File is not a OMAGIC file\n"
  let numsections := shortAt fileh 2
  let (sections, position) ← read input position (numsections * 40 : ℕ)
  convert host input position (scnhdrs numsections sections)

end Coff2noff

end Nachos.Model
