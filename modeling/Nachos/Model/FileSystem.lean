import Nachos.Model.OpenFile

/-!
# Directory and file system (filesys/directory.cc, filesys/filesys.cc)

The free map and the directory are files themselves: an operation fetches them into
memory, changes them there and writes them back. A name is the memory from a `char *` on;
`strncmp` and `strncpy` look at its first `FileNameMaxLen` characters at most.

Memory that `new` returns holds anything. What it holds is part of an operation's input
(`Fresh`): some of it reaches the disk, in the entries of a header behind its last data
sector and in the last sector of the directory file.

`none` is an abort: a failed `ASSERT`, or one of the accesses `Nachos.Model.OpenFile` does
not define.
-/

set_option autoImplicit false

namespace Nachos.Model

open Nachos.Library

/-- `FileNameMaxLen` (directory.h:22). -/
def fileNameMaxLen : ℕ := 9

/-- `FreeMapSector` (filesys.cc:57). -/
def freeMapSector : ℤ := 0

/-- `DirectorySector` (filesys.cc:58). -/
def directorySector : ℤ := 1

/-- `FreeMapFileSize` (filesys.cc:63). -/
def freeMapFileSize : ℕ := numSectors / 8

/-- `NumDirEntries` (filesys.cc:64). -/
def numDirEntries : ℕ := 10

/-- `sizeof(DirectoryEntry)`: a `bool`, an `int` and ten `char`s, aligned to four. -/
def sizeofDirectoryEntry : ℕ := 20

/-- `DirectoryFileSize` (filesys.cc:65). -/
def directoryFileSize : ℕ := sizeofDirectoryEntry * numDirEntries

/-- `!strncmp(a, b, n)`: the first `n` characters agree, or do so up to a common end. -/
def strncmpEq (a b : Buffer) : ℕ → Bool
  | 0 => true
  | n + 1 => strncmpEq a b n && ((List.range n).any (fun k => a k == 0#8) || a n == b n)

/-- `strncpy(dst, src, n)`: at most `n` characters, filled up with zeros after the end. -/
def strncpy (dst src : Buffer) (n : ℕ) : Buffer := fun k =>
  if k < n then if (List.range k).any (fun j => src j == 0#8) then 0#8 else src k else dst k

/-- The memory of a string constant. -/
def cString (s : String) : Buffer := fun k =>
  match s.toList[k]? with
  | none => 0#8
  | some c => BitVec.ofNat 8 c.toNat

/-- class `DirectoryEntry` (directory.h:31-39). -/
structure DirectoryEntry where
  inUse : Bool
  sector : BitVec 32
  name : Fin (fileNameMaxLen + 1) → Byte

namespace DirectoryEntry

/-- The memory from `name` on; behind it nothing is read or written. -/
def nameBuf (entry : DirectoryEntry) : Buffer := fun k =>
  if h : k < fileNameMaxLen + 1 then entry.name ⟨k, h⟩ else 0#8

/-- Byte `k` of an entry in memory: `inUse`, `sector` from byte 4 and `name` from byte 8 on.
The bytes between them are padding, which nothing reads. -/
def toBytes (entry : DirectoryEntry) (k : ℕ) : Byte :=
  if k = 0 then if entry.inUse then 1#8 else 0#8
  else if k < 4 then 0#8
  else if k < 8 then bytesOf (fun _ => entry.sector) k
  else entry.nameBuf (k - 8)

/-- The entry in the memory from a pointer on. -/
def ofBytes (bytes : Buffer) : DirectoryEntry where
  inUse := bytes 0 != 0#8
  sector := wordAt bytes 1
  name := fun k => bytes (8 + k)

end DirectoryEntry

/-- class `Directory` (directory.h:52-83). -/
structure Directory where
  tableSize : ℕ
  table : ℕ → DirectoryEntry

namespace Directory

/-- `Directory::Directory` (directory.cc:38-44) on a new table that holds `table`. -/
def new (size : ℕ) (table : ℕ → DirectoryEntry) : Directory where
  tableSize := size
  table := fun i => if i < size then { table i with inUse := false } else table i

/-- The table as bytes. -/
def toBytes (directory : Directory) : Buffer := fun k =>
  (directory.table (k / sizeofDirectoryEntry)).toBytes (k % sizeofDirectoryEntry)

/-- The directory with its table read off bytes. -/
def ofBytes (directory : Directory) (bytes : Buffer) : Directory :=
  { directory with
    table := fun i => DirectoryEntry.ofBytes fun k => bytes (sizeofDirectoryEntry * i + k) }

/-- `Directory::FetchFrom` (directory.cc:63-67). -/
def fetchFrom (directory : Directory) (file : OpenFile) (d : DiskImage) : Option Directory :=
  (file.readAt d directory.toBytes (directory.tableSize * sizeofDirectoryEntry) 0).map fun r =>
    directory.ofBytes r.1

/-- `Directory::WriteBack` (directory.cc:76-80). -/
def writeBack (directory : Directory) (file : OpenFile) (d : DiskImage) (buf : Buffer) :
    Option DiskImage :=
  (file.writeAt d buf directory.toBytes (directory.tableSize * sizeofDirectoryEntry) 0).map Prod.fst

/-- The test of the loop in `FindIndex` (directory.cc:94). -/
def isNamed (directory : Directory) (name : Buffer) (i : ℕ) : Bool :=
  (directory.table i).inUse && strncmpEq (directory.table i).nameBuf name fileNameMaxLen

/-- `Directory::FindIndex` (directory.cc:90-97). -/
def findIndex (directory : Directory) (name : Buffer) : Option ℕ :=
  (List.range directory.tableSize).find? (directory.isNamed name)

/-- `Directory::Find` (directory.cc:108-116). -/
def find (directory : Directory) (name : Buffer) : ℤ :=
  match directory.findIndex name with
  | some i => (directory.table i).sector.toInt
  | none => -1

/-- `table[i] = entry`. -/
def setEntry (directory : Directory) (i : ℕ) (entry : DirectoryEntry) : Directory :=
  { directory with table := Function.update directory.table i entry }

/-- `Directory::Add` (directory.cc:129-144). -/
def add (directory : Directory) (name : Buffer) (newSector : ℤ) : Bool × Directory :=
  match directory.findIndex name with
  | some _ => (false, directory)
  | none =>
    match (List.range directory.tableSize).find? fun i => !(directory.table i).inUse with
    | none => (false, directory)
    | some i => (true, directory.setEntry i ⟨true, BitVec.ofInt 32 newSector,
        fun k => strncpy (directory.table i).nameBuf name fileNameMaxLen k⟩)

/-- `Directory::Remove` (directory.cc:153-162). -/
def remove (directory : Directory) (name : Buffer) : Bool × Directory :=
  match directory.findIndex name with
  | none => (false, directory)
  | some i => (true, directory.setEntry i { directory.table i with inUse := false })

end Directory

namespace BitMap

/-- `BitMap::FetchFrom` (bitmap.cc:148-152). -/
def fetchFrom (b : BitMap) (file : OpenFile) (d : DiskImage) : Option BitMap :=
  (file.readAt d (bytesOf b.map) (b.numWords * 4) 0).map fun r => { b with map := wordAt r.1 }

/-- `BitMap::WriteBack` (bitmap.cc:161-165). -/
def writeBack (b : BitMap) (file : OpenFile) (d : DiskImage) (buf : Buffer) : Option DiskImage :=
  (file.writeAt d buf (bytesOf b.map) (b.numWords * 4) 0).map Prod.fst

end BitMap

/-- What the new objects of one operation hold before they are set: the table of its
directory, the words of its bitmap, its file header, and the buffers of the two `WriteAt`
calls. -/
structure Fresh where
  table : ℕ → DirectoryEntry
  words : ℕ → BitVec 32
  hdr : FileHeader
  directoryBuf : Buffer
  freeMapBuf : Buffer

/-- class `FileSystem` (filesys.h:92-130) with the disk it is on. -/
structure FileSystem where
  disk : DiskImage
  freeMapFile : OpenFile
  directoryFile : OpenFile

namespace FileSystem

/-- `new Directory(NumDirEntries)` and `FetchFrom(directoryFile)`. -/
def fetchDirectory (fs : FileSystem) (fresh : Fresh) : Option Directory :=
  (Directory.new numDirEntries fresh.table).fetchFrom fs.directoryFile fs.disk

/-- `new BitMap(NumSectors)` and `FetchFrom(freeMapFile)`. -/
def fetchFreeMap (fs : FileSystem) (fresh : Fresh) : Option BitMap := do
  let freeMap ← BitMap.new numSectors fresh.words
  freeMap.fetchFrom fs.freeMapFile fs.disk

/-- The end of a successful `Create` (filesys.cc:216-218). -/
def flushCreate (fs : FileSystem) (fresh : Fresh) (sector : ℤ) (hdr : FileHeader)
    (directory : Directory) (freeMap : BitMap) : Option FileSystem := do
  let d₁ ← hdr.writeBack fs.disk sector
  let d₂ ← directory.writeBack fs.directoryFile d₁ fresh.directoryBuf
  let d₃ ← freeMap.writeBack fs.freeMapFile d₂ fresh.freeMapBuf
  return { fs with disk := d₃ }

/-- `FileSystem::Create` (filesys.cc:185-226): the answer and the file system afterwards. -/
def create (fs : FileSystem) (name : Buffer) (initialSize : ℤ) (fresh : Fresh) :
    Option (Bool × FileSystem) := do
  let directory ← fs.fetchDirectory fresh
  if directory.find name ≠ -1 then
    return (false, fs)
  else
    let freeMap ← fs.fetchFreeMap fresh
    let (sector, freeMap₁) ← freeMap.find
    if sector = -1 then
      return (false, fs)
    else
      match directory.add name sector with
      | (false, _) => return (false, fs)
      | (true, directory') =>
        let (success, hdr, freeMap₂) ← fresh.hdr.allocate freeMap₁ initialSize
        if success then
          let fs' ← fs.flushCreate fresh sector hdr directory' freeMap₂
          return (true, fs')
        else
          return (false, fs)

/-- The end of `Remove` (filesys.cc:319-320). -/
def flushRemove (fs : FileSystem) (fresh : Fresh) (directory : Directory) (freeMap : BitMap) :
    Option FileSystem := do
  let d₁ ← freeMap.writeBack fs.freeMapFile fs.disk fresh.freeMapBuf
  let d₂ ← directory.writeBack fs.directoryFile d₁ fresh.directoryBuf
  return { fs with disk := d₂ }

/-- `FileSystem::Remove` (filesys.cc:294-325). -/
def remove (fs : FileSystem) (name : Buffer) (fresh : Fresh) : Option (Bool × FileSystem) := do
  let directory ← fs.fetchDirectory fresh
  let sector := directory.find name
  if sector = -1 then
    return (false, fs)
  else
    let fileHdr ← FileHeader.fetchFrom fs.disk sector
    let freeMap ← fs.fetchFreeMap fresh
    let freeMap₁ ← fileHdr.deallocate freeMap
    let freeMap₂ ← freeMap₁.clear sector
    let fs' ← fs.flushRemove fresh (directory.remove name).2 freeMap₂
    return (true, fs')

/-- `ASSERT(hdr->Allocate(freeMap, fileSize))`. -/
def assertAllocate (hdr : FileHeader) (freeMap : BitMap) (fileSize : ℤ) :
    Option (FileHeader × BitMap) :=
  match hdr.allocate freeMap fileSize with
  | some (true, r) => some r
  | _ => none

/-- The formatting branch of the constructor (filesys.cc:83-126) on a disk that holds `d`.
The header of the free map file is the one of `fresh`; `dirHdr` is the second new header. -/
def formatDisk (d : DiskImage) (fresh : Fresh) (dirHdr : FileHeader) : Option FileSystem := do
  let freeMap ← BitMap.new numSectors fresh.words
  let freeMap₁ ← freeMap.mark freeMapSector
  let freeMap₂ ← freeMap₁.mark directorySector
  let (mapHdr', freeMap₃) ← assertAllocate fresh.hdr freeMap₂ freeMapFileSize
  let (dirHdr', freeMap₄) ← assertAllocate dirHdr freeMap₃ directoryFileSize
  let d₁ ← mapHdr'.writeBack d freeMapSector
  let d₂ ← dirHdr'.writeBack d₁ directorySector
  let freeMapFile ← OpenFile.new d₂ freeMapSector 0
  let directoryFile ← OpenFile.new d₂ directorySector 0
  let d₃ ← freeMap₄.writeBack freeMapFile d₂ fresh.freeMapBuf
  let d₄ ← (Directory.new numDirEntries fresh.table).writeBack directoryFile d₃
    fresh.directoryBuf
  return ⟨d₄, freeMapFile, directoryFile⟩

/-- `FileSystem::FileSystem(TRUE)` (filesys.cc:80-149): the disk is formatted and gets its
two files `stdin` and `stdout`. -/
def format (d : DiskImage) (fresh : Fresh) (dirHdr : FileHeader) (inFresh outFresh : Fresh) :
    Option FileSystem := do
  let fs ← formatDisk d fresh dirHdr
  let (_, fs₁) ← fs.create (cString "stdin") 0 inFresh
  let (_, fs₂) ← fs₁.create (cString "stdout") 0 outFresh
  return fs₂

end FileSystem

/-- The two operations that change the disk. -/
inductive FileEvent where
  | create (name : Buffer) (initialSize : ℤ) (fresh : Fresh)
  | remove (name : Buffer) (fresh : Fresh)

/-- One operation, whatever it answers. -/
def FileSystem.step (fs : FileSystem) : FileEvent → Option FileSystem
  | .create name initialSize fresh => (fs.create name initialSize fresh).map Prod.snd
  | .remove name fresh => (fs.remove name fresh).map Prod.snd

end Nachos.Model
