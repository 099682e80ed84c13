import Nachos.Model.FileCalls
import Nachos.Model.FileSystem

/-!
# The descriptor table of the FILESYS build (filesys/filesys.h:92-130, filesys/filesys.cc)

`FileSystem` of `Nachos.Model.FileSystem` is the class without its array `file`; here it has
the array, and the `OpenFile` objects there are. `Open` of this build stores the object it
makes into `file` itself, and so do its callers.
-/

set_option autoImplicit false

namespace Nachos.Model

/-- class `FileSystem` (filesys.h:92-130) with the `OpenFile` objects there are. -/
structure DiskFileSystem where
  fs : FileSystem
  objects : ℕ → Option OpenFile
  file : ℕ → Option ℕ

/-- What a call gets from outside: what its new objects hold before they are set, where `new`
puts an `OpenFile`, and what the buffer of a `WriteAt` holds. -/
structure DiskAnswer where
  fresh : Fresh
  addr : ℕ
  buf : Buffer

namespace DiskFileSystem

/-- `Create` (filesys.cc:185-226). -/
def create (s : DiskFileSystem) (env : DiskAnswer) (name : String) (initialSize : ℤ) :
    Option (Bool × DiskFileSystem) :=
  (s.fs.create (cString name) initialSize env.fresh).map fun r => (r.1, { s with fs := r.2 })

/-- The first entry from 2 on that is `NULL` (filesys.cc:248-249, 269-270). -/
def freeEntry (s : DiskFileSystem) : Option ℕ :=
  (List.range' 2 8).find? fun i => (s.file i).isNone

/-- `Open(name)` (filesys.cc:238-257). -/
def openFile (s : DiskFileSystem) (env : DiskAnswer) (name : String) :
    Option (Option ℕ × DiskFileSystem) := do
  let directory ← s.fs.fetchDirectory env.fresh
  let sector := directory.find (cString name)
  if sector ≥ 0 then
    match s.freeEntry with
    | none => return (none, s)
    | some i =>
      let f ← OpenFile.new s.fs.disk sector 0
      if s.objects env.addr = none then
        return (some env.addr, { s with
          objects := Function.update s.objects env.addr (some f)
          file := Function.update s.file i (some env.addr) })
      else none
  else return (none, s)

/-- `Open(name, type)` (filesys.cc:259-278), whose body is that of `Open(name)`: the object is
made with `new OpenFile(sector)`. -/
def openFileType (s : DiskFileSystem) (env : DiskAnswer) (name : String) (_type : ℤ) :
    Option (Option ℕ × DiskFileSystem) :=
  s.openFile env name

/-- `delete p` with `~OpenFile` (openfile.cc:51-54). -/
def delete (s : DiskFileSystem) (p : ℕ) : Option DiskFileSystem :=
  (s.objects p).map fun _ => { s with objects := Function.update s.objects p none }

/-- `p->Read(into, numBytes)` (openfile.cc:83-89). -/
def read (s : DiskFileSystem) (p : ℕ) (into : Buffer) (numBytes : ℤ) :
    Option (ℤ × Buffer × DiskFileSystem) := do
  let f ← s.objects p
  let (into', f', result) ← f.read s.fs.disk into numBytes
  return (result, into', { s with objects := Function.update s.objects p (some f') })

/-- `p->WriteAt(from, numBytes, position)` (openfile.cc:155-195). -/
def writeAt (s : DiskFileSystem) (env : DiskAnswer) (p : ℕ) (src : Buffer)
    (numBytes position : ℤ) : Option (ℤ × DiskFileSystem) := do
  let f ← s.objects p
  let (disk, result) ← f.writeAt s.fs.disk env.buf src numBytes position
  return (result, { s with fs := { s.fs with disk := disk } })

/-- `p->Write(from, numBytes)` (openfile.cc:91-97). -/
def write (s : DiskFileSystem) (env : DiskAnswer) (p : ℕ) (src : Buffer) (numBytes : ℤ) :
    Option (ℤ × DiskFileSystem) := do
  let f ← s.objects p
  let (disk, f', result) ← f.write s.fs.disk env.buf src numBytes
  return (result, { s with
    fs := { s.fs with disk := disk }
    objects := Function.update s.objects p (some f') })

/-- What the system calls use of this build. -/
def build : FileBuild DiskFileSystem DiskAnswer where
  file s := s.file
  setFile s i p := { s with file := Function.update s.file i p }
  create := create
  openFile := openFile
  openFileType := openFileType
  delete := delete
  typeOf s p := (s.objects p).map OpenFile.type
  read s _ := s.read
  write := write

/-- The branch of the constructor that does not format (filesys.cc:137-142). -/
def mount (d : DiskImage) : Option FileSystem := do
  let freeMapFile ← OpenFile.new d freeMapSector 0
  let directoryFile ← OpenFile.new d directorySector 0
  return ⟨d, freeMapFile, directoryFile⟩

/-- The end of the constructor (filesys.cc:143-148), with what its two calls of `Create` and
its two calls of `Open` get from outside. -/
def finish (fs : FileSystem) (env₁ env₂ env₃ env₄ : DiskAnswer) : Option DiskFileSystem := do
  let s : DiskFileSystem := ⟨fs, fun _ => none, fun _ => none⟩
  let (_, s) ← s.create env₁ "stdin" 0
  let (_, s) ← s.create env₂ "stdout" 0
  let (p, s) ← s.openFileType env₃ "stdin" 1
  let s := { s with file := Function.update s.file 0 p }
  let (p, s) ← s.openFileType env₄ "stdout" 2
  return { s with file := Function.update s.file 1 p }

/-- `FileSystem::FileSystem(format)` (filesys.cc:80-149) on a disk that holds `d`. -/
def new (format : Bool) (d : DiskImage) (fresh : Fresh) (dirHdr : FileHeader)
    (env₁ env₂ env₃ env₄ : DiskAnswer) : Option DiskFileSystem := do
  let fs ← if format then FileSystem.formatDisk d fresh dirHdr else mount d
  finish fs env₁ env₂ env₃ env₄

end DiskFileSystem

end Nachos.Model
