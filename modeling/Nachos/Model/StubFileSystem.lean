import Nachos.Model.FileCalls

/-!
# The FILESYS_STUB build (filesys/filesys.h:42-89, filesys/openfile.h:27-66)

The file system of this build is the host's, through the wrappers of machine/sysdep.cc. The
host keeps the bytes of its files, the names they have and the descriptors the kernel holds.
Of the host's answers, the descriptor an `open` returns, or its failure, is not determined
by that state, and comes with the call; so does the address of a new object.
-/

set_option autoImplicit false

namespace Nachos.Model

/-- The host's files. `names` gives the file of a name, `data` the bytes of a file, and `fds`
the file an open descriptor stands for. -/
structure Host where
  names : String → Option ℕ
  data : ℕ → List Byte
  fds : ℕ → Option ℕ

/-- What is not determined by the state: `fd` is what `open` returns, `none` for `-1`; `inode`
the file it makes when it has to create one; `addr` where `new` puts an object. -/
structure HostAnswer where
  fd : Option ℕ
  inode : ℕ
  addr : ℕ

namespace Host

/-- `OpenForWrite` (sysdep.cc:154-161): the file is created, or truncated; a failure aborts.
The descriptor is one that is not in use. -/
def openForWrite (h : Host) (env : HostAnswer) (name : String) : Option (ℕ × Host) :=
  match env.fd with
  | none => none
  | some fd =>
    if h.fds fd = none then
      let file := (h.names name).getD env.inode
      some (fd, { names := Function.update h.names name (some file)
                  data := Function.update h.data file []
                  fds := Function.update h.fds fd (some file) })
    else none

/-- `OpenForReadWrite(name, FALSE)` (sysdep.cc:171-178): the host may refuse to open a file, and
opens none that it has no name for. -/
def openForReadWrite (h : Host) (env : HostAnswer) (name : String) : Option (Option ℕ × Host) :=
  match env.fd with
  | none => some (none, h)
  | some fd =>
    match h.names name with
    | none => none
    | some file =>
      if h.fds fd = none then some (some fd, { h with fds := Function.update h.fds fd (some file) })
      else none

/-- `Close` (sysdep.cc:250-255): a descriptor that is not open aborts. -/
def close (h : Host) (fd : ℕ) : Option Host :=
  if h.fds fd = none then none else some { h with fds := Function.update h.fds fd none }

/-- `Lseek(fd, position, 0)` and `ReadPartial` (sysdep.cc:198-202, 222-227): as many bytes as
there are, up to `numBytes`. -/
def readPartial (h : Host) (fd : ℕ) (into : Buffer) (numBytes position : ℤ) :
    Option (ℤ × Buffer) :=
  match h.fds fd with
  | none => none
  | some file =>
    if position < 0 then none
    else
      let got := ((h.data file).drop position.toNat).take numBytes.toNat
      some (got.length, fun k => got.getD k (into k))

/-- `Lseek(fd, position, 0)` and `WriteFile` (sysdep.cc:210-215, 222-227): all the bytes; a
gap before them reads as zeros. -/
def writeFile (h : Host) (fd : ℕ) (src : Buffer) (numBytes position : ℤ) : Option Host :=
  match h.fds fd with
  | none => none
  | some file =>
    if position < 0 then none
    else
      let old := h.data file
      let before := old.take position.toNat ++ List.replicate (position.toNat - old.length) 0#8
      let bytes := (List.range numBytes.toNat).map src
      let written := before ++ bytes ++ old.drop (position.toNat + numBytes.toNat)
      some { h with data := Function.update h.data file written }

end Host

/-- class `OpenFile` of this build (openfile.h:30-65). -/
structure StubOpenFile where
  file : ℕ
  currentOffset : ℤ
  type : ℤ

/-- class `FileSystem` of this build (filesys.h:48-89) with the host and the `OpenFile`
objects there are. -/
structure StubFileSystem where
  host : Host
  objects : ℕ → Option StubOpenFile
  file : ℕ → Option ℕ

namespace StubFileSystem

/-- `Create` (filesys.h:63-69). -/
def create (s : StubFileSystem) (env : HostAnswer) (name : String) (_initialSize : ℤ) :
    Option (Bool × StubFileSystem) := do
  let (fd, host) ← s.host.openForWrite env name
  let host ← host.close fd
  return (true, { s with host := host })

/-- `Open(name, type)` (filesys.h:78-83). -/
def openFileType (s : StubFileSystem) (env : HostAnswer) (name : String) (type : ℤ) :
    Option (Option ℕ × StubFileSystem) :=
  match s.host.openForReadWrite env name with
  | none => none
  | some (none, host) => some (none, { s with host := host })
  | some (some fd, host) =>
    if s.objects env.addr = none then
      some (some env.addr, { s with
        host := host
        objects := Function.update s.objects env.addr (some ⟨fd, 0, type⟩) })
    else none

/-- `Open(name)` (filesys.h:71-76): the constructor without a type sets it to 0
(openfile.h:31). -/
def openFile (s : StubFileSystem) (env : HostAnswer) (name : String) :
    Option (Option ℕ × StubFileSystem) :=
  s.openFileType env name 0

/-- `delete p` with `~OpenFile` (openfile.h:35). -/
def delete (s : StubFileSystem) (p : ℕ) : Option StubFileSystem := do
  let f ← s.objects p
  let host ← s.host.close f.file
  return { s with host := host, objects := Function.update s.objects p none }

/-- `p->Read(into, numBytes)` (openfile.h:37-40, 46-50). -/
def read (s : StubFileSystem) (p : ℕ) (into : Buffer) (numBytes : ℤ) :
    Option (ℤ × Buffer × StubFileSystem) := do
  let f ← s.objects p
  let (numRead, buff) ← s.host.readPartial f.file into numBytes f.currentOffset
  return (numRead, buff, { s with
    objects := Function.update s.objects p
      (some { f with currentOffset := toInt32 (f.currentOffset + numRead) }) })

/-- `p->Write(from, numBytes)` (openfile.h:41-45, 51-55). -/
def write (s : StubFileSystem) (p : ℕ) (src : Buffer) (numBytes : ℤ) :
    Option (ℤ × StubFileSystem) := do
  let f ← s.objects p
  let host ← s.host.writeFile f.file src numBytes f.currentOffset
  return (numBytes, { s with
    host := host
    objects := Function.update s.objects p
      (some { f with currentOffset := toInt32 (f.currentOffset + numBytes) }) })

/-- What the system calls use of this build. -/
def build : FileBuild StubFileSystem HostAnswer where
  file s := s.file
  setFile s i p := { s with file := Function.update s.file i p }
  create := create
  openFile := openFile
  openFileType := openFileType
  delete := delete
  typeOf s p := (s.objects p).map StubOpenFile.type
  read s _ := s.read
  write s _ := s.write

/-- The constructor (filesys.h:50-57) over a host that has no descriptor of the kernel's open.
The answers are to the opens of `Create("stdin", 0)`, `Create("stdout", 0)`,
`Open("stdin", 1)` and `Open("stdout", 2)`. -/
def new (host : Host) (env₁ env₂ env₃ env₄ : HostAnswer) : Option StubFileSystem := do
  let s : StubFileSystem := ⟨{ host with fds := fun _ => none }, fun _ => none, fun _ => none⟩
  let (_, s) ← s.create env₁ "stdin" 0
  let (_, s) ← s.create env₂ "stdout" 0
  let (p, s) ← s.openFileType env₃ "stdin" 1
  let s := { s with file := Function.update s.file 0 p }
  let (p, s) ← s.openFileType env₄ "stdout" 2
  return { s with file := Function.update s.file 1 p }

end StubFileSystem

end Nachos.Model
