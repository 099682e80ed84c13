import Nachos.Model.OpenFile

/-!
# The file system calls (userprog/exception.cc:157-383)

`exception.cc` is compiled against one of two pairs of classes `FileSystem` and `OpenFile`:
the one of the FILESYS_STUB build, over the host's files, or the one of the FILESYS build,
over the simulated disk. `FileBuild` is what the system calls use of either; the calls are
written once, over any build.

An `OpenFile *` is an address. `none` is an abort or an access that is not defined, such as
one through a pointer to a deleted object. What a call gets from outside, a host's answer or
the contents of new memory, is its argument `env`.
-/

set_option autoImplicit false

namespace Nachos.Model

/-- The entries of `fileSystem->file` (filesys.h:88, 129). -/
def numDescriptors : ℕ := 10

/-- What the system calls use of a build. -/
structure FileBuild (σ κ : Type) where
  /-- `fileSystem->file[i]` -/
  file : σ → ℕ → Option ℕ
  /-- `fileSystem->file[i] = p` -/
  setFile : σ → ℕ → Option ℕ → σ
  /-- `fileSystem->Create(name, initialSize)` -/
  create : σ → κ → String → ℤ → Option (Bool × σ)
  /-- `fileSystem->Open(name)` -/
  openFile : σ → κ → String → Option (Option ℕ × σ)
  /-- `fileSystem->Open(name, type)` -/
  openFileType : σ → κ → String → ℤ → Option (Option ℕ × σ)
  /-- `delete p` -/
  delete : σ → ℕ → Option σ
  /-- `p->type` -/
  typeOf : σ → ℕ → Option ℤ
  /-- `p->Read(into, numBytes)` -/
  read : σ → κ → ℕ → Buffer → ℤ → Option (ℤ × Buffer × σ)
  /-- `p->Write(from, numBytes)` -/
  write : σ → κ → ℕ → Buffer → ℤ → Option (ℤ × σ)

/-- The system with the file system in it. `children` are the programs `Exec` has started a
process for that has not constructed its address space yet, and `loading` the executables
the constructors of address spaces hold open. `readOnly id` says that an `Open` with type 1
has returned `id` and `id` has not been closed since; no step reads it. -/
structure FileCallState (σ : Type) where
  fs : σ
  children : List String
  loading : List ℕ
  readOnly : ℕ → Bool

/-- The system after the constructor of `FileSystem`, which has opened descriptor 0 with type
1. -/
def FileCallState.start {σ : Type} (fs : σ) : FileCallState σ where
  fs := fs
  children := []
  loading := []
  readOnly id := id == 0

/-- A system call with what it reads from registers and memory, or a step of the process an
`Exec` has started: the opening of its executable in the constructor of its address space,
and the deletion of that `OpenFile` there. `console` is what `gSynchConsole->Read` gives, and
`pid` what `ExecUpdate` returns once it has opened the file. -/
inductive FileCall (κ : Type) where
  | createFile (env : κ) (name : String)
  | «open» (env : κ) (name : String) (typeFile : ℤ)
  | close (id : ℤ)
  | read (env : κ) (id charcount : ℤ) (buff : Buffer) (console : ℤ × Buffer)
  | write (env : κ) (id charcount : ℤ) (buff : Buffer)
  | exec (env env' : κ) (name : String) (pid : ℤ)
  | loadOpen (env : κ) (name : String)
  | loadClose (p : ℕ)

namespace FileBuild

variable {σ κ : Type} (b : FileBuild σ κ)

/-- `SC_CreateFile` (exception.cc:157-183). -/
def createFile (s : σ) (env : κ) (name : String) : Option (ℤ × σ) :=
  if name = "" then some (-1, s)
  else (b.create s env name 0).map fun r => (if r.1 then 0 else -1, r.2)

/-- The first descriptor that is `NULL` (exception.cc:220-225). -/
def freeIndex (s : σ) : Option ℕ :=
  (List.range numDescriptors).find? fun i => (b.file s i).isNone

/-- `SC_Open` (exception.cc:184-244). -/
def scOpen (s : σ) (env : κ) (name : String) (typeFile : ℤ) : Option (ℤ × σ) :=
  if typeFile ≠ 0 ∧ typeFile ≠ 1 then some (-1, s)
  else if name = "stdin" then some (0, s)
  else if name = "stdout" then some (1, s)
  else match b.freeIndex s with
    | none => some (-1, s)
    | some index =>
      match b.openFileType s env name typeFile with
      | none => none
      | some (p, s) => some (if p.isSome then (index : ℤ) else -1, b.setFile s index p)

/-- `SC_Close` (exception.cc:245-267). -/
def scClose (s : σ) (id : ℤ) : Option (ℤ × σ) :=
  if id < 2 ∨ id > 9 then some (-1, s)
  else match b.file s id.toNat with
    | none => some (-1, s)
    | some p => (b.delete s p).map fun s => (0, b.setFile s id.toNat none)

/-- The answer to a transfer (exception.cc:293-309, 335-348). -/
def transferred (result : ℤ) : ℤ :=
  if result < 0 then -1 else if result = 0 then -2 else result

/-- `SC_Read` (exception.cc:269-311): the result, and the buffer that goes to the user's
memory when there is one. -/
def scRead (s : σ) (env : κ) (id charcount : ℤ) (buff : Buffer) (console : ℤ × Buffer) :
    Option (ℤ × Option Buffer × σ) :=
  if id < 0 ∨ id = 1 ∨ id > 9 then some (-1, none, s)
  else match b.file s id.toNat with
    | none => some (-1, none, s)
    | some p =>
      if charcount ≤ 0 then some (-1, none, s)
      else
        let r := if id = 0 then some (console.1, console.2, s) else b.read s env p buff charcount
        r.map fun r =>
          (transferred r.1,
            if r.1 ≤ 0 then none else some (Function.update r.2.1 r.1.toNat 0#8), r.2.2)

/-- `SC_Write` (exception.cc:312-350) of the bytes `User2System` has put into `buff`;
`SynchConsole::Write` returns the length it is given. -/
def scWrite (s : σ) (env : κ) (id charcount : ℤ) (buff : Buffer) : Option (ℤ × σ) :=
  if id ≤ 0 ∨ id > 9 then some (-1, s)
  else match b.file s id.toNat with
    | none => some (-1, s)
    | some p =>
      match b.typeOf s p with
      | none => none
      | some type =>
        if type = 1 then some (-1, s)
        else if charcount ≤ 0 then some (-1, s)
        else
          let r := if id = 1 then some (charcount, s) else b.write s env p buff charcount
          r.map fun r => (transferred r.1, r.2)

/-- An `Open(name)` whose `OpenFile` is deleted at once, and whether there was one. -/
def probe (s : σ) (env : κ) (name : String) : Option (Bool × σ) :=
  match b.openFile s env name with
  | none => none
  | some (none, s) => some (false, s)
  | some (some p, s) => (b.delete s p).map fun s => (true, s)

/-- `SC_Exec` (exception.cc:353-383) with the check at the beginning of `ExecUpdate`
(ptable.cc:28-34), which opens the file a second time. -/
def scExec (s : σ) (env env' : κ) (name : String) (pid : ℤ) : Option (ℤ × σ) :=
  match b.probe s env name with
  | none => none
  | some (false, s) => some (-1, s)
  | some (true, s) =>
    (b.probe s env' name).map fun r => (if r.1 then pid else -1, r.2)

/-- The call and what it returns; a step that is no system call returns `0`. -/
def call (s : FileCallState σ) : FileCall κ → Option (ℤ × FileCallState σ)
  | .createFile env name =>
    (b.createFile s.fs env name).map fun r => (r.1, { s with fs := r.2 })
  | .open env name typeFile =>
    (b.scOpen s.fs env name typeFile).map fun r => (r.1, { s with
      fs := r.2
      readOnly := if r.1 ≠ -1 ∧ typeFile = 1 then Function.update s.readOnly r.1.toNat true
        else s.readOnly })
  | .close id =>
    (b.scClose s.fs id).map fun r => (r.1, { s with
      fs := r.2
      readOnly := if r.1 = (0 : ℤ) then Function.update s.readOnly id.toNat false else s.readOnly })
  | .read env id charcount buff console =>
    (b.scRead s.fs env id charcount buff console).map fun r => (r.1, { s with fs := r.2.2 })
  | .write env id charcount buff =>
    (b.scWrite s.fs env id charcount buff).map fun r => (r.1, { s with fs := r.2 })
  | .exec env env' name pid =>
    (b.scExec s.fs env env' name pid).map fun r => (r.1, { s with
      fs := r.2
      children := if r.1 = -1 then s.children else name :: s.children })
  | .loadOpen env name =>
    -- `fileSystem->Open(filename)` (addrspace.cc:128)
    if s.children.contains name then
      (b.openFile s.fs env name).map fun r => (0, { s with
        fs := r.2
        children := s.children.erase name
        loading := r.1.toList ++ s.loading })
    else none
  | .loadClose p =>
    -- `delete executable` (addrspace.cc:150, 208)
    if s.loading.contains p then
      (b.delete s.fs p).map fun fs => (0, { s with fs := fs, loading := s.loading.erase p })
    else none

/-- One step. -/
def step (s : FileCallState σ) (e : FileCall κ) : Option (FileCallState σ) :=
  (b.call s e).map Prod.snd

end FileBuild

end Nachos.Model
