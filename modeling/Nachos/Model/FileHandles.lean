import Nachos.Model.DescriptorTable

/-!
# Operations on the file system and on open files in any order

The operations of `FileSystem` together with `delete`, `Write` and `WriteAt` of the `OpenFile`
objects there are, as any code of the kernel may call them. An `OpenFile` has read its header
when it was made; `Remove` and `Create` do not look at the objects there are.

Two histories are kept that no operation reads: under which name an object has been opened, and
whether a file of that name has been removed since.
-/

set_option autoImplicit false

namespace Nachos.Model

/-- `Remove` (filesys.cc:294-325). -/
def DiskFileSystem.remove (s : DiskFileSystem) (env : DiskAnswer) (name : String) :
    Option (Bool × DiskFileSystem) :=
  (s.fs.remove (cString name) env.fresh).map fun r => (r.1, { s with fs := r.2 })

/-- The file system with the histories of its objects. -/
structure HandleState where
  disk : DiskFileSystem
  openedAs : ℕ → String
  removed : ℕ → Bool

/-- An operation with its arguments. `setFile i p` is an assignment to `file[i]`, as the callers
of `Open` make them. -/
inductive HandleEvent where
  | create (env : DiskAnswer) (name : String) (initialSize : ℤ)
  | remove (env : DiskAnswer) (name : String)
  | «open» (env : DiskAnswer) (name : String)
  | delete (p : ℕ)
  | setFile (i : ℕ) (p : Option ℕ)
  | write (env : DiskAnswer) (p : ℕ) (src : Buffer) (numBytes : BitVec 32)
  | writeAt (env : DiskAnswer) (p : ℕ) (src : Buffer) (numBytes position : BitVec 32)

namespace HandleState

/-- A formatted disk before anything is opened. -/
def start (fs : FileSystem) : HandleState :=
  ⟨⟨fs, fun _ => none, fun _ => none⟩, fun _ => "", fun _ => false⟩

/-- One operation, whatever it returns. -/
def step (s : HandleState) : HandleEvent → Option HandleState
  | .create env name initialSize =>
    (s.disk.create env name initialSize).map fun r => { s with disk := r.2 }
  | .remove env name =>
    (s.disk.remove env name).map fun r => { s with
      disk := r.2
      removed := fun p => s.removed p ||
        (r.1 && strncmpEq (cString (s.openedAs p)) (cString name) fileNameMaxLen) }
  | .open env name =>
    (s.disk.openFile env name).map fun r =>
      match r.1 with
      | none => { s with disk := r.2 }
      | some p => { disk := r.2, openedAs := Function.update s.openedAs p name,
                    removed := Function.update s.removed p false }
  | .delete p => (s.disk.delete p).map fun t => { s with disk := t }
  | .setFile i p =>
    some { s with disk := { s.disk with file := Function.update s.disk.file i p } }
  | .write env p src numBytes =>
    (s.disk.write env p src numBytes.toInt).map fun r => { s with disk := r.2 }
  | .writeAt env p src numBytes position =>
    (s.disk.writeAt env p src numBytes.toInt position.toInt).map fun r => { s with disk := r.2 }

end HandleState

end Nachos.Model
