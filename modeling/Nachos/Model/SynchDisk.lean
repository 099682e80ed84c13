import Nachos.Model.Disk
import Nachos.Model.Semaphore

/-!
# `SynchDisk` (filesys/synchdisk.cc) over the asynchronous disk

`ReadSector` and `WriteSector` acquire the lock, hand a request to the disk and wait in
`semaphore->P()` for its completion interrupt. The lock is the one of
threads/synch.cc:100-106: `Acquire` and `Release` have empty bodies.

From the request to the test in `P` interrupts stay off or are not re-enabled, so a call
up to its first test of the semaphore is one step. The disk interrupt, whenever it comes,
clears `active` and does the `V`.
-/

set_option autoImplicit false

namespace Nachos.Model

/-- class `Lock` (synch.h:66-84); there is nothing in it but its name. -/
structure Lock where
  name : String

namespace Lock

/-- `Lock::Acquire` (synch.cc:105). -/
def acquire (l : Lock) : Lock := l

/-- `Lock::Release` (synch.cc:106). -/
def release (l : Lock) : Lock := l

end Lock

/-- The synchronous disk with its callers. Requests are numbered in the order they are
issued. `data t` is the buffer thread `t` passes to `ReadSector`, `pending` the request whose interrupt is scheduled, `waiting t` the request of
the call thread `t` is inside of, `ready` the threads woken that have not tested the
semaphore again. `failed` says that the assertion `!active` has failed, which aborts the
kernel. `completed` and `returned`, the requests whose interrupt has come and those whose
call has returned, are read by no step. -/
structure SynchDiskState where
  image : DiskImage
  data : ThreadId → Sector
  active : Bool
  pending : Option ℕ
  lock : Lock
  semaphore : Semaphore
  issued : ℕ
  waiting : ThreadId → Option ℕ
  ready : List ThreadId
  failed : Bool
  completed : List ℕ
  returned : List ℕ

/-- A call of one of the two operations on a valid sector, the completion interrupt, or
the dispatch of a thread it has woken. -/
inductive SynchDiskEvent where
  | readSector (t : ThreadId) (sectorNumber : Fin numSectors)
  | writeSector (t : ThreadId) (sectorNumber : Fin numSectors) (data : Sector)
  | interrupt
  | resume (t : ThreadId)

namespace SynchDiskState

/-- `SynchDisk::SynchDisk` (synchdisk.cc:43-48) on a disk that holds `image`, with the
buffers of the threads holding anything. -/
def init (image : DiskImage) (data : ThreadId → Sector) : SynchDiskState where
  image := image
  data := data
  active := false
  pending := none
  lock := ⟨"synch disk lock"⟩
  semaphore := Semaphore.new "synch disk" 0#32
  issued := 0
  waiting := fun _ => none
  ready := []
  failed := false
  completed := []
  returned := []

/-- `Disk::ReadRequest`/`WriteRequest` (disk.cc:115-153): `image` and `data` are the disk
and the buffers after the transfer, which happens at once; the interrupt is scheduled for
later. -/
def request (s : SynchDiskState) (image : DiskImage) (data : ThreadId → Sector) :
    SynchDiskState :=
  if s.active then { s with failed := true }
  else { s with
    image := image
    data := data
    active := true
    pending := some s.issued
    issued := s.issued + 1 }

/-- Thread `t` tests the semaphore in the `P` of its call with request `r`. Past it the
call releases the lock and returns (synchdisk.cc:77-78, 95-96). -/
def testP (s : SynchDiskState) (t : ThreadId) (r : ℕ) : SynchDiskState :=
  match s.semaphore.p t with
  | (sem, true) => { s with
      semaphore := sem
      lock := s.lock.release
      waiting := Function.update s.waiting t none
      returned := r :: s.returned }
  | (sem, false) => { s with
      semaphore := sem
      waiting := Function.update s.waiting t (some r) }

/-- `SynchDisk::ReadSector`/`WriteSector` (synchdisk.cc:72-97) up to the first test. -/
def call (s : SynchDiskState) (t : ThreadId) (image : DiskImage) (data : ThreadId → Sector) :
    SynchDiskState :=
  let s' := { s with lock := s.lock.acquire }.request image data
  if s'.failed then s' else s'.testP t s.issued

/-- `Disk::HandleInterrupt` and `SynchDisk::RequestDone` (disk.cc:161-166,
synchdisk.cc:105-109). -/
def handleInterrupt (s : SynchDiskState) (r : ℕ) : SynchDiskState :=
  let (sem, woken) := s.semaphore.v
  { s with
    active := false
    pending := none
    semaphore := sem
    ready := s.ready ++ woken.toList
    completed := r :: s.completed }

/-- One step. Nothing runs after a failed assertion, and a thread inside a call makes no
other. -/
def step (s : SynchDiskState) (e : SynchDiskEvent) : Option SynchDiskState :=
  if s.failed then none
  else match e with
    | .readSector t sectorNumber =>
      if (s.waiting t).isSome then none
      else some (s.call t s.image (Function.update s.data t (s.image sectorNumber)))
    | .writeSector t sectorNumber data =>
      if (s.waiting t).isSome then none
      else some (s.call t (Function.update s.image sectorNumber data) s.data)
    | .interrupt =>
      match s.pending with
      | none => none
      | some r => some (s.handleInterrupt r)
    | .resume t =>
      if s.ready.contains t then
        match s.waiting t with
        | none => none
        | some r => some ({ s with ready := s.ready.erase t }.testP t r)
      else none

end SynchDiskState

end Nachos.Model
