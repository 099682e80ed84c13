import Nachos.Library.Runs
import Nachos.Model.Disk
import Nachos.Model.Interrupt

/-!
# How long a request takes (machine/disk.h, machine/disk.cc)

The disk keeps the sector of the last request and the time since when its track buffer has been
filled. From these and the clock `ComputeLatency` finds how long a request takes; the completion interrupt
is scheduled for then. `DiskClock` is the disk with the clock: time passes, requests are made, and an
interrupt that is due is handled.

The clock and all that is computed from it are `int`s. A step is `none` where a sum is not one, as
in `Nachos.Model.Interrupt`.
-/

set_option autoImplicit false

namespace Nachos.Model

/-- `x` as an `int`; `none` if it is none. -/
def asInt (x : ℤ) : Option ℤ := if -2147483648 ≤ x ∧ x ≤ 2147483647 then some x else none

/-- `RotationTime` (stats.h:54). -/
def rotationTime : ℤ := 500

/-- `SeekTime` (stats.h:55). -/
def seekTime : ℤ := 500

/-- The fields of class `Disk` that the time of a request depends on (disk.h:83-85). -/
structure DiskHead where
  lastSector : ℤ
  bufferInit : ℤ
  active : Bool
deriving DecidableEq, Repr

namespace DiskHead

/-- `Disk::TimeToSeek` (disk.cc:179-194): the time for the seek, and the rest of the sector that
is then under the head. -/
def timeToSeek (d : DiskHead) (totalTicks newSector : ℤ) : Option (ℤ × ℤ) := do
  let newTrack := newSector.tdiv sectorsPerTrack
  let oldTrack := d.lastSector.tdiv sectorsPerTrack
  let seek ← asInt (((newTrack - oldTrack).natAbs : ℤ) * seekTime)
  let arrived ← asInt (totalTicks + seek)
  let over' := arrived.tmod rotationTime
  return (seek, if 0 < over' then rotationTime - over' else 0)

/-- `Disk::ModuloDiff` (disk.cc:202-209). -/
def moduloDiff (target start : ℤ) : ℤ :=
  let toOffset := target.tmod sectorsPerTrack
  let fromOffset := start.tmod sectorsPerTrack
  ((toOffset - fromOffset) + sectorsPerTrack).tmod sectorsPerTrack

/-- The test of the track buffer (disk.cc:241-243). Only a read on the track that the head is on
gets to the difference of the times. -/
def inTrackBuffer (d : DiskHead) (seek timeAfter newSector : ℤ) (writing : Bool) : Option Bool :=
  if writing = false ∧ seek = 0 then do
    let filled ← asInt (timeAfter - d.bufferInit)
    return decide (filled.tdiv rotationTime >
      moduloDiff newSector (d.bufferInit.tdiv rotationTime))
  else some false

/-- `Disk::ComputeLatency` (disk.cc:232-253), with the track buffer. -/
def computeLatency (d : DiskHead) (totalTicks newSector : ℤ) (writing : Bool) : Option ℤ := do
  let (seek, rotation) ← d.timeToSeek totalTicks newSector
  let timeAfter ← asInt (totalTicks + seek + rotation)
  if ← d.inTrackBuffer seek timeAfter newSector writing then
    return rotationTime
  else
    -- less than a turn of the disk, so an `int`
    let rotation := rotation + moduloDiff newSector (timeAfter.tdiv rotationTime) * rotationTime
    asInt (seek + rotation + rotationTime)

/-- `Disk::UpdateLast` (disk.cc:261-271). -/
def updateLast (d : DiskHead) (totalTicks newSector : ℤ) : Option DiskHead := do
  let (seek, rotate) ← d.timeToSeek totalTicks newSector
  let bufferInit ← if seek ≠ 0 then asInt (totalTicks + seek + rotate) else some d.bufferInit
  return { d with bufferInit := bufferInit, lastSector := newSector }

/-- `Disk::ReadRequest` and `Disk::WriteRequest` (disk.cc:115-152) without the transfer: the ticks
given to `Schedule`; `none` if an assertion fails. -/
def request (d : DiskHead) (totalTicks sectorNumber : ℤ) (writing : Bool) :
    Option (ℤ × DiskHead) := do
  let ticks ← d.computeLatency totalTicks sectorNumber writing
  if d.active = false ∧ ValidSector sectorNumber then
    let head ← { d with active := true }.updateLast totalTicks sectorNumber
    return (ticks, head)
  else none

/-- `Disk::HandleInterrupt` (disk.cc:161-166). -/
def handleInterrupt (d : DiskHead) : DiskHead := { d with active := false }

end DiskHead

/-- The disk, the clock, and when the completion interrupt is due. -/
structure DiskClock where
  totalTicks : ℤ
  head : DiskHead
  due : Option ℤ
deriving DecidableEq, Repr

/-- `Disk::Disk` (disk.cc:43-67), at the time `totalTicks`. -/
def DiskClock.new (totalTicks : Fin 2147483648) : DiskClock :=
  { totalTicks := totalTicks.val, head := ⟨0, 0, false⟩, due := none }

/-- When `Interrupt::Schedule` (interrupt.cc:265-275) makes the interrupt due. -/
def dueTime (totalTicks fromNow : ℤ) : Option ℤ := do
  let when ← asInt (totalTicks + fromNow)
  if 0 < fromNow then return when else none

/-- What happens: time passes, a request is made, the completion interrupt comes. -/
inductive DiskEvent where
  | pass (ticks : ℕ)
  | request (sectorNumber : ℤ) (writing : Bool)
  | done
deriving DecidableEq, Repr

/-- One event; `none` if it cannot happen, an assertion fails or a sum is not an `int`. -/
def DiskClock.step (s : DiskClock) : DiskEvent → Option DiskClock
  | .pass ticks => do
    let now ← asInt (s.totalTicks + ticks)
    return { s with totalTicks := now }
  | .request sectorNumber writing => do
    let (ticks, head) ← s.head.request s.totalTicks sectorNumber writing
    let when ← dueTime s.totalTicks ticks
    return { s with head := head, due := some when }
  | .done => do
    let when ← s.due
    if when ≤ s.totalTicks then
      return { s with head := s.head.handleInterrupt, due := none }
    else none

end Nachos.Model
