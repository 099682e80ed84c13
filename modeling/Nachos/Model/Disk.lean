import Mathlib.Data.BitVec
import Mathlib.Logic.Function.Basic

/-!
# The simulated disk (machine/disk.h, machine/disk.cc)

The contents of the disk, addressed by sector. A request on a sector outside the disk
fails the assertion of `ReadRequest` and `WriteRequest` and is `none` here. When the
completion interrupt of a request arrives is the matter of `Nachos.Model.SynchDisk`.
-/

set_option autoImplicit false

namespace Nachos.Model

/-- `SectorSize` (disk.h:49). -/
def sectorSize : ℕ := 128

theorem sectorSize_pos : 0 < sectorSize := by decide

/-- `SectorsPerTrack` (disk.h:50). -/
def sectorsPerTrack : ℕ := 32

/-- `NumTracks` (disk.h:51). -/
def numTracks : ℕ := 32

/-- `NumSectors` (disk.h:52). -/
def numSectors : ℕ := sectorsPerTrack * numTracks

/-- A `char`. -/
abbrev Byte : Type := BitVec 8

/-- The bytes of one sector. -/
abbrev Sector : Type := Fin sectorSize → Byte

/-- The contents of the UNIX file behind the disk, sector by sector. -/
abbrev DiskImage : Type := ℕ → Sector

/-- The range the two requests assert (disk.cc:121, 141). -/
def ValidSector (sectorNumber : ℤ) : Prop := 0 ≤ sectorNumber ∧ sectorNumber < numSectors

instance (sectorNumber : ℤ) : Decidable (ValidSector sectorNumber) :=
  inferInstanceAs (Decidable (_ ∧ _))

namespace DiskImage

/-- The transfer of `Disk::ReadRequest` (disk.cc:115-133). -/
def readSector (d : DiskImage) (sectorNumber : ℤ) : Option Sector :=
  if ValidSector sectorNumber then some (d sectorNumber.toNat) else none

/-- The transfer of `Disk::WriteRequest` (disk.cc:135-153). -/
def writeSector (d : DiskImage) (sectorNumber : ℤ) (data : Sector) : Option DiskImage :=
  if ValidSector sectorNumber then some (Function.update d sectorNumber.toNat data) else none

end DiskImage

end Nachos.Model
