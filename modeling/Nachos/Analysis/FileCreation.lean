import Nachos.Analysis.FileLookup

/-!
# When a file is created

`Create` needs a name that is not taken, an entry of the directory and, besides the sector of
the header, a sector for each part of the file. It takes the header's sector and the entry in
its copies of the free map and the directory before it asks for the data sectors, but it writes
nothing back until it has them all.

Whether there are enough is asked of the free map only. A header has room for `NumDirect`
sectors, and a longer file for which the disk has the sectors makes `Allocate` store behind
`dataSectors`. The second part is about any two system files that are laid out, whatever they
contain: the free map need not agree with the directory.
-/

set_option autoImplicit false

namespace Nachos.Analysis

open Nachos.Library Nachos.Model

variable {i k n : ℕ} {name : Buffer} {size : ℤ} {fs' : FileSystem} {hdr : FileHeader}

/-! ## On a consistent disk -/

/-- What `Create` needs: no entry in use matches the name, an entry is free, and so are a sector
for the header and the sectors of the data. -/
structure RoomFor (directory : Directory) (freeMap : BitMap) (name : Buffer) (size : ℤ) : Prop where
  missing : ∀ i < numDirEntries, (directory.table i).inUse = true →
    strncmpEq (directory.table i).nameBuf name fileNameMaxLen = false
  entry : ∃ i < numDirEntries, (directory.table i).inUse = false
  sectors : 1 + (size + (sectorSize - 1)) / sectorSize ≤ (clearSet freeMap).card

theorem findIndex_eq_none_iff {directory : Directory} (hsize : directory.tableSize = numDirEntries) :
    directory.findIndex name = none ↔ ∀ i < numDirEntries, (directory.table i).inUse = true →
      strncmpEq (directory.table i).nameBuf name fileNameMaxLen = false := by
  rw [findIndex_eq_none, hsize]
  refine forall₂_congr fun i _ => ?_
  unfold Directory.isNamed
  cases (directory.table i).inUse <;> simp

/-- INTERNAL: the reasons to refuse are the ways in which something is missing. -/
theorem roomFor_iff {directory : Directory} (hsize : directory.tableSize = numDirEntries)
    (freeMap : BitMap) (name : Buffer) (size : ℤ) :
    RoomFor directory freeMap name size ↔ ¬ CannotCreate directory freeMap name size := by
  have hceil : (size + ((sectorSize : ℕ) - 1 : ℤ)) / (sectorSize : ℕ) = (size + 127) / 128 := rfl
  unfold CannotCreate
  rw [not_or, not_or, not_not, findIndex_eq_none_iff hsize, not_le]
  constructor
  · intro h
    refine ⟨h.missing, fun hall => ?_, ?_⟩
    · obtain ⟨i, hi, hu⟩ := h.entry
      rw [hall i hi] at hu
      cases hu
    · have hsectors := h.sectors
      rw [hceil] at hsectors
      omega
  · rintro ⟨hmissing, hentry, hsectors⟩
    push Not at hentry
    obtain ⟨i, hi, hu⟩ := hentry
    refine ⟨hmissing, ⟨i, hi, Bool.eq_false_iff.mpr hu⟩, ?_⟩
    rw [hceil]
    omega

section Consistent

variable {fs : FileSystem} {directory directory' : Directory} {freeMap freeMap' : BitMap}

theorem FsInv.cannotCreate_iff (h : FsInv fs directory freeMap)
    (h' : FsInv fs directory' freeMap') (name : Buffer) (size : ℤ) :
    CannotCreate directory' freeMap' name size ↔ CannotCreate directory freeMap name size := by
  unfold CannotCreate
  rw [h.findIndex_eq h', h.clearSet_eq h']
  have htable : (∀ i < numDirEntries, (directory'.table i).inUse = true) ↔
      ∀ i < numDirEntries, (directory.table i).inUse = true :=
    forall₂_congr fun i hi => by rw [h.table_eq h' hi]
  rw [htable]

theorem Created.not_cannotCreate (h : Created fs fs' directory freeMap freeMap' name size i k n hdr) :
    ¬ CannotCreate directory freeMap name size := by
  rintro (hfound | hfull | hfew)
  · exact hfound h.missing
  · have hu := h.unused
    rw [hfull i h.lt] at hu
    cases hu
  · have hcount := h.count
    have hroom := h.room
    omega

theorem Created.sector_free (h : Created fs fs' directory freeMap freeMap' name size i k n hdr) :
    (k : ℤ) ∉ markedSet freeMap := by
  obtain ⟨l, b, hmany, -, -, hfree, -⟩ := findMany_spec (n + 1) freeMap h.room
  rw [h.sectors] at hmany
  cases hmany
  exact hfree k List.mem_cons_self

theorem Created.find (h : Created fs fs' directory freeMap freeMap' name size i k n hdr) :
    (directory.setEntry i (newEntry directory i name k)).find name = k := by
  unfold Directory.find
  rw [h.findIndex]
  simp only
  rw [table_setEntry_self, h.sector]

end Consistent

/-- SOURCE: filesys/filesys.cc:185-226, filesys/filehdr.cc:41-52, filesys/directory.cc:129-143 — on
a consistent disk and for a size from 0 to `MaxFileSize`, `Create` answers `TRUE` exactly when no
entry in use matches the name, an entry is free and so are a sector for the header and the
sectors of the data. When it answers `FALSE` the disk is as before; when it answers `TRUE` only
the sector of the new header, which was free, and those of the two system files can have
changed. -/
theorem create_iff_room {fs : FileSystem} {directory : Directory} {freeMap : BitMap}
    (h : FsInv fs directory freeMap) (name : Buffer) {size : ℤ} (h0 : 0 ≤ size)
    (hmax : size ≤ maxFileSize) (fresh : Fresh) :
    ∃ ok fs', fs.create name size fresh = some (ok, fs') ∧
      (ok = true ↔ RoomFor directory freeMap name size) ∧
      (ok = false → fs'.disk = fs.disk) ∧
      (ok = true → ∃ (directory' : Directory) (freeMap' : BitMap) (k : ℕ),
        FsInv fs' directory' freeMap' ∧ directory'.find name = k ∧ (k : ℤ) ∉ markedSet freeMap ∧
        ∀ s, s ≠ k →
          (∀ g ∈ dataList fs.freeMapFile.hdr ++ dataList fs.directoryFile.hdr, g.toNat ≠ s) →
          fs'.disk s = fs.disk s) := by
  obtain ⟨dir, map, hinv, ⟨hrun, hwhy⟩ | ⟨fs', map', i, k, n, hdr, hrun, hcreated⟩⟩ :=
    h.create_cases name h0 hmax fresh
  · refine ⟨false, fs, hrun, ?_, fun _ => rfl, fun hok => absurd hok (by decide)⟩
    rw [roomFor_iff h.size]
    exact ⟨fun hok => absurd hok (by decide),
      fun hroom => absurd ((h.cannotCreate_iff hinv name size).mp hwhy) hroom⟩
  · refine ⟨true, fs', hrun, ?_, fun hok => absurd hok (by decide), fun _ =>
      ⟨_, map', k, hcreated.inv, hcreated.find, ?_, hcreated.kept⟩⟩
    · rw [roomFor_iff h.size, ← h.cannotCreate_iff hinv]
      exact ⟨fun _ => hcreated.not_cannotCreate, fun _ => rfl⟩
    · rw [← h.markedSet_eq hinv]
      exact hcreated.sector_free

/-- Memory that holds zeros. -/
def zeroFresh : Fresh :=
  ⟨fun _ => ⟨false, 0, fun _ => 0⟩, fun _ => 0, ⟨0, 0, fun _ => 0⟩, fun _ => 0, fun _ => 0⟩

/-- A file of three sectors on a new disk: its directory is empty and 1019 sectors are free. -/
theorem create_on_new_disk :
    ∃ fs directory freeMap,
      FileSystem.formatDisk (fun _ _ => 0#8) zeroFresh ⟨0, 0, fun _ => 0⟩ = some fs ∧
      FsInv fs directory freeMap ∧ RoomFor directory freeMap (cString "a") 300 ∧
      ∃ fs', fs.create (cString "a") 300 zeroFresh = some (true, fs') := by
  obtain ⟨fs, directory, freeMap, hformat, hinv, hunused, hcard⟩ :=
    formatDisk_inv (fun _ _ => 0#8) zeroFresh ⟨0, 0, fun _ => 0⟩
  obtain ⟨ok, fs', hrun, hiff, -⟩ :=
    create_iff_room hinv (cString "a") (show (0 : ℤ) ≤ 300 by decide) (by decide) zeroFresh
  have hroom : RoomFor directory freeMap (cString "a") 300 :=
    { missing := fun i hi hu => absurd hu (by rw [hunused i hi]; decide)
      entry := ⟨0, by decide, hunused 0 (by decide)⟩
      sectors := by rw [hcard]; decide }
  exact ⟨fs, directory, freeMap, hformat, hinv, hroom, fs', by rw [hrun, hiff.mpr hroom]⟩

/-! ## Sizes no header can hold -/

/-- The header that goes with a file of `size` bytes: a sector for each part, all of them
distinct, inside `dataSectors` and not marked in `freeMap`. -/
structure HoldsSectors (hdr : FileHeader) (freeMap : BitMap) (size : ℤ) : Prop where
  bytes : hdr.numBytes.toInt = size
  sectors : hdr.numSectors.toInt = (size + (sectorSize - 1)) / sectorSize
  direct : hdr.numSectors.toInt ≤ numDirect
  nodup : (dataList hdr).Nodup
  free : ∀ f ∈ dataList hdr, f ∉ markedSet freeMap

/-- `Create` answers `FALSE` and leaves the disk, or makes a header that holds all sectors of the
file and writes it to a free sector `k`. It is still there afterwards unless the free map has
given away a sector of the two system files. -/
def CreateContained (fs : FileSystem) (freeMap : BitMap) (name : Buffer) (size : ℤ)
    (fresh : Fresh) : Prop :=
  fs.create name size fresh = some (false, fs) ∨
    ∃ (fs' : FileSystem) (k : ℕ) (hdr : FileHeader),
      fs.create name size fresh = some (true, fs') ∧ HoldsSectors hdr freeMap size ∧
      (k : ℤ) ∉ markedSet freeMap ∧ (k : ℤ) ∉ dataList hdr ∧
      ((∀ g ∈ dataList fs.freeMapFile.hdr ++ dataList fs.directoryFile.hdr, g.toNat ≠ k) →
        headerAt fs'.disk k = hdr)

section AnyFreeMap

variable {fs : FileSystem} {directory : Directory} {freeMap : BitMap} {fresh : Fresh}

/-- INTERNAL: a file that a header can hold is made. -/
theorem SystemLayout.create_of_le (h : SystemLayout fs)
    (hdir : fs.fetchDirectory fresh = some directory) (hmap : fs.fetchFreeMap fresh = some freeMap)
    (h0 : 0 ≤ size) (hmax : size ≤ maxFileSize) (hroom : ¬ CannotCreate directory freeMap name size) :
    CreateContained fs freeMap name size fresh := by
  obtain ⟨i, k, -, -, hk, hclear, -, hcard, hcreate⟩ := create_of_room hdir hmap h0 hroom
  have hbits : (setBit freeMap k).numBits = numSectors := by
    rw [← numBits_fetchFreeMap hmap]
    rfl
  have hkbits : k < freeMap.numBits := by rw [numBits_fetchFreeMap hmap]; exact hk
  have hsetk := mem_markedSet_setBit hkbits
  rcases allocate_cases fresh.hdr hbits h0 hmax with
    ⟨hdr, -, hfew⟩ | ⟨n, hdr, freeMap', l, halloc, hle, hmany, rfl, hn, hbytes, hsectors⟩
  · omega
  obtain ⟨l', b', hmany', -, hnodup, hfree, hbits', -⟩ := findMany_spec n _ hle
  rw [hmany] at hmany'
  cases hmany'
  have hsize : (directory.setEntry i (newEntry directory i name k)).tableSize = numDirEntries := by
    rw [← tableSize_fetchDirectory hdir]
    rfl
  obtain ⟨d, hrun, hflush⟩ := h.flushCreate hsize (hbits'.trans hbits) hk hdr fresh
  refine Or.inr ⟨{ fs with disk := d }, k, hdr, ?_,
    ⟨hbytes, hsectors, ?_, hnodup, fun f hf hmem => ?_⟩, ?_, fun hmem => ?_, hflush.headerAt_eq⟩
  · simp [hcreate, halloc, hrun]
  · rw [hsectors]
    simp only [maxFileSize, numDirect, sectorSize] at hmax ⊢
    omega
  · exact hfree f hf ((hsetk f).mpr (Or.inl hmem))
  · rw [natCast_mem_markedSet, hclear]
    simp
  · exact hfree k hmem ((hsetk k).mpr (Or.inr rfl))

end AnyFreeMap

/-- SOURCE: filesys/filesys.cc:185-226, filesys/filehdr.cc:41-52 — for any contents of the free map
and the directory and any size that is not negative, `Create` answers `FALSE` with the disk
unchanged or makes a header that holds all sectors of the file, exactly when the size is at most
`MaxFileSize` or there is another reason to refuse it: the name is taken, no entry is free, or
there are too few free sectors. -/
theorem create_contained_iff {fs : FileSystem} (h : SystemLayout fs) {fresh : Fresh}
    {directory : Directory} {freeMap : BitMap} (hdir : fs.fetchDirectory fresh = some directory)
    (hmap : fs.fetchFreeMap fresh = some freeMap) (name : Buffer) {size : ℤ} (h0 : 0 ≤ size) :
    CreateContained fs freeMap name size fresh ↔
      size ≤ maxFileSize ∨ CannotCreate directory freeMap name size := by
  by_cases hroom : CannotCreate directory freeMap name size
  · exact ⟨fun _ => Or.inr hroom, fun _ => Or.inl (create_of_cannotCreate hdir hmap h0 hroom)⟩
  · constructor
    · intro hcontained
      by_contra hno
      rw [not_or, not_le] at hno
      have hnone := create_eq_none hdir hmap hno.1 hno.2
      obtain hrun | ⟨fs', k, hdr, hrun, -⟩ := hcontained
      · rw [hnone] at hrun
        cases hrun
      · rw [hnone] at hrun
        cases hrun
    · rintro (hmax | hwhy)
      · exact h.create_of_le hdir hmap h0 hmax hroom
      · exact absurd hwhy hroom

/-- A file of `MaxFileSize` bytes on a new disk. -/
theorem longest_file_contained :
    ∃ fs directory freeMap,
      FileSystem.formatDisk (fun _ _ => 0#8) zeroFresh ⟨0, 0, fun _ => 0⟩ = some fs ∧
      fs.fetchDirectory zeroFresh = some directory ∧ fs.fetchFreeMap zeroFresh = some freeMap ∧
      CreateContained fs freeMap (cString "a") 3840 zeroFresh := by
  obtain ⟨fs, dir, map, hformat, hinv, -⟩ :=
    formatDisk_inv (fun _ _ => 0#8) zeroFresh ⟨0, 0, fun _ => 0⟩
  obtain ⟨directory, hdir, hinv⟩ := hinv.fetchDirectory zeroFresh
  obtain ⟨freeMap, hmap, hinv⟩ := hinv.fetchFreeMap zeroFresh
  exact ⟨fs, directory, freeMap, hformat, hdir, hmap,
    (create_contained_iff hinv.layout hdir hmap (cString "a") (by decide)).mpr (Or.inl (by decide))⟩

/-- SOURCE: filesys/filehdr.cc:41-52 — on a new disk, which has 1019 free sectors, a file of 3841
bytes needs 31 of them: `Allocate` stores the last one behind `dataSectors`. -/
theorem too_long_file_overruns_header :
    ∃ fs directory freeMap,
      FileSystem.formatDisk (fun _ _ => 0#8) zeroFresh ⟨0, 0, fun _ => 0⟩ = some fs ∧
      fs.fetchDirectory zeroFresh = some directory ∧ fs.fetchFreeMap zeroFresh = some freeMap ∧
      (clearSet freeMap).card = 1019 ∧ fs.create (cString "a") 3841 zeroFresh = none ∧
      ¬ CreateContained fs freeMap (cString "a") 3841 zeroFresh := by
  obtain ⟨fs, dir, map, hformat, hinv₀, hunused, hcard⟩ :=
    formatDisk_inv (fun _ _ => 0#8) zeroFresh ⟨0, 0, fun _ => 0⟩
  obtain ⟨directory, hdir, hinv₁⟩ := hinv₀.fetchDirectory zeroFresh
  obtain ⟨freeMap, hmap, hinv⟩ := hinv₁.fetchFreeMap zeroFresh
  have hfree : (clearSet freeMap).card = 1019 := by rw [hinv₀.clearSet_eq hinv, hcard]
  have hunused' : ∀ i < numDirEntries, (directory.table i).inUse = false := by
    intro i hi
    rw [hinv₀.table_eq hinv hi, hunused i hi]
  have hroom : ¬ CannotCreate directory freeMap (cString "a") 3841 := by
    rw [← roomFor_iff hinv.size]
    refine ⟨fun i hi hu => ?_, ⟨0, by decide, hunused' 0 (by decide)⟩, ?_⟩
    · rw [hunused' i hi] at hu
      cases hu
    · rw [hfree]
      decide
  have hnone := create_eq_none hdir hmap (show (maxFileSize : ℤ) < 3841 by decide) hroom
  refine ⟨fs, directory, freeMap, hformat, hdir, hmap, hfree, hnone, ?_⟩
  rintro (hrun | ⟨fs', k, hdr, hrun, -⟩)
  · rw [hnone] at hrun
    cases hrun
  · rw [hnone] at hrun
    cases hrun

end Nachos.Analysis
