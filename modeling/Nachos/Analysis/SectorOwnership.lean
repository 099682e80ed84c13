import Nachos.Analysis.DirectoryTable
import Nachos.Analysis.SectorAllocation
import Nachos.Library.Ownership
import Nachos.Library.Runs

/-!
# Who owns the sectors of the disk

The owners of sectors are the file system itself, with the headers and the data of the
free map and the directory, and the entries of the directory, each with its header sector
and the data sectors its header lists. The invariant `FsInv` says that the free map on
disk marks exactly what they hold (`Nachos.Library.Owned`), together with what makes this
readable off the disk: the two system files have the bytes of the free map and of the
directory as content, and their headers are where `Open` looks for them.

`Create` takes a header sector and data sectors for one free entry, and `Remove` gives
those of one entry back. Both write only the system files and, in `Create`, the new
header, and none of these sectors is anybody else's. Every failing branch returns before
the first write.
-/

set_option autoImplicit false

namespace Nachos.Analysis

open Nachos.Library Nachos.Model

/-! ## The invariant -/

/-- The header in a sector of the disk. -/
def headerAt (d : DiskImage) (sector : ℤ) : FileHeader := FileHeader.ofSector (d sector.toNat)

/-- The sectors of a directory entry in use: its header and the data of that header. -/
def entrySectors (d : DiskImage) (entry : DirectoryEntry) : List ℤ :=
  if entry.inUse then entry.sector.toInt :: dataList (headerAt d entry.sector.toInt) else []

/-- INTERNAL: what the file system and the entries of its directory hold.
SRCLINE: filesys/filesys.cc:57-58, filesys/directory.h:31-39 -/
def heldSectors (fs : FileSystem) (directory : Directory) : Option ℕ → List ℤ
  | none => freeMapSector :: directorySector ::
      (dataList fs.freeMapFile.hdr ++ dataList fs.directoryFile.hdr)
  | some i => if i < numDirEntries then entrySectors fs.disk (directory.table i) else []

/-- A header of a file of at most `MaxFileSize` bytes, with a sector for each part of it. -/
structure Sized (hdr : FileHeader) : Prop where
  nonneg : 0 ≤ hdr.numBytes.toInt
  le_max : hdr.numBytes.toInt ≤ maxFileSize
  sectors : hdr.numSectors.toInt = (hdr.numBytes.toInt + 127) / 128

/-- INTERNAL: the two system files have the lengths they were made with.
SRCLINE: filesys/filesys.cc:97-98 -/
structure SystemLengths (fs : FileSystem) : Prop where
  map : fs.freeMapFile.hdr.numBytes.toInt = freeMapFileSize
  mapSized : Sized fs.freeMapFile.hdr
  dir : fs.directoryFile.hdr.numBytes.toInt = directoryFileSize
  dirSized : Sized fs.directoryFile.hdr

/-- INTERNAL: the disk holds `directory` and `freeMap`, and they agree.
SRCLINE: filesys/filesys.cc:80-325 -/
structure FsInv (fs : FileSystem) (directory : Directory) (freeMap : BitMap) : Prop where
  bits : freeMap.numBits = numSectors
  size : directory.tableSize = numDirEntries
  lengths : SystemLengths fs
  mapHeader : headerAt fs.disk freeMapSector = fs.freeMapFile.hdr
  dirHeader : headerAt fs.disk directorySector = fs.directoryFile.hdr
  mapContent : ∀ k < freeMapFileSize, content fs.freeMapFile.hdr fs.disk k = bytesOf freeMap.map k
  dirContent : ∀ k < directoryFileSize,
    content fs.directoryFile.hdr fs.disk k = directory.toBytes k
  owned : Owned (heldSectors fs directory) (markedSet freeMap)
  sized : ∀ i < numDirEntries, (directory.table i).inUse = true →
    Sized (headerAt fs.disk (directory.table i).sector.toInt)
  names : ∀ i < numDirEntries, ∀ j < numDirEntries, i ≠ j → (directory.table i).inUse = true →
    (directory.table j).inUse = true →
    strncmpEq (directory.table i).nameBuf (directory.table j).nameBuf fileNameMaxLen = false

/-! ## The layout of the system files -/

/-- INTERNAL: the two system files are laid out and share no sector.
SRCLINE: filesys/filesys.cc:97-98 -/
structure SystemLayout (fs : FileSystem) : Prop where
  lengths : SystemLengths fs
  map : LaidOut fs.freeMapFile.hdr 1
  dir : LaidOut fs.directoryFile.hdr 2
  apart : ∀ f ∈ dataList fs.freeMapFile.hdr, f ∉ dataList fs.directoryFile.hdr
  nonneg : ∀ f ∈ dataList fs.freeMapFile.hdr ++ dataList fs.directoryFile.hdr, 0 ≤ f

theorem SystemLengths.mapSectors {fs : FileSystem} (h : SystemLengths fs) :
    fs.freeMapFile.hdr.numSectors.toInt = (1 : ℕ) := by
  rw [h.mapSized.sectors, h.map]
  rfl

theorem SystemLengths.dirSectors {fs : FileSystem} (h : SystemLengths fs) :
    fs.directoryFile.hdr.numSectors.toInt = (2 : ℕ) := by
  rw [h.dirSized.sectors, h.dir]
  rfl

/-- INTERNAL: a header is laid out when its data list has no duplicate and is marked. -/
theorem laidOut_of_marked {hdr : FileHeader} {freeMap : BitMap} {n : ℕ} (hs : Sized hdr)
    (hn : hdr.numSectors.toInt = n) (hbits : freeMap.numBits = numSectors)
    (hnodup : (dataList hdr).Nodup) (hmarked : ∀ f ∈ dataList hdr, f ∈ markedSet freeMap) :
    LaidOut hdr n := by
  have hbytes := hs.nonneg
  have hmax := hs.le_max
  have hsectors := hs.sectors
  refine ⟨?_, hbytes, ?_, fun i hi => ?_, fun i hi j hj heq => ?_⟩
  · simp only [maxFileSize, numDirect, sectorSize] at *
    omega
  · show hdr.numBytes.toInt ≤ _
    simp only [sectorSize]
    omega
  · obtain ⟨k, hk, -, heq⟩ := hmarked _ (mem_dataList hn hi)
    rw [hbits] at hk
    rw [heq]
    exact ⟨Int.natCast_nonneg k, by exact_mod_cast hk⟩
  · unfold dataList at hnodup
    have hnat : hdr.numSectors.toInt.toNat = n := by omega
    rw [hnat] at hnodup
    exact List.inj_on_of_nodup_map hnodup (List.mem_range.mpr hi) (List.mem_range.mpr hj) heq

section Invariant

variable {fs : FileSystem} {directory : Directory} {freeMap : BitMap}

theorem FsInv.nonneg (h : FsInv fs directory freeMap) {o : Option ℕ} {f : ℤ}
    (hf : f ∈ heldSectors fs directory o) : 0 ≤ f := by
  obtain ⟨k, -, -, rfl⟩ := h.owned.mem_marked hf
  exact Int.natCast_nonneg k

theorem mem_heldSectors_none (directory : Directory) {f : ℤ}
    (hf : f ∈ dataList fs.freeMapFile.hdr ++ dataList fs.directoryFile.hdr) :
    f ∈ heldSectors fs directory none :=
  List.mem_cons_of_mem _ (List.mem_cons_of_mem _ hf)

theorem systemLayout_of_owned (hlen : SystemLengths fs) (hbits : freeMap.numBits = numSectors)
    (hown : Owned (heldSectors fs directory) (markedSet freeMap)) : SystemLayout fs := by
  have hnodup : (heldSectors fs directory none).Nodup := hown.nodup none
  unfold heldSectors at hnodup
  rw [List.nodup_cons, List.nodup_cons] at hnodup
  obtain ⟨-, -, hdata⟩ := hnodup
  rw [List.nodup_append] at hdata
  obtain ⟨hmap, hdir, hapart⟩ := hdata
  have hmarked : ∀ f ∈ dataList fs.freeMapFile.hdr ++ dataList fs.directoryFile.hdr,
      f ∈ markedSet freeMap := fun f hf => hown.mem_marked (mem_heldSectors_none directory hf)
  refine ⟨hlen, ?_, ?_, fun f hf hf' => hapart f hf f hf' rfl, fun f hf => ?_⟩
  · exact laidOut_of_marked hlen.mapSized hlen.mapSectors hbits hmap
      fun f hf => hmarked f (List.mem_append_left _ hf)
  · exact laidOut_of_marked hlen.dirSized hlen.dirSectors hbits hdir
      fun f hf => hmarked f (List.mem_append_right _ hf)
  · obtain ⟨k, -, -, rfl⟩ := hmarked f hf
    exact Int.natCast_nonneg k

theorem FsInv.layout (h : FsInv fs directory freeMap) : SystemLayout fs :=
  systemLayout_of_owned h.lengths h.bits h.owned

/-! ## Fetching -/

/-- INTERNAL: the invariant only looks at the entries and words that are on disk. -/
theorem FsInv.congr (h : FsInv fs directory freeMap) {directory' : Directory} {freeMap' : BitMap}
    (hsize : directory'.tableSize = numDirEntries) (hbits : freeMap'.numBits = numSectors)
    (htable : ∀ i < numDirEntries, directory'.table i = directory.table i)
    (hmap : ∀ w < numSectors / 32, freeMap'.map w = freeMap.map w) :
    FsInv fs directory' freeMap' := by
  have hset : ∀ i < numSectors, isSet freeMap' i = isSet freeMap i := by
    intro i hi
    unfold isSet
    rw [hmap (i / 32) (by simp only [numSectors, sectorsPerTrack, numTracks] at *; omega)]
  refine ⟨hbits, hsize, h.lengths, h.mapHeader, h.dirHeader, fun k hk => ?_, fun k hk => ?_, ?_,
    fun i hi hu => ?_, fun i hi j hj hne hui huj => ?_⟩
  · rw [h.mapContent k hk]
    unfold bytesOf
    rw [hmap (k / 4) (by simp only [freeMapFileSize, numSectors, sectorsPerTrack, numTracks] at *; omega)]
  · rw [h.dirContent k hk]
    unfold Directory.toBytes
    rw [htable (k / sizeofDirectoryEntry)
      (by simp only [directoryFileSize, sizeofDirectoryEntry, numDirEntries] at *; omega)]
  · refine h.owned.congr (fun o => ?_) fun f => ?_
    · cases o with
      | none => rfl
      | some i =>
        unfold heldSectors
        by_cases hi : i < numDirEntries
        · simp only [htable i hi]
        · simp only [hi, if_false]
    · constructor
      · rintro ⟨i, hi, hs, rfl⟩
        rw [hbits] at hi
        exact ⟨i, by rw [h.bits]; exact hi, by rw [← hset i hi]; exact hs, rfl⟩
      · rintro ⟨i, hi, hs, rfl⟩
        rw [h.bits] at hi
        exact ⟨i, by rw [hbits]; exact hi, by rw [hset i hi]; exact hs, rfl⟩
  · rw [htable i hi] at hu ⊢
    exact h.sized i hi hu
  · rw [htable i hi] at hui ⊢
    rw [htable j hj] at huj ⊢
    exact h.names i hi j hj hne hui huj

theorem FsInv.fetchDirectory (h : FsInv fs directory freeMap) (fresh : Fresh) :
    ∃ directory', fs.fetchDirectory fresh = some directory' ∧ FsInv fs directory' freeMap := by
  have hread := h.layout.dir.readAt h.lengths.dir fs.disk
    (Directory.new numDirEntries fresh.table).toBytes (m := directoryFileSize) (p := 0) (by decide)
  have hcast : (((Directory.new numDirEntries fresh.table).tableSize : ℤ) * sizeofDirectoryEntry) =
      (directoryFileSize : ℕ) := rfl
  unfold FileSystem.fetchDirectory Directory.fetchFrom
  rw [hcast, show (0 : ℤ) = ((0 : ℕ) : ℤ) from rfl, hread]
  refine ⟨_, rfl, h.congr rfl h.bits (fun i hi => directory_ofBytes fun k _ hk => ?_)
    fun _ _ => rfl⟩
  have hklt : k < directoryFileSize := by
    simp only [directoryFileSize, sizeofDirectoryEntry, numDirEntries] at *
    omega
  have hgranted : k < granted directoryFileSize directoryFileSize 0 := by
    unfold granted
    omega
  simp only
  rw [if_pos hgranted, Nat.zero_add]
  exact h.dirContent k hklt

/-- INTERNAL: the free map that an operation fetches is the one on disk. -/
theorem FsInv.fetchFreeMap (h : FsInv fs directory freeMap) (fresh : Fresh) :
    ∃ freeMap', fs.fetchFreeMap fresh = some freeMap' ∧ FsInv fs directory freeMap' := by
  obtain ⟨b, hnew, hbits, -⟩ := new_eq numSectors fresh.words
  have hread := h.layout.map.readAt h.lengths.map fs.disk (bytesOf b.map)
    (m := freeMapFileSize) (p := 0) (by decide)
  have hcast : ((b.numWords : ℤ) * 4) = (freeMapFileSize : ℕ) := by
    unfold BitMap.numWords
    rw [hbits]
    rfl
  unfold FileSystem.fetchFreeMap BitMap.fetchFrom
  rw [hnew, Option.bind_eq_bind, Option.bind_some, hcast, show (0 : ℤ) = ((0 : ℕ) : ℤ) from rfl,
    hread]
  refine ⟨_, rfl, h.congr h.size hbits (fun _ _ => rfl) fun w hw =>
    wordAt_of_bytes (n := freeMapFileSize) (fun k hk => ?_) ?_⟩
  · have hgranted : k < granted freeMapFileSize freeMapFileSize 0 := by
      unfold granted
      omega
    simp only
    rw [if_pos hgranted, Nat.zero_add]
    exact h.mapContent k hk
  · simp only [numSectors, sectorsPerTrack, numTracks, freeMapFileSize] at *
    omega

end Invariant

/-! ## Writing back -/

/-- INTERNAL: `d'` is `d` with the two system files holding `directory` and `freeMap`.
SRCLINE: filesys/filesys.cc:217-218, 319-320 -/
structure Flushed (fs : FileSystem) (d d' : DiskImage) (directory : Directory) (freeMap : BitMap) :
    Prop where
  map : ∀ k < freeMapFileSize, content fs.freeMapFile.hdr d' k = bytesOf freeMap.map k
  dir : ∀ k < directoryFileSize, content fs.directoryFile.hdr d' k = directory.toBytes k
  other : ∀ s, (∀ f ∈ dataList fs.freeMapFile.hdr ++ dataList fs.directoryFile.hdr, f.toNat ≠ s) →
    d' s = d s

section Flush

variable {fs : FileSystem}

theorem SystemLayout.writeDirectory (h : SystemLayout fs) {directory : Directory}
    (hsize : directory.tableSize = numDirEntries) (d : DiskImage) (buf : Buffer) :
    ∃ d', directory.writeBack fs.directoryFile d buf = some d' ∧
      (∀ k < directoryFileSize, content fs.directoryFile.hdr d' k = directory.toBytes k) ∧
      ∀ s, (∀ f ∈ dataList fs.directoryFile.hdr, f.toNat ≠ s) → d' s = d s := by
  obtain ⟨d', hwrite, hcontent, hother⟩ := h.dir.writeAt h.lengths.dir d buf directory.toBytes
    (m := directoryFileSize) (p := 0) (by decide)
  have hcast : ((directory.tableSize : ℤ) * sizeofDirectoryEntry) = (directoryFileSize : ℕ) := by
    rw [hsize]
    rfl
  unfold Directory.writeBack
  rw [hcast, show (0 : ℤ) = ((0 : ℕ) : ℤ) from rfl, hwrite]
  refine ⟨d', rfl, fun k hk => ?_, fun s hs => hother s fun k hp hk => ?_⟩
  · rw [hcontent k hk, if_pos, Nat.sub_zero]
    unfold granted
    omega
  · exact hs _ (mem_dataList h.lengths.dirSectors (h.dir.div_lt_of_granted h.lengths.dir hp hk))

theorem SystemLayout.writeFreeMap (h : SystemLayout fs) {freeMap : BitMap}
    (hbits : freeMap.numBits = numSectors) (d : DiskImage) (buf : Buffer) :
    ∃ d', freeMap.writeBack fs.freeMapFile d buf = some d' ∧
      (∀ k < freeMapFileSize, content fs.freeMapFile.hdr d' k = bytesOf freeMap.map k) ∧
      ∀ s, (∀ f ∈ dataList fs.freeMapFile.hdr, f.toNat ≠ s) → d' s = d s := by
  obtain ⟨d', hwrite, hcontent, hother⟩ := h.map.writeAt h.lengths.map d buf (bytesOf freeMap.map)
    (m := freeMapFileSize) (p := 0) (by decide)
  have hcast : ((freeMap.numWords : ℤ) * 4) = (freeMapFileSize : ℕ) := by
    unfold BitMap.numWords
    rw [hbits]
    rfl
  unfold BitMap.writeBack
  rw [hcast, show (0 : ℤ) = ((0 : ℕ) : ℤ) from rfl, hwrite]
  refine ⟨d', rfl, fun k hk => ?_, fun s hs => hother s fun k hp hk => ?_⟩
  · rw [hcontent k hk, if_pos, Nat.sub_zero]
    unfold granted
    omega
  · exact hs _ (mem_dataList h.lengths.mapSectors (h.map.div_lt_of_granted h.lengths.map hp hk))

theorem SystemLayout.toNat_ne (h : SystemLayout fs) {f g : ℤ} (hf : f ∈ dataList fs.freeMapFile.hdr)
    (hg : g ∈ dataList fs.directoryFile.hdr) : f.toNat ≠ g.toNat := by
  intro heq
  have hf0 := h.nonneg f (List.mem_append_left _ hf)
  have hg0 := h.nonneg g (List.mem_append_right _ hg)
  have hfg : f = g := by omega
  exact h.apart f hf (hfg ▸ hg)

theorem SystemLayout.flushDirectoryFirst (h : SystemLayout fs) {directory : Directory}
    {freeMap : BitMap} (hsize : directory.tableSize = numDirEntries)
    (hbits : freeMap.numBits = numSectors) (d : DiskImage) (dirBuf mapBuf : Buffer) :
    ∃ d₁ d₂, directory.writeBack fs.directoryFile d dirBuf = some d₁ ∧
      freeMap.writeBack fs.freeMapFile d₁ mapBuf = some d₂ ∧ Flushed fs d d₂ directory freeMap := by
  obtain ⟨d₁, h₁, hdir, hother₁⟩ := h.writeDirectory hsize d dirBuf
  obtain ⟨d₂, h₂, hmap, hother₂⟩ := h.writeFreeMap hbits d₁ mapBuf
  refine ⟨d₁, d₂, h₁, h₂, hmap, fun k hk => ?_, fun s hs => ?_⟩
  · rw [← hdir k hk]
    refine h.dir.content_congr (fun i hi => hother₂ _ fun f hf => ?_) ?_
    · exact h.toNat_ne hf (mem_dataList h.lengths.dirSectors hi)
    · show (k : ℤ) < fs.directoryFile.hdr.numBytes.toInt
      rw [h.lengths.dir]
      exact_mod_cast hk
  · rw [hother₂ s fun f hf => hs f (List.mem_append_left _ hf),
      hother₁ s fun f hf => hs f (List.mem_append_right _ hf)]

theorem SystemLayout.flushFreeMapFirst (h : SystemLayout fs) {directory : Directory}
    {freeMap : BitMap} (hsize : directory.tableSize = numDirEntries)
    (hbits : freeMap.numBits = numSectors) (d : DiskImage) (dirBuf mapBuf : Buffer) :
    ∃ d₁ d₂, freeMap.writeBack fs.freeMapFile d mapBuf = some d₁ ∧
      directory.writeBack fs.directoryFile d₁ dirBuf = some d₂ ∧ Flushed fs d d₂ directory freeMap := by
  obtain ⟨d₁, h₁, hmap, hother₁⟩ := h.writeFreeMap hbits d mapBuf
  obtain ⟨d₂, h₂, hdir, hother₂⟩ := h.writeDirectory hsize d₁ dirBuf
  refine ⟨d₁, d₂, h₁, h₂, fun k hk => ?_, hdir, fun s hs => ?_⟩
  · rw [← hmap k hk]
    refine h.map.content_congr (fun i hi => hother₂ _ fun f hf => ?_) ?_
    · exact (h.toNat_ne (mem_dataList h.lengths.mapSectors hi) hf).symm
    · show (k : ℤ) < fs.freeMapFile.hdr.numBytes.toInt
      rw [h.lengths.map]
      exact_mod_cast hk
  · rw [hother₂ s fun f hf => hs f (List.mem_append_right _ hf),
      hother₁ s fun f hf => hs f (List.mem_append_left _ hf)]

end Flush

end Nachos.Analysis
