import Mathlib.Data.List.Nodup
import Nachos.Analysis.SectorOwnership

/-!
# The file system never loses or shares a sector

Formatting establishes the invariant of `Nachos.Analysis.SectorOwnership`, and `Create`
and `Remove` keep it in every branch, without ever failing an assertion. The last section
reads the invariant off the disk in the terms of the directory and the free map that
`FetchFrom` finds there.
-/

set_option autoImplicit false

namespace Nachos.Analysis

open Nachos.Library Nachos.Model

variable {f size : ℤ} {i k : ℕ} {name : Buffer} {fresh : Fresh} {freeMap' : BitMap}

section Operations

variable {fs : FileSystem} {directory : Directory} {freeMap : BitMap}

/-! ## Sectors that writing back does not touch -/

theorem toNat_ne_of_ne {f g : ℤ} (hf : 0 ≤ f) (hg : 0 ≤ g) (h : f ≠ g) : f.toNat ≠ g.toNat := by
  omega

theorem FsInv.apart_entry (h : FsInv fs directory freeMap)
    (hf : f ∈ heldSectors fs directory (some i)) :
    ∀ g ∈ dataList fs.freeMapFile.hdr ++ dataList fs.directoryFile.hdr, g.toNat ≠ f.toNat := by
  intro g hg
  have hg' := mem_heldSectors_none directory hg
  refine toNat_ne_of_ne (h.nonneg hg') (h.nonneg hf) ?_
  rintro rfl
  exact h.owned.disjoint none (some i) (by simp) g hg' hf

theorem FsInv.apart_free (h : FsInv fs directory freeMap) (hf : 0 ≤ f)
    (hfree : f ∉ markedSet freeMap) :
    ∀ g ∈ dataList fs.freeMapFile.hdr ++ dataList fs.directoryFile.hdr, g.toNat ≠ f.toNat := by
  intro g hg
  have hg' := mem_heldSectors_none directory hg
  refine toNat_ne_of_ne (h.nonneg hg') hf ?_
  rintro rfl
  exact hfree (h.owned.mem_marked hg')

theorem apart_system (hown : Owned (heldSectors fs directory) (markedSet freeMap))
    (hf : f = freeMapSector ∨ f = directorySector) :
    ∀ g ∈ dataList fs.freeMapFile.hdr ++ dataList fs.directoryFile.hdr, g.toNat ≠ f.toNat := by
  intro g hg
  have hg0 : 0 ≤ g := by
    obtain ⟨k, -, -, rfl⟩ := hown.mem_marked (mem_heldSectors_none directory hg)
    exact Int.natCast_nonneg k
  have hnodup : (heldSectors fs directory none).Nodup := hown.nodup none
  unfold heldSectors at hnodup
  rw [List.nodup_cons, List.nodup_cons, List.mem_cons, not_or] at hnodup
  obtain ⟨⟨-, h0⟩, h1, -⟩ := hnodup
  rcases hf with rfl | rfl
  · refine toNat_ne_of_ne hg0 (by decide) ?_
    rintro rfl
    exact h0 hg
  · refine toNat_ne_of_ne hg0 (by decide) ?_
    rintro rfl
    exact h1 hg

theorem sector_mem_heldSectors (fs : FileSystem) (hi : i < numDirEntries)
    (hu : (directory.table i).inUse = true) :
    (directory.table i).sector.toInt ∈ heldSectors fs directory (some i) := by
  simp [heldSectors, hi, entrySectors, hu]

/-! ## Changing one entry -/

/-- INTERNAL: when the header sectors of the other entries are kept, changing one entry
changes what this entry holds. -/
theorem heldSectors_setEntry (hi : i < numDirEntries) (entry : DirectoryEntry)
    {d' : DiskImage} (hkeep : ∀ j < numDirEntries, j ≠ i → (directory.table j).inUse = true →
      d' (directory.table j).sector.toInt.toNat = fs.disk (directory.table j).sector.toInt.toNat) :
    heldSectors { fs with disk := d' } (directory.setEntry i entry) =
      Function.update (heldSectors fs directory) (some i) (entrySectors d' entry) := by
  funext o
  cases o with
  | none => rw [Function.update_of_ne (by simp)]; rfl
  | some j =>
    by_cases hj : j = i
    · subst hj
      simp [heldSectors, hi, Directory.setEntry]
    · have hne : (some j : Option ℕ) ≠ some i := by simpa using hj
      rw [Function.update_of_ne hne]
      by_cases hlt : j < numDirEntries
      · cases hu : (directory.table j).inUse with
        | false => simp [heldSectors, hlt, Directory.setEntry, Function.update_of_ne hj, entrySectors, hu]
        | true =>
          simp [heldSectors, hlt, Directory.setEntry, Function.update_of_ne hj, entrySectors, hu,
            headerAt, hkeep j hlt hj hu]
      · simp [heldSectors, hlt]

/-- INTERNAL: **an operation that changes one entry** keeps the invariant when it writes back
a directory with the new entry and a free map that agrees with what the entry holds then.
SRCLINE: filesys/filesys.cc:216-218, 319-320 -/
theorem FsInv.of_flushed (h : FsInv fs directory freeMap) (hi : i < numDirEntries)
    {entry : DirectoryEntry} (hbits : freeMap'.numBits = numSectors)
    {d d' : DiskImage} (hflush : Flushed fs d d' (directory.setEntry i entry) freeMap')
    (hsys : ∀ f, f = freeMapSector ∨ f = directorySector → d f.toNat = fs.disk f.toNat)
    (hkeep : ∀ j < numDirEntries, j ≠ i → (directory.table j).inUse = true →
      d (directory.table j).sector.toInt.toNat = fs.disk (directory.table j).sector.toInt.toNat)
    (hown : Owned (Function.update (heldSectors fs directory) (some i) (entrySectors d' entry))
      (markedSet freeMap'))
    (hsized : entry.inUse = true → Sized (headerAt d' entry.sector.toInt))
    (hnames : entry.inUse = true → ∀ j < numDirEntries, j ≠ i → (directory.table j).inUse = true →
      strncmpEq (directory.table j).nameBuf entry.nameBuf fileNameMaxLen = false) :
    FsInv { fs with disk := d' } (directory.setEntry i entry) freeMap' := by
  have hkeep' : ∀ j < numDirEntries, j ≠ i → (directory.table j).inUse = true →
      d' (directory.table j).sector.toInt.toNat = fs.disk (directory.table j).sector.toInt.toNat := by
    intro j hj hne hu
    rw [hflush.other _ (h.apart_entry (sector_mem_heldSectors fs hj hu)), hkeep j hj hne hu]
  have hheader : ∀ f, f = freeMapSector ∨ f = directorySector → headerAt d' f = headerAt fs.disk f := by
    intro f hf
    unfold headerAt
    rw [hflush.other _ (apart_system h.owned hf), hsys f hf]
  have hself : (directory.setEntry i entry).table i = entry := Function.update_self _ _ _
  have hother : ∀ j, j ≠ i → (directory.setEntry i entry).table j = directory.table j :=
    fun j hj => Function.update_of_ne hj _ _
  refine ⟨hbits, h.size, ⟨h.lengths.map, h.lengths.mapSized, h.lengths.dir, h.lengths.dirSized⟩,
    (hheader _ (Or.inl rfl)).trans h.mapHeader, (hheader _ (Or.inr rfl)).trans h.dirHeader,
    hflush.map, hflush.dir, ?_, fun j hj hu => ?_, fun j hj k hk hne huj huk => ?_⟩
  · rw [heldSectors_setEntry hi entry hkeep']
    exact hown
  · by_cases hji : j = i
    · subst hji
      rw [hself] at hu ⊢
      exact hsized hu
    · rw [hother j hji] at hu ⊢
      have hhdr : headerAt d' (directory.table j).sector.toInt =
          headerAt fs.disk (directory.table j).sector.toInt := by
        unfold headerAt
        rw [hkeep' j hj hji hu]
      show Sized (headerAt d' _)
      rw [hhdr]
      exact h.sized j hj hu
  · by_cases hji : j = i
    · subst hji
      rw [hself] at huj ⊢
      rw [hother k (Ne.symm hne)] at huk ⊢
      have hno := hnames huj k hk (Ne.symm hne) huk
      rw [Bool.eq_false_iff] at hno ⊢
      exact fun heq => hno (strncmpEq_symm heq)
    · rw [hother j hji] at huj ⊢
      by_cases hki : k = i
      · subst hki
        rw [hself] at huk ⊢
        exact hnames huk j hj hji huj
      · rw [hother k hki] at huk ⊢
        exact h.names j hj k hk hne huj huk

/-! ## `Create` -/

theorem FsInv.find_eq_neg_one (h : FsInv fs directory freeMap) (name : Buffer) :
    directory.find name = -1 ↔ directory.findIndex name = none := by
  unfold Directory.find
  cases hidx : directory.findIndex name with
  | none => simp
  | some i =>
    obtain ⟨hi, hnamed⟩ := findIndex_eq_some hidx
    rw [h.size] at hi
    have hu : (directory.table i).inUse = true := by
      unfold Directory.isNamed at hnamed
      rw [Bool.and_eq_true] at hnamed
      exact hnamed.1
    have h0 := h.nonneg (sector_mem_heldSectors fs hi hu)
    simp only [reduceCtorEq, iff_false]
    omega

/-- INTERNAL: what a successful `Create` has done: the free entry `i` has the sector found
first, `k`, as its header and the `n` sectors found after it as its data; besides the sectors
of the system files only sector `k` has changed.
SRCLINE: filesys/filesys.cc:214-219 -/
structure Created (fs fs' : FileSystem) (directory : Directory) (freeMap freeMap' : BitMap)
    (name : Buffer) (size : ℤ) (i k n : ℕ) (hdr : FileHeader) : Prop where
  missing : directory.findIndex name = none
  lt : i < numDirEntries
  unused : (directory.table i).inUse = false
  count : (n : ℤ) = (size + 127) / 128
  room : n + 1 ≤ (clearSet freeMap).card
  sectors : findMany (n + 1) freeMap = some ((k : ℤ) :: dataList hdr, freeMap')
  bytes : hdr.numBytes.toInt = size
  freeMapFile : fs'.freeMapFile = fs.freeMapFile
  directoryFile : fs'.directoryFile = fs.directoryFile
  sector : (newEntry directory i name k).sector.toInt = k
  header : headerAt fs'.disk k = hdr
  kept : ∀ s, s ≠ k →
    (∀ g ∈ dataList fs.freeMapFile.hdr ++ dataList fs.directoryFile.hdr, g.toNat ≠ s) →
    fs'.disk s = fs.disk s
  inv : FsInv fs' (directory.setEntry i (newEntry directory i name k)) freeMap'

theorem SystemLayout.flushCreate (h : SystemLayout fs) {directory' : Directory}
    (hsize : directory'.tableSize = numDirEntries) (hbits : freeMap'.numBits = numSectors)
    (hk : k < numSectors) (hdr : FileHeader) (fresh : Fresh) :
    ∃ d, fs.flushCreate fresh k hdr directory' freeMap' = some { fs with disk := d } ∧
      Flushed fs (Function.update fs.disk k hdr.toSector) d directory' freeMap' := by
  have hwrite : hdr.writeBack fs.disk k = some (Function.update fs.disk k hdr.toSector) := by
    have hvalid : ValidSector (k : ℤ) := ⟨Int.natCast_nonneg k, by exact_mod_cast hk⟩
    unfold FileHeader.writeBack DiskImage.writeSector
    rw [if_pos hvalid, Int.toNat_natCast]
  obtain ⟨d₂, d₃, h₂, h₃, hflush⟩ := h.flushDirectoryFirst hsize hbits
    (Function.update fs.disk k hdr.toSector) fresh.directoryBuf fresh.freeMapBuf
  exact ⟨d₃, by simp [FileSystem.flushCreate, hwrite, h₂, h₃], hflush⟩

theorem Flushed.headerAt_eq {d : DiskImage} {hdr : FileHeader}
    (h : Flushed fs (Function.update fs.disk k hdr.toSector) d directory freeMap)
    (hapart : ∀ g ∈ dataList fs.freeMapFile.hdr ++ dataList fs.directoryFile.hdr, g.toNat ≠ k) :
    headerAt d k = hdr := by
  unfold headerAt
  rw [Int.toNat_natCast, h.other k hapart, Function.update_self, ofSector_toSector]

/-- INTERNAL: the successful end of `Create`. -/
theorem FsInv.flushCreate (h : FsInv fs directory freeMap) (hidx : directory.findIndex name = none)
    (hi : i < numDirEntries) (hunused : (directory.table i).inUse = false) {k n : ℕ}
    {hdr : FileHeader} (hn : (n : ℤ) = (size + 127) / 128) (hle : n + 1 ≤ (clearSet freeMap).card)
    (hmany : findMany (n + 1) freeMap = some ((k : ℤ) :: dataList hdr, freeMap'))
    (hsized : Sized hdr) (hbytes : hdr.numBytes.toInt = size) (fresh : Fresh) :
    ∃ fs', fs.flushCreate fresh k hdr
        (directory.setEntry i (newEntry directory i name k)) freeMap' = some fs' ∧
      Created fs fs' directory freeMap freeMap' name size i k n hdr := by
  obtain ⟨l, b, hmany', -, hnodup, hfree, hbits, hmarked⟩ := findMany_spec (n + 1) freeMap hle
  rw [hmany] at hmany'
  cases hmany'
  have hbits' : freeMap'.numBits = numSectors := hbits.trans h.bits
  have hkfree : (k : ℤ) ∉ markedSet freeMap := hfree k List.mem_cons_self
  have hklt : k < numSectors := by
    have hmem := (hmarked k).mpr (Or.inr List.mem_cons_self)
    rw [natCast_mem_markedSet, hbits'] at hmem
    exact hmem.1
  have hkint : (newEntry directory i name k).sector.toInt = k := by
    refine toInt_ofInt_of_lt (by omega) ?_
    simp only [numSectors, sectorsPerTrack, numTracks] at hklt
    omega
  have hne : ∀ f, f ∈ markedSet freeMap → f.toNat ≠ k := by
    intro f hf heq
    have hf0 : 0 ≤ f := by
      obtain ⟨j, -, -, rfl⟩ := hf
      exact Int.natCast_nonneg j
    have hfk : f = k := by omega
    exact hkfree (hfk ▸ hf)
  have hsize : (directory.setEntry i (newEntry directory i name k)).tableSize = numDirEntries :=
    h.size
  obtain ⟨d₃, hrun, hflush⟩ := h.layout.flushCreate hsize hbits' hklt hdr fresh
  have hheader : headerAt d₃ k = hdr :=
    hflush.headerAt_eq (h.apart_free (Int.natCast_nonneg k) hkfree)
  have hentry : entrySectors d₃ (newEntry directory i name k) = (k : ℤ) :: dataList hdr := by
    unfold entrySectors
    rw [hkint, hheader]
    rfl
  refine ⟨{ fs with disk := d₃ }, hrun, hidx, hi, hunused, hn, hle, hmany, hbytes, rfl, rfl, hkint,
    hheader, fun s hs hsys => ?_, h.of_flushed hi hbits' hflush (fun f hf => ?_)
    (fun j hj _ hu => ?_) ?_ (fun _ => ?_) fun _ j hj _ hu => ?_⟩
  · show d₃ s = fs.disk s
    rw [hflush.other s hsys, Function.update_of_ne hs]
  · refine Function.update_of_ne (hne f (h.owned.mem_marked (o := none) ?_)) _ _
    rcases hf with rfl | rfl
    · exact List.mem_cons_self
    · exact List.mem_cons_of_mem _ List.mem_cons_self
  · exact Function.update_of_ne (hne _ (h.owned.mem_marked (sector_mem_heldSectors fs hj hu))) _ _
  · rw [hentry]
    refine h.owned.acquire ?_ hnodup hfree hmarked
    simp [heldSectors, hi, entrySectors, hunused]
  · rw [hkint, hheader]
    exact hsized
  · refine strncmpEq_newEntry i k ?_
    have hnamed := findIndex_eq_none.mp hidx j (by rw [h.size]; exact hj)
    unfold Directory.isNamed at hnamed
    rw [hu, Bool.true_and] at hnamed
    exact hnamed

/-- INTERNAL: why `Create` answers `FALSE`.
SRCLINE: filesys/filesys.cc:197-213 -/
def CannotCreate (directory : Directory) (freeMap : BitMap) (name : Buffer) (size : ℤ) : Prop :=
  directory.findIndex name ≠ none ∨ (∀ i < numDirEntries, (directory.table i).inUse = true) ∨
    ((clearSet freeMap).card : ℤ) ≤ (size + 127) / 128

theorem tableSize_fetchDirectory (h : fs.fetchDirectory fresh = some directory) :
    directory.tableSize = numDirEntries := by
  unfold FileSystem.fetchDirectory Directory.fetchFrom at h
  obtain ⟨r, -, rfl⟩ := Option.map_eq_some_iff.mp h
  rfl

theorem numBits_fetchFreeMap (h : fs.fetchFreeMap fresh = some freeMap) :
    freeMap.numBits = numSectors := by
  obtain ⟨b, hnew, hbits, -⟩ := new_eq numSectors fresh.words
  unfold FileSystem.fetchFreeMap BitMap.fetchFrom at h
  rw [hnew, Option.bind_eq_bind, Option.bind_some] at h
  obtain ⟨r, -, rfl⟩ := Option.map_eq_some_iff.mp h
  exact hbits

theorem add_of_found (h : directory.findIndex name ≠ none) (sector : ℤ) :
    directory.add name sector = (false, directory) := by
  obtain ⟨i, hi⟩ := Option.ne_none_iff_exists'.mp h
  unfold Directory.add
  rw [hi]

theorem find_of_missing (h : directory.findIndex name = none) : directory.find name = -1 := by
  unfold Directory.find
  rw [h]

theorem card_clearSet_setBit (hk : k < freeMap.numBits) (hclear : isSet freeMap k = false) :
    (clearSet (setBit freeMap k)).card + 1 = (clearSet freeMap).card := by
  have hmem : k ∈ clearSet freeMap := mem_clearSet.mpr ⟨hk, hclear⟩
  have hpos := Finset.card_pos.mpr ⟨k, hmem⟩
  rw [clearSet_setBit, Finset.card_erase_of_mem hmem]
  omega

/-- INTERNAL: a `Create` that has a reason to refuse answers `FALSE`, whatever the free map is. -/
theorem create_of_cannotCreate (hdir : fs.fetchDirectory fresh = some directory)
    (hmap : fs.fetchFreeMap fresh = some freeMap) (h0 : 0 ≤ size)
    (hwhy : CannotCreate directory freeMap name size) :
    fs.create name size fresh = some (false, fs) := by
  unfold FileSystem.create
  simp only [hdir, hmap, Option.bind_eq_bind, Option.bind_some]
  by_cases hfind : directory.find name = -1
  · rw [if_neg (not_not.mpr hfind)]
    rcases find_cases freeMap with ⟨hfull, -⟩ | ⟨k, hk, hfindk, hclear, -⟩
    · simp [hfull]
    · have hk1 : ¬ (k : ℤ) = -1 := by omega
      simp only [hfindk, Option.bind_some, hk1, if_false]
      by_cases hidx : directory.findIndex name = none
      · rcases add_cases (k : ℤ) hidx with ⟨hadd, -⟩ | ⟨i, hi, hunused, hadd⟩
        · simp [hadd]
        · -- the name and the entry are there, so there are too few sectors
          have hfew : ((clearSet freeMap).card : ℤ) ≤ (size + 127) / 128 := by
            rcases hwhy with hfound | hall | hfew
            · exact absurd hidx hfound
            · rw [tableSize_fetchDirectory hdir] at hi
              rw [hall i hi] at hunused
              cases hunused
            · exact hfew
          have hcard := card_clearSet_setBit hk hclear
          have halloc : ∃ hdr', fresh.hdr.allocate (setBit freeMap k) size =
              some (false, hdr', setBit freeMap k) := by
            unfold FileHeader.allocate
            rw [numClear_eq, divRoundUpInt_sectorSize h0]
            simp only
            rw [if_pos (by omega)]
            exact ⟨_, rfl⟩
          obtain ⟨hdr', halloc⟩ := halloc
          simp [hadd, halloc]
      · simp [add_of_found hidx]
  · simp [hfind]

/-- INTERNAL: a `Create` that has no reason to refuse goes on to `Allocate`. -/
theorem create_of_room (hdir : fs.fetchDirectory fresh = some directory)
    (hmap : fs.fetchFreeMap fresh = some freeMap) (h0 : 0 ≤ size)
    (hroom : ¬ CannotCreate directory freeMap name size) :
    ∃ i k : ℕ, i < numDirEntries ∧ (directory.table i).inUse = false ∧
      k < numSectors ∧ isSet freeMap k = false ∧
      freeMap.find = some ((k : ℤ), setBit freeMap k) ∧
      (size + 127) / 128 ≤ (clearSet (setBit freeMap k)).card ∧
      fs.create name size fresh = (fresh.hdr.allocate (setBit freeMap k) size).bind fun r =>
        if r.1 then (fs.flushCreate fresh k r.2.1
          (directory.setEntry i (newEntry directory i name k)) r.2.2).map fun fs' => (true, fs')
        else some (false, fs) := by
  unfold CannotCreate at hroom
  rw [not_or, not_or, not_not, not_le] at hroom
  obtain ⟨hidx, hentry, hcard⟩ := hroom
  obtain ⟨k, hk, hfindk, hclear⟩ := find_of_clear (b := freeMap) (by omega)
  have hcardk := card_clearSet_setBit hk hclear
  have hk1 : ¬ (k : ℤ) = -1 := by omega
  rcases add_cases (k : ℤ) hidx with ⟨-, hall⟩ | ⟨i, hi, hunused, hadd⟩
  · rw [tableSize_fetchDirectory hdir] at hall
    exact absurd hall hentry
  refine ⟨i, k, tableSize_fetchDirectory hdir ▸ hi, hunused, numBits_fetchFreeMap hmap ▸ hk, hclear,
    hfindk, by omega, ?_⟩
  unfold FileSystem.create
  simp only [hdir, hmap, Option.bind_eq_bind, Option.bind_some, find_of_missing hidx, ne_eq,
    not_true_eq_false, if_false, hfindk, hk1, hadd]
  generalize fresh.hdr.allocate (setBit freeMap k) size = allocated
  rcases allocated with _ | ⟨success, hdr, freeMap₂⟩
  · simp only [Option.bind_none]
  cases success with
  | false => simp only [Option.bind_some, Bool.false_eq_true, if_false, Option.pure_def]
  | true =>
    simp only [Option.bind_some, if_true, Option.pure_def]
    generalize fs.flushCreate fresh k hdr (directory.setEntry i (newEntry directory i name k))
      freeMap₂ = flushed
    cases flushed <;> rfl

theorem create_eq_none (hdir : fs.fetchDirectory fresh = some directory)
    (hmap : fs.fetchFreeMap fresh = some freeMap) (hmax : maxFileSize < size)
    (hroom : ¬ CannotCreate directory freeMap name size) : fs.create name size fresh = none := by
  obtain ⟨i, k, -, -, -, -, -, hcard, hcreate⟩ := create_of_room hdir hmap (show 0 ≤ size by omega) hroom
  rw [hcreate, allocate_eq_none fresh.hdr hmax hcard]
  rfl

/-- INTERNAL: **what `Create` does.** It answers `FALSE` and changes nothing, for one of the
reasons it has, or makes the file; no assertion fails.
SRCLINE: filesys/filesys.cc:185-226 -/
theorem FsInv.create_cases (h : FsInv fs directory freeMap) (name : Buffer) (h0 : 0 ≤ size)
    (hmax : size ≤ maxFileSize) (fresh : Fresh) :
    ∃ dir map, FsInv fs dir map ∧
      ((fs.create name size fresh = some (false, fs) ∧ CannotCreate dir map name size) ∨
        ∃ fs' map' i k n hdr, fs.create name size fresh = some (true, fs') ∧
          Created fs fs' dir map map' name size i k n hdr) := by
  obtain ⟨dir, hfetch, hdir⟩ := h.fetchDirectory fresh
  obtain ⟨map, hfetchMap, hmap⟩ := hdir.fetchFreeMap fresh
  refine ⟨dir, map, hmap, ?_⟩
  by_cases hwhy : CannotCreate dir map name size
  · exact Or.inl ⟨create_of_cannotCreate hfetch hfetchMap h0 hwhy, hwhy⟩
  · right
    obtain ⟨i, k, hi, hunused, hk, hclear, hfindk, hroom, hcreate⟩ :=
      create_of_room hfetch hfetchMap h0 hwhy
    have hidx : dir.findIndex name = none := not_not.mp fun hfound => hwhy (Or.inl hfound)
    have hcardk := card_clearSet_setBit (hmap.bits.symm ▸ hk) hclear
    rcases allocate_cases fresh.hdr (b := setBit map k) hmap.bits h0 hmax with
      ⟨hdr, -, hfew⟩ | ⟨n, hdr, map', l, halloc, hcard, hmany, hlist, hn, hbytes, hsectors⟩
    · exact absurd hroom (not_le.mpr hfew)
    · have hmany' : findMany (n + 1) map = some ((k : ℤ) :: dataList hdr, map') := by
        simp [findMany, hfindk, hmany, hlist]
      have hsized : Sized hdr := by
        refine ⟨?_, ?_, ?_⟩
        · rw [hbytes]
          exact h0
        · rw [hbytes]
          exact hmax
        · rw [hsectors, hbytes]
      obtain ⟨fs', hflush, hcreated⟩ :=
        hmap.flushCreate hidx hi hunused hn (by omega) hmany' hsized hbytes fresh
      exact ⟨fs', map', i, k, n, hdr, by simp [hcreate, halloc, hflush], hcreated⟩

/-- INTERNAL: **`Create` keeps the invariant**, in its successful branch and in each of the
failing ones, and no assertion fails. -/
theorem FsInv.create (h : FsInv fs directory freeMap) (name : Buffer) (h0 : 0 ≤ size)
    (hmax : size ≤ maxFileSize) (fresh : Fresh) :
    ∃ r fs' directory' freeMap', fs.create name size fresh = some (r, fs') ∧
      FsInv fs' directory' freeMap' := by
  obtain ⟨dir, map, hinv, ⟨hrun, -⟩ | ⟨fs', map', i, k, n, hdr, hrun, hcreated⟩⟩ :=
    h.create_cases name h0 hmax fresh
  · exact ⟨false, fs, dir, map, hrun, hinv⟩
  · exact ⟨true, fs', _, map', hrun, hcreated.inv⟩

/-- INTERNAL: **what a `Create` that returns has done**, for any size that is not negative. -/
theorem FsInv.create_result (h : FsInv fs directory freeMap) (h0 : 0 ≤ size) {ok : Bool}
    {fs' : FileSystem} (hrun : fs.create name size fresh = some (ok, fs')) :
    (ok = false ∧ fs' = fs) ∨ ∃ dir map map' i k n hdr, ok = true ∧ FsInv fs dir map ∧
      Created fs fs' dir map map' name size i k n hdr := by
  by_cases hmax : size ≤ maxFileSize
  · obtain ⟨dir, map, hinv, ⟨hcreate, -⟩ | ⟨fs₁, map', i, k, n, hdr, hcreate, hcreated⟩⟩ :=
      h.create_cases name h0 hmax fresh
    · rw [hcreate, Option.some.injEq, Prod.mk.injEq] at hrun
      exact Or.inl ⟨hrun.1.symm, hrun.2.symm⟩
    · rw [hcreate, Option.some.injEq, Prod.mk.injEq] at hrun
      obtain ⟨hok, rfl⟩ := hrun
      exact Or.inr ⟨dir, map, map', i, k, n, hdr, hok.symm, hinv, hcreated⟩
  · -- only a `Create` that refuses before `Allocate` returns
    obtain ⟨dir, hfetch, hdir⟩ := h.fetchDirectory fresh
    obtain ⟨map, hfetchMap, -⟩ := hdir.fetchFreeMap fresh
    by_cases hwhy : CannotCreate dir map name size
    · rw [create_of_cannotCreate hfetch hfetchMap h0 hwhy, Option.some.injEq, Prod.mk.injEq] at hrun
      exact Or.inl ⟨hrun.1.symm, hrun.2.symm⟩
    · rw [create_eq_none hfetch hfetchMap (not_le.mp hmax) hwhy] at hrun
      cases hrun

/-! ## `Remove` -/

/-- INTERNAL: what a successful `Remove` has done: the entry `i` is not in use, its sectors are
free, and only the sectors of the system files have changed.
SRCLINE: filesys/filesys.cc:305-320 -/
structure Removed (fs fs' : FileSystem) (directory : Directory) (freeMap freeMap' : BitMap)
    (name : Buffer) (i : ℕ) : Prop where
  found : directory.findIndex name = some i
  lt : i < numDirEntries
  inUse : (directory.table i).inUse = true
  freeMapFile : fs'.freeMapFile = fs.freeMapFile
  directoryFile : fs'.directoryFile = fs.directoryFile
  bits : freeMap'.numBits = freeMap.numBits
  freed : ∀ f, f ∈ markedSet freeMap' ↔
    f ∈ markedSet freeMap ∧ f ∉ heldSectors fs directory (some i)
  kept : ∀ s, (∀ g ∈ dataList fs.freeMapFile.hdr ++ dataList fs.directoryFile.hdr, g.toNat ≠ s) →
    fs'.disk s = fs.disk s
  inv : FsInv fs' (directory.setEntry i { directory.table i with inUse := false }) freeMap'

/-- INTERNAL: **what `Remove` does**: nothing, when the name is not in the directory. The
assertion of `Deallocate` holds at every data sector.
SRCLINE: filesys/filesys.cc:294-325 -/
theorem FsInv.remove_cases (h : FsInv fs directory freeMap) (name : Buffer) (fresh : Fresh) :
    ∃ dir map, FsInv fs dir map ∧
      ((fs.remove name fresh = some (false, fs) ∧ dir.findIndex name = none) ∨
        ∃ fs' map' i, fs.remove name fresh = some (true, fs') ∧ Removed fs fs' dir map map' name i) := by
  obtain ⟨dir, hfetch, hdir⟩ := h.fetchDirectory fresh
  unfold FileSystem.remove
  simp only [hfetch, Option.bind_eq_bind, Option.bind_some]
  by_cases hfind : dir.find name = -1
  · exact ⟨dir, freeMap, hdir, Or.inl ⟨by simp [hfind], (hdir.find_eq_neg_one name).mp hfind⟩⟩
  · cases hidx : dir.findIndex name with
    | none => exact absurd ((hdir.find_eq_neg_one name).mpr hidx) hfind
    | some i =>
      obtain ⟨hi, hnamed⟩ := findIndex_eq_some hidx
      rw [hdir.size] at hi
      have hu : (dir.table i).inUse = true := by
        unfold Directory.isNamed at hnamed
        rw [Bool.and_eq_true] at hnamed
        exact hnamed.1
      obtain ⟨map, hfetchMap, hmap⟩ := hdir.fetchFreeMap fresh
      refine ⟨dir, map, hmap, Or.inr ?_⟩
      -- Names for the sector of the entry and the header in it.
      have hsector : dir.find name = (dir.table i).sector.toInt := by
        unfold Directory.find
        rw [hidx]
      have hheld : heldSectors fs dir (some i) =
          (dir.table i).sector.toInt :: dataList (headerAt fs.disk (dir.table i).sector.toInt) := by
        simp [heldSectors, hi, entrySectors, hu]
      have hsized := hmap.sized i hi hu
      generalize (dir.table i).sector.toInt = sector at hsector hheld hsized
      have hmarked : ∀ f ∈ sector :: dataList (headerAt fs.disk sector), f ∈ markedSet map :=
        fun f hf => hmap.owned.mem_marked (o := some i) (hheld ▸ hf)
      have hnodup : (sector :: dataList (headerAt fs.disk sector)).Nodup :=
        hheld ▸ hmap.owned.nodup (some i)
      rw [List.nodup_cons] at hnodup
      have hvalid : ValidSector sector := by
        obtain ⟨k, hk, -, rfl⟩ := hmarked sector List.mem_cons_self
        rw [hmap.bits] at hk
        exact ⟨Int.natCast_nonneg k, by exact_mod_cast hk⟩
      have hhdr : FileHeader.fetchFrom fs.disk sector = some (headerAt fs.disk sector) := by
        unfold FileHeader.fetchFrom DiskImage.readSector
        rw [if_pos hvalid]
        rfl
      have hnum : (headerAt fs.disk sector).numSectors.toInt ≤ numDirect := by
        have hmax := hsized.le_max
        rw [hsized.sectors]
        simp only [maxFileSize, numDirect, sectorSize] at *
        omega
      obtain ⟨map₁, hdealloc, hbits₁, hset₁⟩ := deallocate_eq hnum hnodup.2
        fun f hf => hmarked f (List.mem_cons_of_mem _ hf)
      obtain ⟨map₂, hclear, hbits₂, hset₂⟩ := clear_of_mem
        ((hset₁ sector).mpr ⟨hmarked sector List.mem_cons_self, hnodup.1⟩)
      have hbits : map₂.numBits = numSectors := (hbits₂.trans hbits₁).trans hmap.bits
      have hremove : (dir.remove name).2 = dir.setEntry i { dir.table i with inUse := false } := by
        unfold Directory.remove
        rw [hidx]
      have hsize : (dir.setEntry i { dir.table i with inUse := false }).tableSize = numDirEntries :=
        hmap.size
      have hfreed : ∀ f, f ∈ markedSet map₂ ↔
          f ∈ markedSet map ∧ f ∉ heldSectors fs dir (some i) := by
        intro f
        rw [hset₂, hset₁, hheld, List.mem_cons, not_or]
        exact ⟨fun h => ⟨h.1.1, h.2, h.1.2⟩, fun h => ⟨⟨h.1, h.2.2⟩, h.2.1⟩⟩
      obtain ⟨d₁, d₂, h₁, h₂, hflush⟩ := hmap.layout.flushFreeMapFirst hsize hbits fs.disk
        fresh.directoryBuf fresh.freeMapBuf
      rw [hsector] at hfind
      refine ⟨{ fs with disk := d₂ }, map₂, i, ?_, hidx, hi, hu, rfl, rfl, hbits₂.trans hbits₁,
        hfreed, hflush.other, hmap.of_flushed hi hbits hflush
        (fun _ _ => rfl) (fun _ _ _ _ => rfl) ?_ (fun hno => ?_) fun hno => ?_⟩
      · simp [hsector, hfind, hhdr, hfetchMap, hdealloc, hclear, hremove, FileSystem.flushRemove,
          h₁, h₂]
      · exact hmap.owned.release (some i) hfreed
      · cases hno
      · cases hno

/-- INTERNAL: **`Remove` keeps the invariant**. -/
theorem FsInv.remove (h : FsInv fs directory freeMap) (name : Buffer) (fresh : Fresh) :
    ∃ r fs' directory' freeMap', fs.remove name fresh = some (r, fs') ∧
      FsInv fs' directory' freeMap' := by
  obtain ⟨dir, map, hinv, ⟨hrun, -⟩ | ⟨fs', map', i, hrun, hremoved⟩⟩ := h.remove_cases name fresh
  · exact ⟨false, fs, dir, map, hrun, hinv⟩
  · exact ⟨true, fs', _, map', hrun, hremoved.inv⟩

end Operations

/-! ## Formatting -/

/-- INTERNAL: `ASSERT(hdr->Allocate(..))` with room on the disk. -/
theorem assertAllocate_eq (hdr : FileHeader) {b : BitMap} (hbits : b.numBits = numSectors)
    (h0 : 0 ≤ size) (hmax : size ≤ maxFileSize) (hroom : (size + 127) / 128 ≤ (clearSet b).card) :
    ∃ hdr' b', FileSystem.assertAllocate hdr b size = some (hdr', b') ∧ Sized hdr' ∧
      hdr'.numBytes.toInt = size ∧ b'.numBits = b.numBits ∧
      ((clearSet b').card : ℤ) + (size + 127) / 128 = (clearSet b).card ∧
      (dataList hdr').Nodup ∧ (∀ f ∈ dataList hdr', f ∉ markedSet b) ∧
      ∀ f, f ∈ markedSet b' ↔ f ∈ markedSet b ∨ f ∈ dataList hdr' := by
  rcases allocate_cases hdr hbits h0 hmax with
    ⟨hdr', -, hfew⟩ | ⟨n, hdr', b', l, halloc, hcard, hmany, rfl, hn, hbytes, hsectors⟩
  · omega
  · obtain ⟨l', b₁, hmany', -, hnodup, hfree, hbits', hmarked⟩ := findMany_spec n b hcard
    rw [hmany] at hmany'
    cases hmany'
    refine ⟨hdr', b', ?_, ⟨?_, ?_, ?_⟩, hbytes, hbits', ?_, hnodup, hfree, hmarked⟩
    · unfold FileSystem.assertAllocate
      rw [halloc]
    · rw [hbytes]
      exact h0
    · rw [hbytes]
      exact hmax
    · rw [hsectors, hbytes]
    · have hleft := card_clearSet_findMany n hcard hmany
      omega

/-- INTERNAL: a new free map with sectors 0 and 1 marked. -/
theorem mark_system_sectors (words : ℕ → BitVec 32) :
    ∃ b b₁ b₂, BitMap.new numSectors words = some b ∧ b.mark freeMapSector = some b₁ ∧
      b₁.mark directorySector = some b₂ ∧ b₂.numBits = numSectors ∧
      (clearSet b₂).card + 2 = numSectors ∧
      ∀ f, f ∈ markedSet b₂ ↔ f = freeMapSector ∨ f = directorySector := by
  obtain ⟨b, hnew, hbits, hclear⟩ := new_eq numSectors words
  have h0 : 0 < b.numBits := by
    rw [hbits]
    decide
  have h1 : 1 < (setBit b 0).numBits := by
    rw [numBits_setBit, hbits]
    decide
  refine ⟨b, setBit b 0, setBit (setBit b 0) 1, hnew, mark_eq h0, mark_eq h1, hbits, ?_, fun f => ?_⟩
  · have hall : clearSet b = Finset.range numSectors := by
      ext i
      rw [mem_clearSet, Finset.mem_range, hbits]
      exact ⟨fun h => h.1, fun h => ⟨h, hclear i h⟩⟩
    rw [clearSet_setBit, clearSet_setBit, hall, Finset.card_erase_of_mem, Finset.card_erase_of_mem,
      Finset.card_range]
    · rfl
    · rw [Finset.mem_range]
      decide
    · rw [Finset.mem_erase, Finset.mem_range]
      decide
  · have hnone : f ∉ markedSet b := by
      rintro ⟨i, hi, hset, rfl⟩
      rw [hclear i (hbits ▸ hi)] at hset
      cases hset
    rw [mem_markedSet_setBit h1, mem_markedSet_setBit h0]
    simp only [hnone, false_or]
    rfl

/-- INTERNAL: before the first file the system sectors are all that is held. -/
theorem owned_of_unused {fs : FileSystem} {directory : Directory} {freeMap : BitMap}
    (hunused : ∀ i < numDirEntries, (directory.table i).inUse = false)
    (hnodup : (heldSectors fs directory none).Nodup)
    (hmarked : ∀ f, f ∈ markedSet freeMap ↔ f ∈ heldSectors fs directory none) :
    Owned (heldSectors fs directory) (markedSet freeMap) := by
  have hempty : Owned (fun _ : Option ℕ => ([] : List ℤ)) ∅ :=
    Owned.of_empty (fun _ => rfl) fun _ hf => hf
  have hsystem : Owned (Function.update (fun _ : Option ℕ => []) none (heldSectors fs directory none))
      (markedSet freeMap) := by
    refine hempty.acquire rfl hnodup (fun _ _ hf => hf) fun f => ?_
    rw [hmarked]
    simp
  refine hsystem.congr (fun o => ?_) fun _ => Iff.rfl
  cases o with
  | none => rw [Function.update_self]
  | some i =>
    rw [Function.update_of_ne (by simp)]
    by_cases hi : i < numDirEntries
    · simp [heldSectors, hi, entrySectors, hunused i hi]
    · simp [heldSectors, hi]

/-- INTERNAL: **formatting establishes the invariant.** The file system owns the sectors of
its two files, and no entry is in use. -/
theorem formatDisk_inv (d : DiskImage) (fresh : Fresh) (dirHdr : FileHeader) :
    ∃ fs directory freeMap, FileSystem.formatDisk d fresh dirHdr = some fs ∧
      FsInv fs directory freeMap ∧ (∀ i < numDirEntries, (directory.table i).inUse = false) ∧
      (clearSet freeMap).card = 1019 := by
  obtain ⟨b, b₁, b₂, hnew, hmark₀, hmark₁, hbits, hcard, hmarked⟩ := mark_system_sectors fresh.words
  have hnum : numSectors = 1024 := rfl
  obtain ⟨h₁, m₁, halloc₁, hsized₁, hlen₁, hbits₁, hcard₁, hnodup₁, hfree₁, hset₁⟩ :=
    assertAllocate_eq fresh.hdr hbits (show (0 : ℤ) ≤ (freeMapFileSize : ℕ) by decide) (by decide)
      (by simp only [freeMapFileSize]; omega)
  obtain ⟨h₂, m₂, halloc₂, hsized₂, hlen₂, hbits₂, hcard₂, hnodup₂, hfree₂, hset₂⟩ :=
    assertAllocate_eq dirHdr (hbits₁.trans hbits)
      (show (0 : ℤ) ≤ (directoryFileSize : ℕ) by decide) (by decide)
      (by simp only [freeMapFileSize, directoryFileSize, sizeofDirectoryEntry, numDirEntries] at *; omega)
  have hbits' : m₂.numBits = numSectors := (hbits₂.trans hbits₁).trans hbits
  -- The two headers in their sectors, and the files opened on them.
  have hwrite₁ : h₁.writeBack d freeMapSector = some (Function.update d 0 h₁.toSector) := rfl
  have hwrite₂ : h₂.writeBack (Function.update d 0 h₁.toSector) directorySector =
      some (Function.update (Function.update d 0 h₁.toSector) 1 h₂.toSector) := rfl
  generalize hd : Function.update (Function.update d 0 h₁.toSector) 1 h₂.toSector = d₂ at hwrite₂
  have hd0 : headerAt d₂ freeMapSector = h₁ := by
    subst hd
    exact ofSector_toSector h₁
  have hd1 : headerAt d₂ directorySector = h₂ := by
    subst hd
    exact ofSector_toSector h₂
  have hopen₁ : OpenFile.new d₂ freeMapSector 0 = some ⟨headerAt d₂ freeMapSector, 0, 0⟩ := rfl
  have hopen₂ : OpenFile.new d₂ directorySector 0 = some ⟨headerAt d₂ directorySector, 0, 0⟩ := rfl
  rw [hd0] at hopen₁
  rw [hd1] at hopen₂
  -- The system sectors are distinct and exactly the marked ones.
  set directory := Directory.new numDirEntries fresh.table with hdirectory
  have hunused : ∀ i < numDirEntries, (directory.table i).inUse = false := by
    intro i hi
    simp [hdirectory, Directory.new, hi]
  have hown : ∀ d', Owned (heldSectors ⟨d', ⟨h₁, 0, 0⟩, ⟨h₂, 0, 0⟩⟩ directory) (markedSet m₂) := by
    intro d'
    refine owned_of_unused hunused ?_ fun f => ?_
    · unfold heldSectors
      rw [List.nodup_cons, List.nodup_cons, List.nodup_append, List.mem_cons, List.mem_append,
        List.mem_append]
      refine ⟨?_, ?_, hnodup₁, hnodup₂, ?_⟩
      · rintro (h | h | h)
        · exact absurd h (by decide)
        · exact hfree₁ _ h ((hmarked _).mpr (Or.inl rfl))
        · exact hfree₂ _ h ((hset₁ _).mpr (Or.inl ((hmarked _).mpr (Or.inl rfl))))
      · rintro (h | h)
        · exact hfree₁ _ h ((hmarked _).mpr (Or.inr rfl))
        · exact hfree₂ _ h ((hset₁ _).mpr (Or.inl ((hmarked _).mpr (Or.inr rfl))))
      · rintro f hf g hg rfl
        exact hfree₂ f hg ((hset₁ f).mpr (Or.inr hf))
    · unfold heldSectors
      rw [hset₂, hset₁, hmarked, List.mem_cons, List.mem_cons, List.mem_append, or_assoc, or_assoc]
  have hlengths : ∀ d', SystemLengths ⟨d', ⟨h₁, 0, 0⟩, ⟨h₂, 0, 0⟩⟩ :=
    fun _ => ⟨hlen₁, hsized₁, hlen₂, hsized₂⟩
  have hsize : directory.tableSize = numDirEntries := rfl
  obtain ⟨d₃, d₄, hflush₁, hflush₂, hflush⟩ := (systemLayout_of_owned (hlengths d₂) hbits'
    (hown d₂)).flushFreeMapFirst hsize hbits' d₂ fresh.directoryBuf fresh.freeMapBuf
  have hheader : ∀ f, f = freeMapSector ∨ f = directorySector → headerAt d₄ f = headerAt d₂ f := by
    intro f hf
    unfold headerAt
    rw [hflush.other _ (apart_system (hown d₂) hf)]
  refine ⟨⟨d₄, ⟨h₁, 0, 0⟩, ⟨h₂, 0, 0⟩⟩, directory, m₂, ?_, ⟨hbits', hsize, hlengths d₄,
    (hheader _ (Or.inl rfl)).trans hd0, (hheader _ (Or.inr rfl)).trans hd1, hflush.map, hflush.dir,
    hown d₄, fun i hi hu => ?_, fun i hi j _ _ hu _ => ?_⟩, hunused, ?_⟩
  · simp [FileSystem.formatDisk, hnew, hmark₀, hmark₁, halloc₁, halloc₂, hwrite₁, hwrite₂, hopen₁,
      hopen₂, hflush₁, ← hdirectory, hflush₂]
  · rw [hunused i hi] at hu
    cases hu
  · rw [hunused i hi] at hu
    cases hu
  · simp only [freeMapFileSize, directoryFileSize, sizeofDirectoryEntry, numDirEntries] at *
    omega

/-! ## Runs -/

/-- A size `Create` may be called with. -/
def SizeInRange : FileEvent → Prop
  | .create _ initialSize _ => 0 ≤ initialSize ∧ initialSize ≤ maxFileSize
  | .remove _ _ => True

/-- The sectors in use, read off the disk: the two header sectors, the data of the free map
and the directory, and for each directory entry in use its header sector and the data of
the header stored there. -/
def usedSectors (d : DiskImage) (directory : Directory) : List ℤ :=
  freeMapSector :: directorySector ::
    (dataList (headerAt d freeMapSector) ++ dataList (headerAt d directorySector)) ++
    (List.range numDirEntries).flatMap fun i => entrySectors d (directory.table i)

/-- The free map and the directory on the disk can be fetched and agree: exactly the sectors
in use are marked, these are distinct, every header lists as many sectors as its file
needs, and no two entries in use have the same name. -/
def SectorsExact (fs : FileSystem) : Prop :=
  ∀ fresh, ∃ directory freeMap,
    fs.fetchDirectory fresh = some directory ∧ fs.fetchFreeMap fresh = some freeMap ∧
    (∀ f, freeMap.test f = some true ↔ f ∈ usedSectors fs.disk directory) ∧
    (usedSectors fs.disk directory).Nodup ∧
    (∀ f, f = freeMapSector ∨ f = directorySector ∨
        (∃ i < numDirEntries, (directory.table i).inUse = true ∧
          f = (directory.table i).sector.toInt) →
      (headerAt fs.disk f).numSectors.toInt =
        ((headerAt fs.disk f).numBytes.toInt + (sectorSize - 1)) / sectorSize) ∧
    ∀ i < numDirEntries, ∀ j < numDirEntries, i ≠ j → (directory.table i).inUse = true →
      (directory.table j).inUse = true →
      strncmpEq (directory.table i).nameBuf (directory.table j).nameBuf fileNameMaxLen = false

section Exact

variable {fs : FileSystem} {directory : Directory} {freeMap : BitMap}

theorem FsInv.mem_usedSectors (h : FsInv fs directory freeMap) (f : ℤ) :
    f ∈ usedSectors fs.disk directory ↔ ∃ o, f ∈ heldSectors fs directory o := by
  unfold usedSectors
  rw [h.mapHeader, h.dirHeader, List.mem_append, List.mem_flatMap]
  constructor
  · rintro (hsys | ⟨i, hi, hf⟩)
    · exact ⟨none, hsys⟩
    · rw [List.mem_range] at hi
      exact ⟨some i, by simpa [heldSectors, hi] using hf⟩
  · rintro ⟨o, ho⟩
    cases o with
    | none => exact Or.inl ho
    | some i =>
      by_cases hi : i < numDirEntries
      · exact Or.inr ⟨i, List.mem_range.mpr hi, by simpa [heldSectors, hi] using ho⟩
      · simp [heldSectors, hi] at ho

theorem FsInv.usedSectors_nodup (h : FsInv fs directory freeMap) :
    (usedSectors fs.disk directory).Nodup := by
  have hentry : ∀ i ∈ List.range numDirEntries,
      entrySectors fs.disk (directory.table i) = heldSectors fs directory (some i) := by
    intro i hi
    rw [List.mem_range] at hi
    simp [heldSectors, hi]
  unfold usedSectors
  rw [h.mapHeader, h.dirHeader, List.nodup_append]
  refine ⟨h.owned.nodup none, List.nodup_flatMap.mpr ⟨fun i hi => ?_, ?_⟩, ?_⟩
  · rw [hentry i hi]
    exact h.owned.nodup (some i)
  · refine List.Pairwise.imp_of_mem (fun {i j} hi hj hne f hfi hfj => ?_) List.nodup_range
    exact h.owned.disjoint (some i) (some j) (by simpa using hne) f (hentry i hi ▸ hfi)
      (hentry j hj ▸ hfj)
  · rintro f hf g hg rfl
    obtain ⟨i, hi, hg⟩ := List.mem_flatMap.mp hg
    rw [hentry i hi] at hg
    exact h.owned.disjoint none (some i) (by simp) f hf hg

theorem FsInv.exact (h : FsInv fs directory freeMap) : SectorsExact fs := by
  intro fresh
  obtain ⟨dir, hfetch, hdir⟩ := h.fetchDirectory fresh
  obtain ⟨map, hfetchMap, hmap⟩ := hdir.fetchFreeMap fresh
  have hceil : ∀ hdr, Sized hdr →
      hdr.numSectors.toInt = (hdr.numBytes.toInt + (sectorSize - 1)) / sectorSize := by
    intro hdr hs
    rw [hs.sectors]
    rfl
  refine ⟨dir, map, hfetch, hfetchMap, fun f => ?_, hmap.usedSectors_nodup, ?_, hmap.names⟩
  · rw [test_eq_some_true_iff, hmap.owned.marked_iff, hmap.mem_usedSectors]
  · rintro f (rfl | rfl | ⟨i, hi, hu, rfl⟩)
    · rw [hmap.mapHeader]
      exact hceil _ hmap.lengths.mapSized
    · rw [hmap.dirHeader]
      exact hceil _ hmap.lengths.dirSized
    · exact hceil _ (hmap.sized i hi hu)

end Exact

theorem format_inv (d : DiskImage) (fresh : Fresh) (dirHdr : FileHeader) (inFresh outFresh : Fresh) :
    ∃ fs directory freeMap, FileSystem.format d fresh dirHdr inFresh outFresh = some fs ∧
      FsInv fs directory freeMap := by
  obtain ⟨fs, dir, map, hformat, hinv, -⟩ := formatDisk_inv d fresh dirHdr
  obtain ⟨r₁, fs₁, dir₁, map₁, hcreate₁, hinv₁⟩ :=
    hinv.create (cString "stdin") le_rfl (by decide) inFresh
  obtain ⟨r₂, fs₂, dir₂, map₂, hcreate₂, hinv₂⟩ :=
    hinv₁.create (cString "stdout") le_rfl (by decide) outFresh
  exact ⟨fs₂, dir₂, map₂, by simp [FileSystem.format, hformat, hcreate₁, hcreate₂], hinv₂⟩

/-- SOURCE: filesys/filesys.cc:80-149, 185-226, 294-325, filesys/filehdr.cc:41-68 — on a disk
formatted by the constructor, whatever it held, every sequence of `Create` with a size
from 0 to `MaxFileSize` and `Remove` runs without a failed assertion, and after it the free
map marks exactly the sectors in use, each of them used once. -/
theorem sectors_exact_after_run (d : DiskImage) (fresh : Fresh) (dirHdr : FileHeader)
    (inFresh outFresh : Fresh) (es : List FileEvent) (hes : ∀ e ∈ es, SizeInRange e) :
    ∃ fs₀ fs, FileSystem.format d fresh dirHdr inFresh outFresh = some fs₀ ∧
      run FileSystem.step fs₀ es = some fs ∧ SectorsExact fs := by
  obtain ⟨fs₀, dir₀, map₀, hformat, hinv₀⟩ := format_inv d fresh dirHdr inFresh outFresh
  have hstep : ∀ (fs : FileSystem) (e : FileEvent), (∃ dir map, FsInv fs dir map) → SizeInRange e →
      ∃ fs', fs.step e = some fs' ∧ ∃ dir map, FsInv fs' dir map := by
    rintro fs e ⟨dir, map, hinv⟩ hsize
    cases e with
    | create name initialSize fresh =>
      obtain ⟨r, fs', dir', map', hrun, hinv'⟩ := hinv.create name hsize.1 hsize.2 fresh
      exact ⟨fs', by simp [FileSystem.step, hrun], dir', map', hinv'⟩
    | remove name fresh =>
      obtain ⟨r, fs', dir', map', hrun, hinv'⟩ := hinv.remove name fresh
      exact ⟨fs', by simp [FileSystem.step, hrun], dir', map', hinv'⟩
  obtain ⟨fs, hrun, dir, map, hinv⟩ := run_total hstep ⟨dir₀, map₀, hinv₀⟩ hes
  exact ⟨fs₀, fs, hformat, hrun, hinv.exact⟩

/-- A file of three sectors is created on a new disk and removed again, with all new memory
holding zeros. -/
theorem sectors_exact_create_remove :
    ∃ fs₀ fs, FileSystem.format (fun _ _ => 0#8)
        ⟨fun _ => ⟨false, 0, fun _ => 0⟩, fun _ => 0, ⟨0, 0, fun _ => 0⟩, fun _ => 0, fun _ => 0⟩
        ⟨0, 0, fun _ => 0⟩
        ⟨fun _ => ⟨false, 0, fun _ => 0⟩, fun _ => 0, ⟨0, 0, fun _ => 0⟩, fun _ => 0, fun _ => 0⟩
        ⟨fun _ => ⟨false, 0, fun _ => 0⟩, fun _ => 0, ⟨0, 0, fun _ => 0⟩, fun _ => 0, fun _ => 0⟩ =
        some fs₀ ∧
      run FileSystem.step fs₀ [
        .create (cString "a") 300
          ⟨fun _ => ⟨false, 0, fun _ => 0⟩, fun _ => 0, ⟨0, 0, fun _ => 0⟩, fun _ => 0, fun _ => 0⟩,
        .remove (cString "a")
          ⟨fun _ => ⟨false, 0, fun _ => 0⟩, fun _ => 0, ⟨0, 0, fun _ => 0⟩, fun _ => 0, fun _ => 0⟩] =
        some fs ∧ SectorsExact fs := by
  refine sectors_exact_after_run _ _ _ _ _ _ fun e he => ?_
  simp only [List.mem_cons, List.not_mem_nil, or_false] at he
  rcases he with rfl | rfl
  · exact ⟨by decide, by decide⟩
  · trivial

end Nachos.Analysis
