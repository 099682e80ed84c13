import Mathlib.Data.List.Find
import Nachos.Analysis.FileSystemRuns

/-!
# What a lookup finds

The directory and the free map on a disk are determined by its bytes, so what one operation
fetches is what another one has written. A file that `Create` has made is found under its name,
at the entry it was put into, and files with other names are found as before.

`Volume fs files free` sums this up for the runs that start with a new disk: the directory has
exactly the files `files`, with their lengths, and `free` sectors are unmarked.
-/

set_option autoImplicit false

namespace Nachos.Analysis

open Nachos.Library Nachos.Model

variable {i j : ℕ} {directory : Directory} {name : Buffer} {fs : FileSystem} {freeMap : BitMap}

/-! ## Names -/

theorem strncmpEq_trans {a b c : Buffer} {n : ℕ} (hab : strncmpEq a b n = true)
    (hbc : strncmpEq b c n = true) : strncmpEq a c n = true := by
  rw [strncmpEq_iff] at *
  intro k hk hpre
  have hbpre : ∀ j < k, b j ≠ 0#8 := by
    intro j hj
    rw [← hab j (by omega) fun i hi => hpre i (by omega)]
    exact hpre j hj
  rw [hab k hk hpre, hbc k hk hbpre]

theorem strncmpEq_newEntry_self (directory : Directory) (i : ℕ) (name : Buffer) (sector : ℤ) :
    strncmpEq (newEntry directory i name sector).nameBuf name fileNameMaxLen = true := by
  apply strncmpEq_symm
  rw [strncmpEq_iff]
  intro k hk hpre
  have hnozero : (List.range k).any (fun j => name j == 0#8) = false := by
    rw [List.any_eq_false]
    intro j hj
    simpa using hpre j (List.mem_range.mp hj)
  have hbuf : (newEntry directory i name sector).nameBuf k =
      strncpy (directory.table i).nameBuf name fileNameMaxLen k := dif_pos (Nat.lt_succ_of_lt hk)
  rw [hbuf]
  unfold strncpy
  rw [if_pos hk, hnozero]
  rfl

theorem isNamed_iff :
    directory.isNamed name i = true ↔ (directory.table i).inUse = true ∧
      strncmpEq (directory.table i).nameBuf name fileNameMaxLen = true := by
  unfold Directory.isNamed
  rw [Bool.and_eq_true]

/-! ## Entries -/

/-- No two entries in use have the same name. -/
def DistinctNames (directory : Directory) : Prop :=
  ∀ i < directory.tableSize, ∀ j < directory.tableSize, i ≠ j → (directory.table i).inUse = true →
    (directory.table j).inUse = true →
    strncmpEq (directory.table i).nameBuf (directory.table j).nameBuf fileNameMaxLen = false

theorem DistinctNames.named_unique (h : DistinctNames directory) (hi : i < directory.tableSize)
    (hj : j < directory.tableSize) (hni : directory.isNamed name i = true)
    (hnj : directory.isNamed name j = true) : i = j := by
  by_contra hne
  obtain ⟨hui, hsi⟩ := isNamed_iff.mp hni
  obtain ⟨huj, hsj⟩ := isNamed_iff.mp hnj
  have hsame := strncmpEq_trans hsi (strncmpEq_symm hsj)
  rw [h i hi j hj hne hui huj] at hsame
  cases hsame

theorem DistinctNames.findIndex_of_named (h : DistinctNames directory)
    (hi : i < directory.tableSize) (hnamed : directory.isNamed name i = true) :
    directory.findIndex name = some i := by
  cases hidx : directory.findIndex name with
  | none =>
    have hnot := findIndex_eq_none.mp hidx i hi
    rw [hnamed] at hnot
    cases hnot
  | some j =>
    obtain ⟨hj, hnj⟩ := findIndex_eq_some hidx
    rw [h.named_unique hj hi hnj hnamed]

theorem table_setEntry_self (directory : Directory) (i : ℕ) (entry : DirectoryEntry) :
    (directory.setEntry i entry).table i = entry := Function.update_self _ _ _

theorem table_setEntry_of_ne (directory : Directory) (hj : j ≠ i) (entry : DirectoryEntry) :
    (directory.setEntry i entry).table j = directory.table j :=
  Function.update_of_ne hj _ _

theorem isNamed_setEntry_of_ne (directory : Directory) (name : Buffer) (hj : j ≠ i)
    (entry : DirectoryEntry) :
    (directory.setEntry i entry).isNamed name j = directory.isNamed name j := by
  unfold Directory.isNamed
  rw [table_setEntry_of_ne directory hj]

theorem findIndex_setEntry_of_not_named {entry : DirectoryEntry}
    (hnew : (directory.setEntry i entry).isNamed name i = false)
    (hold : directory.isNamed name i = false) :
    (directory.setEntry i entry).findIndex name = directory.findIndex name := by
  show (List.range directory.tableSize).find? _ = (List.range directory.tableSize).find? _
  apply List.find?_congr
  intro j _
  by_cases hj : j = i
  · rw [hj, hnew, hold]
  · exact isNamed_setEntry_of_ne directory name hj _

theorem isNamed_newEntry_of_ne (directory : Directory) (i : ℕ) (sector : ℤ) {name name' : Buffer}
    (hne : strncmpEq name' name fileNameMaxLen = false) :
    (directory.setEntry i (newEntry directory i name sector)).isNamed name' i = false := by
  rw [Bool.eq_false_iff]
  intro hnamed
  rw [isNamed_iff, table_setEntry_self] at hnamed
  have hback := strncmpEq_symm hnamed.2
  rw [strncmpEq_newEntry i sector hne] at hback
  cases hback

theorem isNamed_newEntry_self (directory : Directory) (i : ℕ) (name : Buffer) (sector : ℤ) :
    (directory.setEntry i (newEntry directory i name sector)).isNamed name i = true := by
  rw [isNamed_iff, table_setEntry_self]
  exact ⟨rfl, strncmpEq_newEntry_self directory i name sector⟩

theorem isNamed_of_unused (hunused : (directory.table i).inUse = false) :
    directory.isNamed name i = false := by
  unfold Directory.isNamed
  rw [hunused, Bool.false_and]

/-! ## The directory and the free map of a disk -/

section Determined

variable {directory' : Directory} {freeMap' : BitMap}

theorem FsInv.table_eq (h : FsInv fs directory freeMap) (h' : FsInv fs directory' freeMap')
    (hi : i < numDirEntries) : directory'.table i = directory.table i := by
  have hread : ∀ {dir : Directory} {map : BitMap}, FsInv fs dir map →
      (directory.ofBytes (content fs.directoryFile.hdr fs.disk)).table i = dir.table i := by
    intro dir map hinv
    apply directory_ofBytes
    intro k _ hk
    apply hinv.dirContent
    simp only [directoryFileSize, sizeofDirectoryEntry, numDirEntries] at *
    omega
  rw [← hread h', hread h]

theorem FsInv.findIndex_eq (h : FsInv fs directory freeMap) (h' : FsInv fs directory' freeMap')
    (name : Buffer) : directory'.findIndex name = directory.findIndex name := by
  unfold Directory.findIndex
  rw [h.size, h'.size]
  apply List.find?_congr
  intro i hi
  unfold Directory.isNamed
  rw [h.table_eq h' (List.mem_range.mp hi)]

theorem FsInv.markedSet_eq (h : FsInv fs directory freeMap) (h' : FsInv fs directory' freeMap') :
    markedSet freeMap' = markedSet freeMap := by
  ext f
  rw [h.owned.marked_iff, h'.owned.marked_iff]
  apply exists_congr
  intro o
  cases o with
  | none => exact Iff.rfl
  | some i =>
    by_cases hi : i < numDirEntries
    · simp only [heldSectors, h.table_eq h' hi]
    · simp only [heldSectors, hi, if_false]

theorem isSet_eq_of_markedSet_eq {b b' : BitMap} (hbits : b'.numBits = b.numBits)
    (h : markedSet b' = markedSet b) (hi : i < b.numBits) : isSet b' i = isSet b i := by
  have hmem : (i : ℤ) ∈ markedSet b' ↔ (i : ℤ) ∈ markedSet b := by rw [h]
  rw [natCast_mem_markedSet, natCast_mem_markedSet, hbits] at hmem
  rw [Bool.eq_iff_iff]
  exact ⟨fun hs => (hmem.mp ⟨hi, hs⟩).2, fun hs => (hmem.mpr ⟨hi, hs⟩).2⟩

theorem clearSet_eq_of_markedSet_eq {b b' : BitMap} (hbits : b'.numBits = b.numBits)
    (h : markedSet b' = markedSet b) : clearSet b' = clearSet b := by
  ext i
  rw [mem_clearSet, mem_clearSet, hbits]
  apply and_congr_right
  intro hi
  rw [isSet_eq_of_markedSet_eq hbits h hi]

/-- INTERNAL: which sectors are found depends on the marked ones only. -/
theorem findMany_congr (n : ℕ) : ∀ {b b' c : BitMap} {l : List ℤ}, b'.numBits = b.numBits →
    markedSet b' = markedSet b → n ≤ (clearSet b).card → findMany n b = some (l, c) →
    ∃ c', findMany n b' = some (l, c') := by
  induction n with
  | zero =>
    intro b b' c l _ _ _ h
    cases h
    exact ⟨b', rfl⟩
  | succ n ih =>
    intro b b' c l hbits hmarked hcard h
    have hsame : ∀ j < b.numBits, isSet b' j = isSet b j := fun j hj =>
      isSet_eq_of_markedSet_eq hbits hmarked hj
    obtain ⟨-, hfull⟩ | ⟨k, hk, hfind, hclear, hbelow⟩ := find_cases b
    · obtain ⟨k, hmem⟩ := Finset.card_pos.mp (Nat.lt_of_lt_of_le (Nat.succ_pos n) hcard)
      obtain ⟨hk, hclear⟩ := mem_clearSet.mp hmem
      rw [hfull k hk] at hclear
      cases hclear
    obtain ⟨-, hfull⟩ | ⟨k', hk', hfind', hclear', hbelow'⟩ := find_cases b'
    · have hset := hfull k (by omega)
      rw [hsame k hk, hclear] at hset
      cases hset
    -- both are the least clear index
    have hkk : k' = k := by
      rw [hsame k' (by omega)] at hclear'
      obtain hlt | heq | hgt := lt_trichotomy k' k
      · rw [hbelow k' hlt] at hclear'
        cases hclear'
      · exact heq
      · have hset := hbelow' k hgt
        rw [hsame k hk, hclear] at hset
        cases hset
    subst hkk
    simp only [findMany, hfind, Option.bind_eq_bind, Option.bind_some, Option.bind_eq_some_iff,
      Option.pure_def, Option.some.injEq, Prod.mk.injEq, Prod.exists] at h
    obtain ⟨l', c₁, hmany, hl, -⟩ := h
    have hmarked' : markedSet (setBit b' k') = markedSet (setBit b k') := by
      ext f
      rw [mem_markedSet_setBit hk', mem_markedSet_setBit hk, hmarked]
    have hbits' : (setBit b' k').numBits = (setBit b k').numBits := hbits
    obtain ⟨c', hmany'⟩ := ih hbits' hmarked'
      (le_card_clearSet_setBit hk hclear hcard) hmany
    exact ⟨c', by simp [findMany, hfind', hmany', hl]⟩

theorem FsInv.clearSet_eq (h : FsInv fs directory freeMap) (h' : FsInv fs directory' freeMap') :
    clearSet freeMap' = clearSet freeMap :=
  clearSet_eq_of_markedSet_eq (h'.bits.trans h.bits.symm) (h.markedSet_eq h')

theorem FsInv.found (h : FsInv fs directory freeMap) (hidx : directory.findIndex name = some i) :
    i < numDirEntries ∧ directory.isNamed name i = true ∧
      directory.find name = (directory.table i).sector.toInt ∧
      ValidSector (directory.table i).sector.toInt := by
  obtain ⟨hi, hnamed⟩ := findIndex_eq_some hidx
  rw [h.size] at hi
  have hmem := h.owned.mem_marked (sector_mem_heldSectors fs hi (isNamed_iff.mp hnamed).1)
  refine ⟨hi, hnamed, ?_, ?_⟩
  · unfold Directory.find
    rw [hidx]
  · obtain ⟨k, hk, -, heq⟩ := hmem
    rw [h.bits] at hk
    rw [heq]
    exact ⟨Int.natCast_nonneg k, by exact_mod_cast hk⟩

theorem FsInv.distinctNames (h : FsInv fs directory freeMap) : DistinctNames directory := by
  unfold DistinctNames
  rw [h.size]
  exact h.names

theorem FsInv.findIndex_of_named (h : FsInv fs directory freeMap) (hi : i < numDirEntries)
    (hnamed : directory.isNamed name i = true) : directory.findIndex name = some i := by
  rw [← h.size] at hi
  exact h.distinctNames.findIndex_of_named hi hnamed

theorem FsInv.entry_laidOut (h : FsInv fs directory freeMap) (hi : i < numDirEntries)
    (hu : (directory.table i).inUse = true) :
    ∃ n : ℕ, (headerAt fs.disk (directory.table i).sector.toInt).numSectors.toInt = n ∧
      LaidOut (headerAt fs.disk (directory.table i).sector.toInt) n := by
  have hsized := h.sized i hi hu
  have hheld : heldSectors fs directory (some i) = (directory.table i).sector.toInt ::
      dataList (headerAt fs.disk (directory.table i).sector.toInt) := by
    simp [heldSectors, hi, entrySectors, hu]
  have hnodup := h.owned.nodup (some i)
  rw [hheld, List.nodup_cons] at hnodup
  have hnonneg : 0 ≤ (headerAt fs.disk (directory.table i).sector.toInt).numSectors.toInt := by
    have hbytes := hsized.nonneg
    rw [hsized.sectors]
    omega
  obtain ⟨n, hn⟩ := Int.eq_ofNat_of_zero_le hnonneg
  refine ⟨n, hn, laidOut_of_marked hsized hn h.bits hnodup.2 fun f hf => ?_⟩
  apply h.owned.mem_marked (o := some i)
  rw [hheld]
  exact List.mem_cons_of_mem _ hf

end Determined

/-! ## Lookups after `Create` -/

section AfterCreate

variable {fs' : FileSystem} {freeMap' : BitMap} {size : ℤ} {k n : ℕ} {hdr : FileHeader}

theorem Created.findIndex (h : Created fs fs' directory freeMap freeMap' name size i k n hdr) :
    (directory.setEntry i (newEntry directory i name k)).findIndex name = some i := by
  apply h.inv.findIndex_of_named h.lt
  exact isNamed_newEntry_self directory i name k

theorem Created.findIndex_other
    (h : Created fs fs' directory freeMap freeMap' name size i k n hdr) {name' : Buffer}
    (hne : strncmpEq name' name fileNameMaxLen = false) :
    (directory.setEntry i (newEntry directory i name k)).findIndex name' =
      directory.findIndex name' := by
  apply findIndex_setEntry_of_not_named
  · exact isNamed_newEntry_of_ne directory i k hne
  · exact isNamed_of_unused h.unused

theorem Created.header_other (h : Created fs fs' directory freeMap freeMap' name size i k n hdr)
    (hinv : FsInv fs directory freeMap) (hj : j < numDirEntries)
    (hu : (directory.table j).inUse = true) :
    headerAt fs'.disk (directory.table j).sector.toInt =
      headerAt fs.disk (directory.table j).sector.toInt := by
  have hheld := sector_mem_heldSectors fs hj hu
  obtain ⟨l, b, hmany, -, -, hfree, -⟩ := findMany_spec (n + 1) freeMap h.room
  rw [h.sectors] at hmany
  cases hmany
  have hne : (directory.table j).sector.toInt.toNat ≠ k := by
    intro heq
    have h0 := hinv.nonneg hheld
    have hk : (directory.table j).sector.toInt = k := by omega
    exact hfree k List.mem_cons_self (hk ▸ hinv.owned.mem_marked hheld)
  unfold headerAt
  rw [h.kept _ hne (hinv.apart_entry hheld)]

/-- INTERNAL: **`Remove` undoes `Create`**: the entry is not in use any more, and the marked
sectors are those before the file was made.
SRCLINE: filesys/filesys.cc:185-226, 294-325 -/
theorem Created.remove (h : Created fs fs' directory freeMap freeMap' name size i k n hdr)
    (fresh : Fresh) :
    ∃ fs'' directory'' freeMap'', fs'.remove name fresh = some (true, fs'') ∧
      FsInv fs'' directory'' freeMap'' ∧ markedSet freeMap'' = markedSet freeMap ∧
      ∀ j < numDirEntries, (directory''.table j).inUse = (directory.table j).inUse := by
  obtain ⟨dir, map, hinv, hcases⟩ := h.inv.remove_cases name fresh
  have hidx : dir.findIndex name = some i := by
    rw [h.inv.findIndex_eq hinv, h.findIndex]
  obtain ⟨-, hnone⟩ | ⟨fs'', map'', i', hrun, hremoved⟩ := hcases
  · rw [hnone] at hidx
    cases hidx
  have hi' := hremoved.found
  rw [hidx, Option.some.injEq] at hi'
  subst hi'
  refine ⟨fs'', _, map'', hrun, hremoved.inv, ?_, fun j hj => ?_⟩
  · have hheld : heldSectors fs' dir (some i) = (k : ℤ) :: dataList hdr := by
      simp only [heldSectors, h.lt, if_true, entrySectors, h.inv.table_eq hinv h.lt,
        table_setEntry_self, h.sector, h.header]
      rfl
    obtain ⟨l, b, hmany, -, -, hfree, -, hmarked⟩ := findMany_spec (n + 1) freeMap h.room
    rw [h.sectors] at hmany
    cases hmany
    ext f
    rw [hremoved.freed, hheld, h.inv.markedSet_eq hinv, hmarked]
    constructor
    · rintro ⟨hold | hnew, hnot⟩
      · exact hold
      · exact absurd hnew hnot
    · exact fun hold => ⟨Or.inl hold, fun hnew => hfree f hnew hold⟩
  · by_cases hji : j = i
    · rw [hji, table_setEntry_self, h.unused]
    · rw [table_setEntry_of_ne dir hji, h.inv.table_eq hinv hj, table_setEntry_of_ne directory hji]

end AfterCreate

/-! ## A disk whose files are known -/

/-- The entries in use. -/
def usedEntries (directory : Directory) : Finset ℕ :=
  (Finset.range numDirEntries).filter fun i => (directory.table i).inUse = true

theorem mem_usedEntries :
    i ∈ usedEntries directory ↔ i < numDirEntries ∧ (directory.table i).inUse = true := by
  simp [usedEntries]

/-- INTERNAL: the directory has exactly the files `files`, a name and a length each, and `free`
sectors are unmarked.
SRCLINE: filesys/filesys.cc:80-226 -/
structure Volume (fs : FileSystem) (directory : Directory) (freeMap : BitMap)
    (files : List (String × ℤ)) (free : ℕ) : Prop where
  inv : FsInv fs directory freeMap
  used : (usedEntries directory).card = files.length
  free : (clearSet freeMap).card = free
  listed : ∀ f ∈ files, ∃ i, directory.findIndex (cString f.1) = some i ∧
    (headerAt fs.disk (directory.table i).sector.toInt).numBytes.toInt = f.2
  only : ∀ name, directory.findIndex (cString name) ≠ none →
    ∃ f ∈ files, strncmpEq (cString name) (cString f.1) fileNameMaxLen = true

theorem FsInv.volume_nil (h : FsInv fs directory freeMap)
    (hunused : ∀ i < numDirEntries, (directory.table i).inUse = false) :
    Volume fs directory freeMap [] (clearSet freeMap).card := by
  refine ⟨h, ?_, rfl, fun _ h => absurd h List.not_mem_nil, ?_⟩
  · rw [List.length_nil, Finset.card_eq_zero]
    apply Finset.eq_empty_of_forall_notMem
    intro i hi
    obtain ⟨hlt, hu⟩ := mem_usedEntries.mp hi
    rw [hunused i hlt] at hu
    cases hu
  · intro name hne
    obtain ⟨i, hi⟩ := Option.ne_none_iff_exists'.mp hne
    obtain ⟨hlt, hnamed, -⟩ := h.found hi
    have hu := (isNamed_iff.mp hnamed).1
    rw [hunused i hlt] at hu
    cases hu

theorem formatDisk_volume (d : DiskImage) (fresh : Fresh) (dirHdr : FileHeader) :
    ∃ fs directory freeMap, FileSystem.formatDisk d fresh dirHdr = some fs ∧
      Volume fs directory freeMap [] 1019 := by
  obtain ⟨fs, dir, map, hformat, hinv, hunused, hcard⟩ := formatDisk_inv d fresh dirHdr
  exact ⟨fs, dir, map, hformat, hcard ▸ hinv.volume_nil hunused⟩

theorem usedEntries_setEntry (hi : i < numDirEntries) {entry : DirectoryEntry}
    (hu : entry.inUse = true) :
    usedEntries (directory.setEntry i entry) = insert i (usedEntries directory) := by
  ext j
  rw [Finset.mem_insert, mem_usedEntries, mem_usedEntries]
  by_cases hj : j = i
  · subst hj
    simp [table_setEntry_self, hi, hu]
  · simp [table_setEntry_of_ne directory hj, hj]

/-- INTERNAL: a new name is created when an entry and enough sectors are left. -/
theorem Volume.created {files : List (String × ℤ)} {free : ℕ}
    (h : Volume fs directory freeMap files free) (name : String) {size : ℤ} (h0 : 0 ≤ size)
    (hmax : size ≤ maxFileSize) (fresh : Fresh)
    (hnew : ∀ f ∈ files, strncmpEq (cString name) (cString f.1) fileNameMaxLen = false)
    (hentry : files.length < numDirEntries) (hroom : (size + 127) / 128 < free) :
    ∃ fs' dir map map' i k n hdr, fs.create (cString name) size fresh = some (true, fs') ∧
      FsInv fs dir map ∧ Created fs fs' dir map map' (cString name) size i k n hdr := by
  obtain ⟨dir, map, hinv, hcases⟩ := h.inv.create_cases (cString name) h0 hmax fresh
  obtain ⟨-, hwhy⟩ | ⟨fs', map', i, k, n, hdr, hrun, hcreated⟩ := hcases
  · exfalso
    obtain hfound | hfull | hfew := hwhy
    · rw [h.inv.findIndex_eq hinv] at hfound
      obtain ⟨f, hmem, hsame⟩ := h.only name hfound
      rw [hnew f hmem] at hsame
      cases hsame
    · have hall : usedEntries directory = Finset.range numDirEntries := by
        ext i
        rw [mem_usedEntries, Finset.mem_range]
        exact ⟨fun hi => hi.1, fun hi => ⟨hi, h.inv.table_eq hinv hi ▸ hfull i hi⟩⟩
      have hlen := h.used
      rw [hall, Finset.card_range] at hlen
      omega
    · rw [h.inv.clearSet_eq hinv, h.free] at hfew
      omega
  · exact ⟨fs', dir, map, map', i, k, n, hdr, hrun, hinv, hcreated⟩

/-- INTERNAL: **the files after a new name is created.** -/
theorem Volume.create {files : List (String × ℤ)} {free : ℕ}
    (h : Volume fs directory freeMap files free) (name : String) {size : ℤ} (h0 : 0 ≤ size)
    (hmax : size ≤ maxFileSize) (fresh : Fresh)
    (hnew : ∀ f ∈ files, strncmpEq (cString name) (cString f.1) fileNameMaxLen = false)
    (hentry : files.length < numDirEntries) (hroom : (size + 127) / 128 < free) :
    ∃ fs' directory' freeMap', fs.create (cString name) size fresh = some (true, fs') ∧
      Volume fs' directory' freeMap' ((name, size) :: files)
        (free - (((size + 127) / 128).toNat + 1)) := by
  obtain ⟨fs', dir, map, map', i, k, n, hdr, hrun, hinv, hcreated⟩ :=
    h.created name h0 hmax fresh hnew hentry hroom
  have hcard : (clearSet map).card = free := by
    rw [h.inv.clearSet_eq hinv, h.free]
  have hused : usedEntries dir = usedEntries directory := by
    ext i
    rw [mem_usedEntries, mem_usedEntries]
    exact and_congr_right fun hi => by rw [h.inv.table_eq hinv hi]
  have hnotin : i ∉ usedEntries directory := by
    rw [← hused, mem_usedEntries, hcreated.unused]
    simp
  have hother : ∀ name', strncmpEq (cString name') (cString name) fileNameMaxLen = false →
      (dir.setEntry i (newEntry dir i (cString name) k)).findIndex (cString name') =
        directory.findIndex (cString name') := by
    intro name' hne
    rw [hcreated.findIndex_other hne, h.inv.findIndex_eq hinv]
  refine ⟨fs', _, map', hrun, hcreated.inv, ?_, ?_, ?_, ?_⟩
  · rw [usedEntries_setEntry hcreated.lt rfl, hused, Finset.card_insert_of_notMem hnotin, h.used,
      List.length_cons]
  · have hleft := card_clearSet_findMany (n + 1) hcreated.room hcreated.sectors
    have hcount := hcreated.count
    omega
  · intro f hmem
    obtain rfl | hmem := List.mem_cons.mp hmem
    · refine ⟨i, hcreated.findIndex, ?_⟩
      rw [table_setEntry_self, hcreated.sector, hcreated.header, hcreated.bytes]
    · have hne : strncmpEq (cString f.1) (cString name) fileNameMaxLen = false := by
        rw [Bool.eq_false_iff]
        intro hsame
        have hback := strncmpEq_symm hsame
        rw [hnew f hmem] at hback
        cases hback
      obtain ⟨j, hj, hsize⟩ := h.listed f hmem
      obtain ⟨hlt, hnamed, -⟩ := h.inv.found hj
      have htable := h.inv.table_eq hinv hlt
      have hu : (dir.table j).inUse = true := by
        rw [htable]
        exact (isNamed_iff.mp hnamed).1
      have hji : j ≠ i := by
        rintro rfl
        rw [hcreated.unused] at hu
        cases hu
      refine ⟨j, by rw [hother f.1 hne, hj], ?_⟩
      rw [table_setEntry_of_ne dir hji, hcreated.header_other hinv hlt hu, htable, hsize]
  · intro name' hfound
    cases hsame : strncmpEq (cString name') (cString name) fileNameMaxLen with
    | true => exact ⟨(name, size), List.mem_cons_self, hsame⟩
    | false =>
      rw [hother name' hsame] at hfound
      obtain ⟨f, hmem, heq⟩ := h.only name' hfound
      exact ⟨f, List.mem_cons_of_mem _ hmem, heq⟩

end Nachos.Analysis
