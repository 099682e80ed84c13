import Nachos.Analysis.ReadOnlyDescriptors
import Nachos.Analysis.TransferRanges
import Nachos.Model.FileHandles

/-!
# Writes through open files

An `OpenFile` writes to the sectors its header named when it was opened. As long as the file has
not been removed these are the data sectors of one directory entry, and ownership of sectors
(`FsInv`) says that nobody else has them: the write changes the data of that file only. `WriteAt`
does not check its position, nor `Create` its size: for some arguments they go past the end of an
array, and what they change then is not defined (`DefinedArguments`).

`Remove` frees the sectors and leaves the object. The next `Create` takes the first free sectors,
which are the same ones, and a write through the old object changes the new file.
-/

set_option autoImplicit false

namespace Nachos.Analysis

open Nachos.Library Nachos.Model

variable {i n p : ℕ} {s s' : HandleState} {name : String} {e : HandleEvent} {f : OpenFile}
  {d' : DiskImage} {directory : Directory} {freeMap : BitMap} {size : ℤ} {fs : FileSystem}
  {env : DiskAnswer}

/-! ## What a write may change -/

/-- Between the disks `d` and `d'` nothing has changed in the sectors of the system files and of
the files with another name than `name`. -/
def OthersKept (fs : FileSystem) (directory : Directory) (name : String) (d' : DiskImage) : Prop :=
  (∀ x ∈ heldSectors fs directory none, d' x.toNat = fs.disk x.toNat) ∧
    ∀ i < numDirEntries, (directory.table i).inUse = true →
      directory.isNamed (cString name) i = false →
      ∀ x ∈ entrySectors fs.disk (directory.table i), d' x.toNat = fs.disk x.toNat

/-- The object an operation writes through. -/
def writesThrough : HandleEvent → Option ℕ
  | .write _ p _ _ => some p
  | .writeAt _ p _ _ _ => some p
  | _ => none

/-- A write through an object there is is defined. It changes nothing of the system files, and nothing
of the files with another name than the one the object was opened under. -/
def WriteContained (s : HandleState) (e : HandleEvent) : Prop :=
  ∀ p f, writesThrough e = some p → s.disk.objects p = some f → ∃ s', s.step e = some s' ∧
    ∀ fresh directory, s.disk.fs.fetchDirectory fresh = some directory →
      OthersKept s.disk.fs directory (s.openedAs p) s'.disk.fs.disk

/-- No write goes through an object whose file has been removed since it was opened. -/
def NotStale (s : HandleState) : HandleEvent → Prop
  | .write _ p _ _ => s.removed p = false
  | .writeAt _ p _ _ _ => s.removed p = false
  | _ => True

/-- The request begins after the end of the file, or the sum `position + numBytes` is an `int`. -/
def EndFits (f : OpenFile) (numBytes position : ℤ) : Prop :=
  f.length ≤ position ∨ position + numBytes < 2 ^ 31

/-- The arguments are such that the code is defined. `Create` gets a size that a header has room
for, as from all its callers: `0`, or the length of a UNIX file. `WriteAt` gets no negative position
for bytes to write, and the end of a request that is not refused is an `int`. -/
def DefinedArguments (s : HandleState) : HandleEvent → Prop
  | .create _ _ initialSize => 0 ≤ initialSize ∧ initialSize ≤ maxFileSize
  | .write _ p _ numBytes =>
    ∀ f, s.disk.objects p = some f → EndFits f numBytes.toInt f.seekPosition
  | .writeAt _ p _ numBytes position => (0 < numBytes.toInt → 0 ≤ position.toInt) ∧
    ∀ f, s.disk.objects p = some f → EndFits f numBytes.toInt position.toInt
  | _ => True

/-! ## `WriteAt` stays in the file -/

/-- INTERNAL: **a write stays in its file**, and so does the cursor behind it.
SRCLINE: filesys/openfile.cc:155-195 -/
theorem LaidOut.writeAt_inside (h : LaidOut f.hdr n) {numBytes position : ℤ}
    (hpos : 0 < numBytes → 0 ≤ position) (hend : EndFits f numBytes position) (d : DiskImage)
    (buf src : Buffer) :
    ∃ d' r, f.writeAt d buf src numBytes position = some (d', r) ∧
      (∀ s, (∀ i < n, (dataSector f.hdr i).toNat ≠ s) → d' s = d s) ∧ 0 ≤ r ∧
      (position ≤ f.length → position + r ≤ f.length) := by
  obtain ⟨len, hlen⟩ := Int.eq_ofNat_of_zero_le h.nonneg
  have hlength : f.length = len := hlen
  by_cases hnone : numBytes ≤ 0 ∨ position ≥ f.length
  · refine ⟨d, 0, if_pos hnone, fun _ _ => rfl, le_rfl, fun hle => ?_⟩
    rwa [add_zero]
  · obtain ⟨hsome, hbefore⟩ := not_or.mp hnone
    have hfits : position + numBytes < 2 ^ 31 := hend.resolve_left hbefore
    obtain ⟨p, rfl⟩ := Int.eq_ofNat_of_zero_le (hpos (not_le.mp hsome))
    obtain ⟨m, rfl⟩ := Int.eq_ofNat_of_zero_le (show 0 ≤ numBytes by omega)
    obtain ⟨d', hwrite, -, hother⟩ := h.writeAt hlen d buf src (m := m) (p := p) (by omega)
    refine ⟨d', _, hwrite, fun s hs => ?_, Int.natCast_nonneg _, fun hle => ?_⟩
    · exact hother s fun k hp hk => hs _ (h.div_lt_of_granted hlen hp hk)
    · unfold granted
      omega

/-! ## Changing the data of one file -/

/-- Only data sectors of entry `i` differ between the disk and `d'`. -/
def OnlyData (fs : FileSystem) (directory : Directory) (i : ℕ) (d' : DiskImage) : Prop :=
  ∀ x, (∀ f ∈ dataList (headerAt fs.disk (directory.table i).sector.toInt), f.toNat ≠ x) →
    d' x = fs.disk x

theorem heldSectors_inUse (fs : FileSystem) (hi : i < numDirEntries)
    (hu : (directory.table i).inUse = true) :
    heldSectors fs directory (some i) = (directory.table i).sector.toInt ::
      dataList (headerAt fs.disk (directory.table i).sector.toInt) := by
  simp [heldSectors, hi, entrySectors, hu]

theorem FsInv.kept_of_other (h : FsInv fs directory freeMap) (hi : i < numDirEntries)
    (hu : (directory.table i).inUse = true) (hd : OnlyData fs directory i d') {o : Option ℕ}
    (ho : o ≠ some i) {x : ℤ} (hx : x ∈ heldSectors fs directory o) :
    d' x.toNat = fs.disk x.toNat := by
  apply hd
  intro f hf
  have hf' : f ∈ heldSectors fs directory (some i) := by
    rw [heldSectors_inUse fs hi hu]
    exact List.mem_cons_of_mem _ hf
  apply toNat_ne_of_ne (h.nonneg hf') (h.nonneg hx)
  rintro rfl
  exact h.owned.disjoint o (some i) ho f hx hf'

/-- INTERNAL: changing the data of a file changes no header. -/
theorem FsInv.header_kept (h : FsInv fs directory freeMap) (hi : i < numDirEntries)
    (hu : (directory.table i).inUse = true) (hd : OnlyData fs directory i d') {j : ℕ}
    (hj : j < numDirEntries) (huj : (directory.table j).inUse = true) :
    headerAt d' (directory.table j).sector.toInt =
      headerAt fs.disk (directory.table j).sector.toInt := by
  unfold headerAt
  by_cases hji : j = i
  · subst hji
    have hnodup := h.owned.nodup (some j)
    rw [heldSectors_inUse fs hj hu, List.nodup_cons] at hnodup
    rw [hd]
    intro f hf
    have hf' : f ∈ heldSectors fs directory (some j) := by
      rw [heldSectors_inUse fs hj hu]
      exact List.mem_cons_of_mem _ hf
    apply toNat_ne_of_ne (h.nonneg hf') (h.nonneg (sector_mem_heldSectors fs hj hu))
    rintro rfl
    exact hnodup.1 hf
  · have hne : (some j : Option ℕ) ≠ some i := by simpa using hji
    rw [h.kept_of_other hi hu hd hne (sector_mem_heldSectors fs hj huj)]

/-- INTERNAL: **the data of a file is nobody else's**: changing it keeps the invariant. -/
theorem FsInv.of_onlyData (h : FsInv fs directory freeMap) (hi : i < numDirEntries)
    (hu : (directory.table i).inUse = true) (hd : OnlyData fs directory i d') :
    FsInv { fs with disk := d' } directory freeMap := by
  have hsystem : ∀ x ∈ heldSectors fs directory none, d' x.toNat = fs.disk x.toNat :=
    fun x hx => h.kept_of_other hi hu hd (by simp) hx
  have hdata : ∀ x ∈ dataList fs.freeMapFile.hdr ++ dataList fs.directoryFile.hdr,
      d' x.toNat = fs.disk x.toNat := fun x hx => hsystem x (mem_heldSectors_none directory hx)
  have hheader : ∀ x, x = freeMapSector ∨ x = directorySector →
      headerAt d' x = headerAt fs.disk x := by
    intro x hx
    unfold headerAt
    rw [hsystem x]
    obtain rfl | rfl := hx
    · exact List.mem_cons_self
    · exact List.mem_cons_of_mem _ List.mem_cons_self
  refine ⟨h.bits, h.size, ⟨h.lengths.map, h.lengths.mapSized, h.lengths.dir, h.lengths.dirSized⟩,
    (hheader _ (Or.inl rfl)).trans h.mapHeader, (hheader _ (Or.inr rfl)).trans h.dirHeader,
    fun k hk => ?_, fun k hk => ?_, ?_, fun j hj huj => ?_, h.names⟩
  · rw [← h.mapContent k hk]
    apply h.layout.map.content_congr
    · intro j hj
      exact hdata _ (List.mem_append_left _ (mem_dataList h.lengths.mapSectors hj))
    · show (k : ℤ) < fs.freeMapFile.hdr.numBytes.toInt
      rw [h.lengths.map]
      exact_mod_cast hk
  · rw [← h.dirContent k hk]
    apply h.layout.dir.content_congr
    · intro j hj
      exact hdata _ (List.mem_append_right _ (mem_dataList h.lengths.dirSectors hj))
    · show (k : ℤ) < fs.directoryFile.hdr.numBytes.toInt
      rw [h.lengths.dir]
      exact_mod_cast hk
  · apply h.owned.congr
    · intro o
      cases o with
      | none => rfl
      | some j =>
        by_cases hj : j < numDirEntries
        · cases huj : (directory.table j).inUse with
          | false => simp [heldSectors, hj, entrySectors, huj]
          | true => simp [heldSectors, hj, entrySectors, huj, h.header_kept hi hu hd hj huj]
        · simp [heldSectors, hj]
    · exact fun _ => Iff.rfl
  · show Sized (headerAt d' _)
    rw [h.header_kept hi hu hd hj huj]
    exact h.sized j hj huj

/-! ## The invariant -/

/-- INTERNAL: the object has the header of the entry with the name it was opened under, and its cursor
is in the file. -/
structure Current (d : DiskImage) (directory : Directory) (name : String) (f : OpenFile) : Prop where
  entry : ∃ i < numDirEntries, directory.isNamed (cString name) i = true ∧
    f.hdr = headerAt d (directory.table i).sector.toInt
  cursor : 0 ≤ f.seekPosition ∧ f.seekPosition ≤ f.length

/-- INTERNAL: the disk is in order, and every object whose file has not been removed is current. -/
def HandleInv (s : HandleState) : Prop :=
  ∃ directory freeMap, FsInv s.disk.fs directory freeMap ∧
    ∀ p f, s.disk.objects p = some f → s.removed p = false →
      Current s.disk.fs.disk directory (s.openedAs p) f

section Current

variable {d : DiskImage} {directory' : Directory}

theorem Current.congr (h : Current d directory name f)
    (hentry : ∀ i < numDirEntries, directory.isNamed (cString name) i = true →
      directory'.table i = directory.table i ∧
        headerAt d' (directory.table i).sector.toInt = headerAt d (directory.table i).sector.toInt) :
    Current d' directory' name f := by
  obtain ⟨⟨i, hi, hnamed, hf⟩, hcursor⟩ := h
  obtain ⟨htable, hheader⟩ := hentry i hi hnamed
  refine ⟨⟨i, hi, ?_, ?_⟩, hcursor⟩
  · unfold Directory.isNamed at hnamed ⊢
    rw [htable]
    exact hnamed
  · rw [htable, hheader]
    exact hf

theorem Current.advance (h : Current d directory name f) (hlaid : LaidOut f.hdr n) {r : ℤ}
    (h0 : 0 ≤ r) (hle : f.seekPosition + r ≤ f.length) :
    Current d directory name (f.advance r) := by
  obtain ⟨len, hlen⟩ := Int.eq_ofNat_of_zero_le hlaid.nonneg
  have hlength : f.length = len := hlen
  have hbig := hlaid.len_le hlen
  have hcursor := h.cursor
  have hsum : (f.advance r).seekPosition = f.seekPosition + r :=
    toInt32_of_lt (by omega) (by omega)
  refine ⟨h.entry, ?_, ?_⟩
  · rw [hsum]
    omega
  · rw [hsum]
    exact hle

end Current

theorem HandleInv.current (h : HandleInv s) (hinv : FsInv s.disk.fs directory freeMap)
    (hf : s.disk.objects p = some f) (hrem : s.removed p = false) :
    Current s.disk.fs.disk directory (s.openedAs p) f := by
  obtain ⟨dir, map, hdir, hcurrent⟩ := h
  exact (hcurrent p f hf hrem).congr fun i hi _ => ⟨hdir.table_eq hinv hi, rfl⟩

/-! ## Steps -/

/-- INTERNAL: a `Create` leaves the objects current. -/
theorem HandleInv.create (h : HandleInv s) (h0 : 0 ≤ size)
    (hstep : s.step (.create env name size) = some s') : HandleInv s' := by
  obtain ⟨⟨ok, disk'⟩, hcreate, rfl⟩ := Option.map_eq_some_iff.mp hstep
  obtain ⟨⟨ok', fs'⟩, hrun, heq⟩ := Option.map_eq_some_iff.mp hcreate
  cases heq
  have hstay := h
  obtain ⟨dir₀, map₀, hinv₀, -⟩ := h
  obtain ⟨-, rfl⟩ | ⟨dir, map, map', i, k, n, hdr, -, hinv, hcreated⟩ := hinv₀.create_result h0 hrun
  · exact hstay
  refine ⟨_, map', hcreated.inv, fun p f hf hrem => ?_⟩
  refine (hstay.current hinv hf hrem).congr ?_
  intro j hj hnamed
  have hu := (isNamed_iff.mp hnamed).1
  have hji : j ≠ i := by
    rintro rfl
    rw [hcreated.unused] at hu
    cases hu
  exact ⟨table_setEntry_of_ne dir hji _, hcreated.header_other hinv hj hu⟩

/-- INTERNAL: a `Remove` leaves the objects of other files current. -/
theorem HandleInv.remove (h : HandleInv s) (hstep : s.step (.remove env name) = some s') :
    HandleInv s' := by
  obtain ⟨⟨ok, disk'⟩, hremove, rfl⟩ := Option.map_eq_some_iff.mp hstep
  obtain ⟨⟨ok', fs'⟩, hrun, heq⟩ := Option.map_eq_some_iff.mp hremove
  cases heq
  have hstay := h
  obtain ⟨dir₀, map₀, hinv₀, -⟩ := h
  obtain ⟨dir, map, hinv, hcases⟩ := hinv₀.remove_cases (cString name) env.fresh
  obtain ⟨hno, -⟩ | ⟨fs₁, map', i, hyes, hremoved⟩ := hcases
  · rw [hno, Option.some.injEq, Prod.mk.injEq] at hrun
    obtain ⟨rfl, rfl⟩ := hrun
    refine ⟨dir, map, hinv, fun p f hf hrem => ?_⟩
    simp only [Bool.false_and, Bool.or_false] at hrem
    exact hstay.current hinv hf hrem
  · rw [hyes, Option.some.injEq, Prod.mk.injEq] at hrun
    obtain ⟨rfl, rfl⟩ := hrun
    refine ⟨_, map', hremoved.inv, fun p f hf hrem => ?_⟩
    simp only [Bool.true_and, Bool.or_eq_false_iff] at hrem
    refine (hstay.current hinv hf hrem.1).congr ?_
    intro j hj hnamed
    obtain ⟨hu, hname⟩ := isNamed_iff.mp hnamed
    have hji : j ≠ i := by
      rintro rfl
      -- the entry has both names, so they agree
      obtain ⟨-, hnamed', -⟩ := hinv.found hremoved.found
      have hsame := strncmpEq_trans (strncmpEq_symm hname) (isNamed_iff.mp hnamed').2
      rw [hrem.2] at hsame
      cases hsame
    refine ⟨table_setEntry_of_ne dir hji _, ?_⟩
    unfold headerAt
    rw [hremoved.kept _ (hinv.apart_entry (sector_mem_heldSectors s.disk.fs hj hu))]

/-- INTERNAL: the object an `Open` makes is current. -/
theorem HandleInv.openFile (h : HandleInv s) (hstep : s.step (.open env name) = some s') :
    HandleInv s' := by
  obtain ⟨⟨r, disk'⟩, hopen, rfl⟩ := Option.map_eq_some_iff.mp hstep
  have hstay := h
  obtain ⟨dir, map, hinv, -⟩ := h
  obtain ⟨rfl, rfl⟩ | ⟨i, f, rfl, hfree, haddr, -, hdisk⟩ := disk_open_cases hopen
  · exact hstay
  have hlisted : Listed s.disk.fs env.fresh name := by
    by_contra hnot
    cases (disk_open_unlisted hopen hnot).1
  obtain ⟨dir', hfetch, hge⟩ := hlisted
  obtain ⟨dir'', hfetch', hdir''⟩ := hinv.fetchDirectory env.fresh
  rw [hfetch, Option.some.injEq] at hfetch'
  subst hfetch'
  cases hidx : dir'.findIndex (cString name) with
  | none =>
    rw [(hdir''.find_eq_neg_one _).mpr hidx] at hge
    omega
  | some j =>
    obtain ⟨hj, hnamed, -⟩ := hdir''.found hidx
    have hopen' := hdir''.disk_openFile env hidx hfree haddr
    rw [hopen, Option.some.injEq, Prod.mk.injEq] at hopen'
    rw [hopen'.2]
    refine ⟨dir', map, hdir'', fun p g hg hrem => ?_⟩
    show Current s.disk.fs.disk dir' (Function.update s.openedAs env.addr name p) g
    by_cases hp : p = env.addr
    · subst hp
      rw [diskOpened_objects_self, Option.some.injEq] at hg
      subst hg
      obtain ⟨n, -, hlaid⟩ := hdir''.entry_laidOut hj (isNamed_iff.mp hnamed).1
      rw [Function.update_self]
      exact ⟨⟨j, hj, hnamed, rfl⟩, le_rfl, hlaid.nonneg⟩
    · have hg' : s.disk.objects p = some g := by
        rw [← hg]
        exact (Function.update_of_ne hp _ _).symm
      have hrem' : s.removed p = false := by
        rw [← hrem]
        exact (Function.update_of_ne hp _ _).symm
      rw [Function.update_of_ne hp]
      exact hstay.current hdir'' hg' hrem'

/-- INTERNAL: **a write through a current object** changes the data of its entry only. -/
theorem Current.onlyData (h : Current fs.disk directory name f) (hinv : FsInv fs directory freeMap)
    {numBytes position : ℤ} (hpos : 0 < numBytes → 0 ≤ position)
    (hend : EndFits f numBytes position) (buf src : Buffer) :
    ∃ d' r, f.writeAt fs.disk buf src numBytes position = some (d', r) ∧
      (position = f.seekPosition → Current fs.disk directory name (f.advance r)) ∧
      ∃ i < numDirEntries, directory.isNamed (cString name) i = true ∧
        OnlyData fs directory i d' := by
  obtain ⟨i, hi, hnamed, hhdr⟩ := h.entry
  obtain ⟨n, hn, hlaid⟩ := hinv.entry_laidOut hi (isNamed_iff.mp hnamed).1
  rw [← hhdr] at hn hlaid
  obtain ⟨d', r, hwrite, hother, h0, hlen⟩ := hlaid.writeAt_inside hpos hend fs.disk buf src
  refine ⟨d', r, hwrite, ?_, i, hi, hnamed, fun x hx => ?_⟩
  · rintro rfl
    exact h.advance hlaid h0 (hlen h.cursor.2)
  · apply hother
    intro j hj
    apply hx
    rw [← hhdr]
    exact mem_dataList hn hj

theorem FsInv.othersKept (h : FsInv fs directory freeMap) (hi : i < numDirEntries)
    (hnamed : directory.isNamed (cString name) i = true) (hd : OnlyData fs directory i d') :
    OthersKept fs directory name d' := by
  have hu := (isNamed_iff.mp hnamed).1
  refine ⟨fun x hx => h.kept_of_other hi hu hd (by simp) hx, fun j hj huj hother x hx => ?_⟩
  have hji : j ≠ i := by
    rintro rfl
    rw [hnamed] at hother
    cases hother
  have hx' : x ∈ heldSectors fs directory (some j) := by
    simp only [heldSectors, hj, if_true]
    exact hx
  exact h.kept_of_other hi hu hd (by simpa using hji) hx'

theorem step_writeAt_of_object (env : DiskAnswer) (numBytes position : BitVec 32) {src : Buffer}
    {r : ℤ} (hf : s.disk.objects p = some f)
    (hwrite : f.writeAt s.disk.fs.disk env.buf src numBytes.toInt position.toInt = some (d', r)) :
    s.step (.writeAt env p src numBytes position) =
      some { s with disk := { s.disk with fs := { s.disk.fs with disk := d' } } } := by
  simp only [HandleState.step, DiskFileSystem.writeAt, hf, hwrite, Option.bind_eq_bind,
    Option.bind_some, Option.pure_def, Option.map_some]

/-- INTERNAL: what the writing operations do with an object that is current: the one they leave in its
place is current too. -/
theorem write_result (hp : writesThrough e = some p) (hf : s.disk.objects p = some f)
    (hcur : Current s.disk.fs.disk directory (s.openedAs p) f)
    (hinv : FsInv s.disk.fs directory freeMap) (hargs : DefinedArguments s e) :
    ∃ d f' i, s.step e = some { s with disk := ⟨{ s.disk.fs with disk := d },
        Function.update s.disk.objects p (some f'), s.disk.file⟩ } ∧
      Current s.disk.fs.disk directory (s.openedAs p) f' ∧ i < numDirEntries ∧
      directory.isNamed (cString (s.openedAs p)) i = true ∧ OnlyData s.disk.fs directory i d := by
  cases e with
  | write env p' src numBytes =>
    cases hp
    obtain ⟨d, r, hwrite, hadvance, i, hi, hnamed, hd⟩ :=
      hcur.onlyData hinv (fun _ => hcur.cursor.1) (hargs f hf) env.buf src
    refine ⟨d, f.advance r, i, ?_, hadvance rfl, hi, hnamed, hd⟩
    simp only [HandleState.step, DiskFileSystem.write, OpenFile.write, hf, hwrite,
      Option.bind_eq_bind, Option.bind_some, Option.pure_def, Option.map_some]
  | writeAt env p' src numBytes position =>
    cases hp
    obtain ⟨d, r, hwrite, -, i, hi, hnamed, hd⟩ :=
      hcur.onlyData hinv hargs.1 (hargs.2 f hf) env.buf src
    refine ⟨d, f, i, ?_, hcur, hi, hnamed, hd⟩
    have hsame : Function.update s.disk.objects p (some f) = s.disk.objects := by
      rw [← hf, Function.update_eq_self]
    rw [hsame]
    exact step_writeAt_of_object env numBytes position hf hwrite
  | create => cases hp
  | remove => cases hp
  | «open» => cases hp
  | delete => cases hp
  | setFile => cases hp

theorem removed_of_notStale (hp : writesThrough e = some p) (h : NotStale s e) :
    s.removed p = false := by
  cases e <;> cases hp <;> exact h

theorem object_of_write (hp : writesThrough e = some p) (hstep : s.step e = some s') :
    ∃ f, s.disk.objects p = some f := by
  cases e <;> cases hp
  all_goals
    obtain ⟨r, hwrite, -⟩ := Option.map_eq_some_iff.mp hstep
    obtain ⟨f, hf, -⟩ := Option.bind_eq_some_iff.mp hwrite
    exact ⟨f, hf⟩

theorem HandleInv.write (h : HandleInv s) (hp : writesThrough e = some p) (hc : NotStale s e)
    (hargs : DefinedArguments s e) (hstep : s.step e = some s') : HandleInv s' := by
  obtain ⟨f, hf⟩ := object_of_write hp hstep
  obtain ⟨dir, map, hinv, hcurrent⟩ := h
  obtain ⟨d, f', i, hresult, hcur', hi, hnamed, hd⟩ :=
    write_result hp hf (hcurrent p f hf (removed_of_notStale hp hc)) hinv hargs
  rw [hstep, Option.some.injEq] at hresult
  subst hresult
  have hu := (isNamed_iff.mp hnamed).1
  refine ⟨dir, map, hinv.of_onlyData hi hu hd, fun q g hg hrem => ?_⟩
  have hcur : Current s.disk.fs.disk dir (s.openedAs q) g := by
    by_cases hq : q = p
    · subst hq
      have hg' : some f' = some g := (Function.update_self q _ _).symm.trans hg
      cases hg'
      exact hcur'
    · exact hcurrent q g ((Function.update_of_ne hq _ _).symm.trans hg) hrem
  exact hcur.congr fun j hj hnamedj =>
    ⟨rfl, hinv.header_kept hi hu hd hj (isNamed_iff.mp hnamedj).1⟩

/-- INTERNAL: **one step** keeps the invariant.
SRCLINE: filesys/filesys.cc:185-325, filesys/openfile.cc:30-195 -/
theorem HandleInv.step (h : HandleInv s) (hc : NotStale s e ∧ DefinedArguments s e)
    (hstep : s.step e = some s') : HandleInv s' := by
  cases e with
  | create env name size => exact h.create hc.2.1 hstep
  | remove env name => exact h.remove hstep
  | «open» env name => exact h.openFile hstep
  | delete p =>
    obtain ⟨disk', hdel, rfl⟩ := Option.map_eq_some_iff.mp hstep
    rw [disk_delete_spec hdel]
    obtain ⟨dir, map, hinv, hcurrent⟩ := h
    refine ⟨dir, map, hinv, fun q g hg hrem => ?_⟩
    have hq : q ≠ p := by
      rintro rfl
      simp at hg
    have hg' : s.disk.objects q = some g := by
      rw [← hg]
      exact (Function.update_of_ne hq _ _).symm
    exact hcurrent q g hg' hrem
  | setFile i p =>
    cases hstep
    exact h
  | write env p src numBytes => exact h.write rfl hc.1 hc.2 hstep
  | writeAt env p src numBytes position => exact h.write rfl hc.1 hc.2 hstep

/-- INTERNAL: a write is contained where the invariant holds. -/
theorem HandleInv.contained (h : HandleInv s) (hc : NotStale s e) (hargs : DefinedArguments s e) :
    WriteContained s e := by
  intro p f hp hf
  have hrem := removed_of_notStale hp hc
  have hstay := h
  obtain ⟨dir₀, map₀, hinv₀, hcurrent⟩ := h
  obtain ⟨d, f', i, hstep, -⟩ := write_result hp hf (hcurrent p f hf hrem) hinv₀ hargs
  refine ⟨_, hstep, fun fresh directory hfetch => ?_⟩
  obtain ⟨dir, hfetch', hinv⟩ := hinv₀.fetchDirectory fresh
  rw [hfetch, Option.some.injEq] at hfetch'
  subst hfetch'
  obtain ⟨d', f'', j, hstep', -, hj, hnamed, hd⟩ :=
    write_result hp hf (hstay.current hinv hf hrem) hinv hargs
  rw [hstep, Option.some.injEq] at hstep'
  rw [hstep']
  exact hinv.othersKept hj hnamed hd

/-! ## The main result -/

/-- INTERNAL: the header of a file that has been created, as the directory leads to it. -/
theorem Created.headerAt_entry {fs fs₁ : FileSystem} {dir : Directory} {map map' : BitMap}
    {name : Buffer} {i k n : ℕ} {hdr : FileHeader}
    (h : Created fs fs₁ dir map map' name size i k n hdr) :
    headerAt fs₁.disk ((dir.setEntry i (newEntry dir i name k)).table i).sector.toInt = hdr := by
  rw [table_setEntry_self, h.sector, h.header]

/-- INTERNAL: a file that has been created can be opened, with the first entry of an empty table. -/
theorem Created.openFile {fs fs₁ : FileSystem} {dir : Directory} {map map' : BitMap} {i k n : ℕ}
    {hdr : FileHeader} (h : Created fs fs₁ dir map map' (cString name) size i k n hdr)
    (env : DiskAnswer) :
    DiskFileSystem.openFile ⟨fs₁, fun _ => none, fun _ => none⟩ env name =
      some (some env.addr, ⟨fs₁, Function.update (fun _ => none) env.addr (some ⟨hdr, 0, 0⟩),
        Function.update (fun _ => none) 2 (some env.addr)⟩) := by
  have hopen := FsInv.disk_openFile (s := ⟨fs₁, fun _ => none, fun _ => none⟩) h.inv env (i := 2)
    h.findIndex rfl rfl
  rw [h.headerAt_entry] at hopen
  exact hopen

/-- SOURCE: filesys/openfile.cc:30-44, 155-195, filesys/filesys.cc:294-325 — after every run from a
formatted disk, with defined arguments and no write through an object whose file has been removed
since it was opened, such a write is defined and changes only the data of the file its object was
opened as. -/
theorem writes_contained (d : DiskImage) (fresh : Fresh) (dirHdr : FileHeader) :
    ∃ fs, FileSystem.formatDisk d fresh dirHdr = some fs ∧
      ∀ (es : List HandleEvent) (s : HandleState) (e : HandleEvent),
        Meets HandleState.step (fun s e => NotStale s e ∧ DefinedArguments s e) (.start fs) es →
        run HandleState.step (.start fs) es = some s → NotStale s e → DefinedArguments s e →
        WriteContained s e := by
  obtain ⟨fs, dir, map, hformat, hinv, -⟩ := formatDisk_inv d fresh dirHdr
  refine ⟨fs, hformat, fun es s e hes hrun hc hargs => ?_⟩
  have hstart : HandleInv (HandleState.start fs) := ⟨dir, map, hinv, fun _ _ hf => by cases hf⟩
  have hs : HandleInv s := run_invariant (fun _ _ _ hs hc => hs.step hc) hstart hes hrun
  exact hs.contained hc hargs

/-- A byte is written to a file that has been created and opened. -/
theorem writes_contained_open_file :
    ∃ fs s f, FileSystem.formatDisk (fun _ _ => 0#8) (blank 0).fresh ⟨0, 0, fun _ => 0⟩ = some fs ∧
      run HandleState.step (.start fs) [.create (blank 0) "a" 1, .open (blank 0) "a"] = some s ∧
      s.disk.objects 0 = some f ∧ ∀ src, WriteContained s (.write (blank 0) 0 src 1) := by
  obtain ⟨fs, hformat, hall⟩ := writes_contained (fun _ _ => 0#8) (blank 0).fresh ⟨0, 0, fun _ => 0⟩
  obtain ⟨fs', dir₀, map₀, hformat', hinv₀, hunused, hcard⟩ :=
    formatDisk_inv (fun _ _ => 0#8) (blank 0).fresh ⟨0, 0, fun _ => 0⟩
  rw [hformat, Option.some.injEq] at hformat'
  subst hformat'
  obtain ⟨fs₁, dirA, mapA, mapA', i, k, n, hdr, hcreate, -, hA⟩ :=
    (hinv₀.volume_nil hunused).created "a" (show (0 : ℤ) ≤ 1 by decide) (by decide)
      (blank 0).fresh (by simp) (by decide) (by rw [hcard]; decide)
  obtain ⟨s, hrun, hobject, hremoved⟩ : ∃ s, run HandleState.step (.start fs)
      [.create (blank 0) "a" 1, .open (blank 0) "a"] = some s ∧
      s.disk.objects 0 = some ⟨hdr, 0, 0⟩ ∧ s.removed 0 = false := by
    have hopen := hA.openFile (blank 0)
    simp only [run, HandleState.step, HandleState.start, DiskFileSystem.create, hcreate, hopen,
      Option.map_some]
    exact ⟨_, rfl, rfl, rfl⟩
  refine ⟨fs, s, _, hformat, hrun, hobject, fun src => hall _ s _ ?_ hrun hremoved ?_⟩
  · refine meets_of_forall (fun s e he => ?_) _
    simp only [List.mem_cons, List.not_mem_nil, or_false] at he
    obtain rfl | rfl := he
    · exact ⟨trivial, by decide, by decide⟩
    · exact ⟨trivial, trivial⟩
  · intro f hf
    rw [hobject, Option.some.injEq] at hf
    subst hf
    exact Or.inr (show (0 : ℤ) + (1 : BitVec 32).toInt < 2 ^ 31 by decide)

/-! ## A write through an object whose file has been removed -/

theorem Created.laidOut {fs fs₁ : FileSystem} {dir : Directory} {map map' : BitMap} {name : Buffer}
    {i k n : ℕ} {hdr : FileHeader} (h : Created fs fs₁ dir map map' name size i k n hdr) :
    ∃ m : ℕ, hdr.numSectors.toInt = m ∧ LaidOut hdr m ∧ (m : ℤ) = (size + 127) / 128 := by
  have hused : ((dir.setEntry i (newEntry dir i name k)).table i).inUse = true := by
    rw [table_setEntry_self]
    rfl
  obtain ⟨m, hm, hlaid⟩ := h.inv.entry_laidOut h.lt hused
  have hsize := (h.inv.sized i h.lt hused).sectors
  rw [h.headerAt_entry] at hm hlaid hsize
  rw [hm, h.bytes] at hsize
  exact ⟨m, hm, hlaid, hsize⟩

theorem isNamed_newEntry_of_differs {directory' : Directory} {name name' : Buffer} {sector : ℤ}
    (hentry : directory.table i = newEntry directory' i name sector)
    (hdiffers : strncmpEq name' name fileNameMaxLen = false) :
    directory.isNamed name' i = false := by
  rw [Bool.eq_false_iff]
  intro hnamed
  rw [isNamed_iff, hentry] at hnamed
  rw [strncmpEq_trans (strncmpEq_symm hnamed.2)
    (strncmpEq_newEntry_self directory' i name sector)] at hdiffers
  cases hdiffers

theorem Created.reuse {fs₀ fs₁ fs₂ fs₃ : FileSystem} {dir dir' : Directory}
    {map map₁ map' map₂ : BitMap} {name name' : Buffer} {i k n i' k' n' : ℕ} {hdr hdr' : FileHeader}
    (h : Created fs₀ fs₁ dir map map₁ name size i k n hdr)
    (h' : Created fs₂ fs₃ dir' map' map₂ name' size i' k' n' hdr')
    (hbits : map'.numBits = map.numBits) (hmarked : markedSet map' = markedSet map) :
    k' = k ∧ dataList hdr' = dataList hdr := by
  have hn : n' = n := by
    have hcount := h.count
    have hcount' := h'.count
    omega
  subst hn
  obtain ⟨c, hmany⟩ := findMany_congr (n' + 1) hbits hmarked h.room h.sectors
  rw [h'.sectors, Option.some.injEq, Prod.mk.injEq, List.cons.injEq] at hmany
  exact ⟨by exact_mod_cast hmany.1.1, hmany.1.2⟩

/-- SOURCE: filesys/filesys.cc:294-325, filesys/openfile.cc:30-44 — `a` is created, opened and
removed, and `b` is created: a byte written through the object of `a` changes the data of `b`. -/
theorem removed_file_overwrites_new_file :
    ∃ fs s src, FileSystem.formatDisk (fun _ _ => 0#8) (blank 0).fresh ⟨0, 0, fun _ => 0⟩ = some fs ∧
      run HandleState.step (.start fs) [.create (blank 0) "a" 1, .open (blank 0) "a",
        .remove (blank 0) "a", .create (blank 0) "b" 1] = some s ∧
      ¬ WriteContained s (.writeAt (blank 0) 0 src 1 0) := by
  obtain ⟨fs, dir₀, map₀, hformat, hinv₀, hunused, hcard⟩ :=
    formatDisk_inv (fun _ _ => 0#8) (blank 0).fresh ⟨0, 0, fun _ => 0⟩
  obtain ⟨fs₁, dirA, mapA, mapA', i, k, n, hdr, hcreateA, hinvA, hA⟩ :=
    (hinv₀.volume_nil hunused).created "a" (show (0 : ℤ) ≤ 1 by decide) (by decide)
      (blank 0).fresh (by simp) (by decide) (by rw [hcard]; decide)
  obtain ⟨fs₂, dirR, mapR, hremove, hinvR, hmarkedR, hinUse⟩ := hA.remove (blank 0).fresh
  have hunusedR : ∀ j < numDirEntries, (dirR.table j).inUse = false := by
    intro j hj
    rw [hinUse j hj, hinv₀.table_eq hinvA hj, hunused j hj]
  have hcardR : (clearSet mapR).card = 1019 := by
    rw [clearSet_eq_of_markedSet_eq (hinvR.bits.trans hinvA.bits.symm) hmarkedR,
      hinv₀.clearSet_eq hinvA, hcard]
  obtain ⟨fs₃, dirB, mapB, mapB', i', k', n', hdr', hcreateB, hinvB, hB⟩ :=
    (hinvR.volume_nil hunusedR).created "b" (show (0 : ℤ) ≤ 1 by decide) (by decide)
      (blank 0).fresh (by simp) (by decide) (by rw [hcardR]; decide)
  obtain ⟨-, hdata⟩ := hA.reuse hB (hinvB.bits.trans hinvA.bits.symm)
    ((hinvR.markedSet_eq hinvB).trans hmarkedR)
  obtain ⟨m, hm, hlaid, hsize⟩ := hA.laidOut
  -- the object of `a` has the header that was on the disk when it was opened
  have hrun : ∃ s, run HandleState.step (.start fs) [.create (blank 0) "a" 1, .open (blank 0) "a",
        .remove (blank 0) "a", .create (blank 0) "b" 1] = some s ∧ s.disk.fs = fs₃ ∧
      s.disk.objects 0 = some ⟨hdr, 0, 0⟩ ∧ s.openedAs 0 = "a" := by
    have hopen := hA.openFile (blank 0)
    simp only [run, HandleState.step, HandleState.start, DiskFileSystem.create,
      DiskFileSystem.remove, hcreateA, hopen, hremove, hcreateB, Option.map_some]
    exact ⟨_, rfl, rfl, rfl, rfl⟩
  obtain ⟨s, hrun, hfs, hobject, hname⟩ := hrun
  obtain ⟨src, d', hwrite, hchanged⟩ := LaidOut.writeAt_changes (f := ⟨hdr, 0, 0⟩) hlaid
    hA.bytes s.disk.fs.disk (blank 0).buf
  refine ⟨fs, s, src, hformat, hrun, fun hcontained => hchanged ?_⟩
  have hstep := step_writeAt_of_object (blank 0) 1 0 hobject hwrite
  obtain ⟨dir, hfetch, hdir⟩ := hB.inv.fetchDirectory (blank 0).fresh
  have hentry : dir.table i' = newEntry dirB i' (cString "b") k' := by
    rw [hB.inv.table_eq hdir hB.lt, table_setEntry_self]
  have hother : dir.isNamed (cString (s.openedAs 0)) i' = false := by
    rw [hname]
    exact isNamed_newEntry_of_differs hentry (by decide)
  have hmem : dataSector hdr 0 ∈ entrySectors s.disk.fs.disk (dir.table i') := by
    unfold entrySectors
    rw [hentry, hB.sector, hfs, hB.header]
    have hdata0 : dataSector hdr 0 ∈ dataList hdr' := by
      rw [hdata]
      exact mem_dataList hm (by omega)
    exact List.mem_cons_of_mem _ hdata0
  obtain ⟨s', hstep', hkept⟩ := hcontained 0 _ rfl hobject
  rw [hstep, Option.some.injEq] at hstep'
  subst hstep'
  have hsector : d' (dataSector hdr 0).toNat = s.disk.fs.disk (dataSector hdr 0).toNat :=
    (hkept (blank 0).fresh dir (hfs ▸ hfetch)).2 i' hB.lt (by rw [hentry]; rfl) hother _ hmem
  exact congrFun hsector _

end Nachos.Analysis
