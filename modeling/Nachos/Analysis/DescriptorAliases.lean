import Nachos.Analysis.FileCallCases
import Nachos.Analysis.FileLookup
import Nachos.Model.DescriptorTable

/-!
# Who refers to an `OpenFile` in the FILESYS build

`FileSystem::Open` puts the object it makes into the first entry from 2 on that is `NULL`, and
returns it as well. Its callers go on as if it had not: the constructor stores the object for
`stdin` into entry 0 too, `SC_Open` into the first entry of all that is `NULL`, and `SC_Exec`
deletes the object and leaves the entry.

So the table is sound, with no two entries on one object and no entry on a deleted one, as long
as it is empty, and the first `Open` that finds its name ends that: in the constructor, where
the names are `stdin` and `stdout`, or later.
-/

set_option autoImplicit false

namespace Nachos.Analysis

open Nachos.Library Nachos.Model

variable {s s' : DiskFileSystem} {name : String} {env : DiskAnswer} {free i : ℕ} {ok : Bool}
  {directory : Directory} {freeMap : BitMap} {r : Option ℕ} {fs : FileSystem}
  {files : List (String × ℤ)}

/-! ## Descriptors and files -/

/-- No two entries refer to the same object, and none to a deleted one. -/
structure TableSound (s : DiskFileSystem) : Prop where
  apart : ∀ i < numDescriptors, ∀ j < numDescriptors, i ≠ j → ∀ p, s.file i = some p →
    s.file j ≠ some p
  live : ∀ i < numDescriptors, ∀ p, s.file i = some p → s.objects p ≠ none

/-- A lookup in the directory, with what its new memory holds, finds the name. -/
def Listed (fs : FileSystem) (fresh : Fresh) (name : String) : Prop :=
  ∃ directory, fs.fetchDirectory fresh = some directory ∧ 0 ≤ directory.find (cString name)

/-- An `Open` that comes to look a name up, and an `Exec`, does not find it. -/
def NothingFound (s : FileCallState DiskFileSystem) : FileCall DiskAnswer → Prop
  | .open env name type => LooksUp name type → ¬ Listed s.fs.fs env.fresh name
  | .exec env _ name _ => ¬ Listed s.fs.fs env.fresh name
  | _ => True

/-! ## `Open` -/

/-- The file system with a new object at `p`, which entry `i` refers to. -/
def diskOpened (s : DiskFileSystem) (i p : ℕ) (f : OpenFile) : DiskFileSystem :=
  { s with
    objects := Function.update s.objects p (some f)
    file := Function.update s.file i (some p) }

@[simp] theorem diskOpened_objects_self (s : DiskFileSystem) (i p : ℕ) (f : OpenFile) :
    (diskOpened s i p f).objects p = some f := by
  simp [diskOpened]

@[simp] theorem diskOpened_file_self (s : DiskFileSystem) (i p : ℕ) (f : OpenFile) :
    (diskOpened s i p f).file i = some p := by
  simp [diskOpened]

theorem disk_open_unlisted (h : s.openFile env name = some (r, s'))
    (hnot : ¬ Listed s.fs env.fresh name) : r = none ∧ s' = s := by
  simp only [DiskFileSystem.openFile, Option.bind_eq_bind, Option.bind_eq_some_iff] at h
  obtain ⟨directory, hfetch, h⟩ := h
  have hneg : ¬ directory.find (cString name) ≥ 0 := fun hge => hnot ⟨directory, hfetch, hge⟩
  rw [if_neg hneg, Option.pure_def, Option.some.injEq, Prod.mk.injEq] at h
  exact ⟨h.1.symm, h.2.symm⟩

/-- INTERNAL: `Open` changes nothing, or makes one object of type 0 and stores it. -/
theorem disk_open_cases (h : s.openFile env name = some (r, s')) :
    (r = none ∧ s' = s) ∨ ∃ i f, r = some env.addr ∧ s.freeEntry = some i ∧
      s.objects env.addr = none ∧ f.type = 0 ∧ s' = diskOpened s i env.addr f := by
  simp only [DiskFileSystem.openFile, Option.bind_eq_bind, Option.bind_eq_some_iff] at h
  obtain ⟨directory, hfetch, h⟩ := h
  by_cases hge : directory.find (cString name) ≥ 0
  · rw [if_pos hge] at h
    cases hfree : s.freeEntry with
    | none =>
      rw [hfree] at h
      simp only [Option.pure_def, Option.some.injEq, Prod.mk.injEq] at h
      exact Or.inl ⟨h.1.symm, h.2.symm⟩
    | some i =>
      rw [hfree] at h
      simp only [Option.bind_eq_some_iff, Option.ite_none_right_eq_some, Option.pure_def,
        Option.some.injEq, Prod.mk.injEq] at h
      obtain ⟨f, hnew, haddr, hr, hs'⟩ := h
      have htype : f.type = 0 := by
        unfold OpenFile.new at hnew
        obtain ⟨hdr, -, hf⟩ := Option.map_eq_some_iff.mp hnew
        rw [← hf]
      exact Or.inr ⟨i, f, hr.symm, rfl, haddr, htype, hs'.symm⟩
  · rw [if_neg hge, Option.pure_def, Option.some.injEq, Prod.mk.injEq] at h
    exact Or.inl ⟨h.1.symm, h.2.symm⟩

theorem disk_open_listed (h : s.openFile env name = some (r, s'))
    (hlisted : Listed s.fs env.fresh name) (hfree : s.freeEntry = some i) :
    ∃ p f, r = some p ∧ s' = diskOpened s i p f := by
  obtain ⟨directory, hfetch, hge⟩ := hlisted
  simp only [DiskFileSystem.openFile, hfetch, hfree, Option.bind_eq_bind, Option.bind_some] at h
  rw [if_pos hge] at h
  simp only [Option.bind_eq_some_iff, Option.ite_none_right_eq_some, Option.pure_def,
    Option.some.injEq, Prod.mk.injEq] at h
  obtain ⟨f, -, -, hr, hs'⟩ := h
  exact ⟨env.addr, f, hr.symm, hs'.symm⟩

theorem freeEntry_of_null (h : s.file 2 = none) : s.freeEntry = some 2 := by
  simp [DiskFileSystem.freeEntry, List.range', h]

theorem freeEntry_spec (h : s.freeEntry = some i) : 2 ≤ i ∧ i ≤ 9 ∧ s.file i = none := by
  have hmem := List.mem_of_find?_eq_some h
  have hnone := List.find?_some h
  rw [List.mem_range'_1] at hmem
  exact ⟨hmem.1, by omega, Option.isNone_iff_eq_none.mp hnone⟩

theorem disk_create_spec {n : ℤ} (h : DiskFileSystem.build.create s env name n = some (ok, s')) :
    s.fs.create (cString name) n env.fresh = some (ok, s'.fs) ∧ s'.file = s.file ∧
      s'.objects = s.objects := by
  obtain ⟨⟨ok', fs'⟩, hcreate, heq⟩ := Option.map_eq_some_iff.mp h
  rw [Prod.mk.injEq] at heq
  obtain ⟨hok, hs'⟩ := heq
  subst hok hs'
  exact ⟨hcreate, rfl, rfl⟩

theorem disk_delete_spec {p : ℕ} (h : s.delete p = some s') :
    s' = { s with objects := Function.update s.objects p none } := by
  obtain ⟨f, -, hs'⟩ := Option.map_eq_some_iff.mp h
  exact hs'.symm

/-! ## The probes of `Exec` -/

theorem disk_probe_listed (h : DiskFileSystem.build.probe s env name = some (ok, s'))
    (hlisted : Listed s.fs env.fresh name) (hfree : s.freeEntry = some i) :
    ok = true ∧ ∃ p, s'.file i = some p ∧ s'.objects p = none := by
  obtain ⟨-, hopen⟩ | ⟨q, t, hok, hopen, hdel⟩ := probe_cases h
  · obtain ⟨p, f, hr, -⟩ := disk_open_listed hopen hlisted hfree
    cases hr
  · obtain ⟨p, f, hr, ht⟩ := disk_open_listed hopen hlisted hfree
    cases hr
    rw [disk_delete_spec hdel, ht]
    exact ⟨hok, q, by simp, by simp⟩

/-- INTERNAL: a probe never makes an entry refer to another object, nor a deleted object live. -/
theorem disk_probe_keeps (h : DiskFileSystem.build.probe s env name = some (ok, s')) {i p : ℕ}
    (hi : s.file i = some p) (hp : s.objects p = none) :
    s'.file i = some p ∧ s'.objects p = none := by
  obtain ⟨-, hopen⟩ | ⟨q, t, -, hopen, hdel⟩ := probe_cases h
  · obtain ⟨-, ht⟩ | ⟨j, f, hr, -⟩ := disk_open_cases hopen
    · rw [ht]
      exact ⟨hi, hp⟩
    · cases hr
  · obtain ⟨hr, -⟩ | ⟨j, f, hr, hj, -, -, ht⟩ := disk_open_cases hopen
    · cases hr
    · cases hr
      have hne : i ≠ j := by
        rintro rfl
        rw [(freeEntry_spec hj).2.2] at hi
        cases hi
      rw [disk_delete_spec hdel, ht]
      refine ⟨by simp [diskOpened, hne, hi], ?_⟩
      by_cases hpq : p = env.addr
      · simp [hpq]
      · simp [diskOpened, hpq, hp]

theorem disk_probe_unlisted (h : DiskFileSystem.build.probe s env name = some (ok, s'))
    (hnot : ¬ Listed s.fs env.fresh name) : ok = false ∧ s' = s := by
  obtain ⟨hok, hopen⟩ | ⟨q, t, -, hopen, -⟩ := probe_cases h
  · exact ⟨hok, (disk_open_unlisted hopen hnot).2⟩
  · cases (disk_open_unlisted hopen hnot).1

theorem disk_exec_dangling {env env' : DiskAnswer} {pid r : ℤ}
    (h : DiskFileSystem.build.scExec s env env' name pid = some (r, s'))
    (hlisted : Listed s.fs env.fresh name) (hnull : s.file 2 = none) :
    ∃ p, s'.file 2 = some p ∧ s'.objects p = none := by
  have hfree := freeEntry_of_null hnull
  obtain ⟨-, hprobe⟩ | ⟨t, ok, h₁, h₂⟩ := scExec_cases h
  · cases (disk_probe_listed hprobe hlisted hfree).1
  · obtain ⟨-, p, hp, hdead⟩ := disk_probe_listed h₁ hlisted hfree
    exact ⟨p, disk_probe_keeps h₂ hp hdead⟩

/-! ## The empty table -/

/-- Nothing is open. -/
structure NothingOpen (s : FileCallState DiskFileSystem) : Prop where
  file : ∀ i, s.fs.file i = none
  children : s.children = []
  loading : s.loading = []

theorem NothingOpen.sound {s : FileCallState DiskFileSystem} (h : NothingOpen s) :
    TableSound s.fs := by
  constructor
  · intro i _ j _ _ p hp
    rw [h.file] at hp
    cases hp
  · intro i _ p hp
    rw [h.file] at hp
    cases hp

theorem NothingOpen.freeIndex {s : FileCallState DiskFileSystem} (h : NothingOpen s) :
    DiskFileSystem.build.freeIndex s.fs = some 0 := by
  have h0 : DiskFileSystem.build.file s.fs 0 = none := h.file 0
  simp [FileBuild.freeIndex, numDescriptors, List.range, List.range.loop, h0]

/-- INTERNAL: `SC_Open` on an empty table: nothing happens, or the object is in entries 2
and 0. -/
theorem NothingOpen.scOpen {s : FileCallState DiskFileSystem} {fs' : DiskFileSystem}
    (h : NothingOpen s) {type r : ℤ}
    (hcall : DiskFileSystem.build.scOpen s.fs env name type = some (r, fs')) :
    (NothingFound s (.open env name type) ∧ fs'.file = s.fs.file) ∨
      (¬ NothingFound s (.open env name type) ∧
        ∃ p, fs'.file 0 = some p ∧ fs'.file 2 = some p) := by
  obtain ⟨hfs, -, hlooks⟩ | ⟨i, q, t, hlooks, hfree, hopen, -, hfs⟩ := scOpen_cases hcall
  · refine Or.inl ⟨fun hl => ?_, by rw [hfs]⟩
    rw [h.freeIndex] at hlooks
    cases hlooks hl
  rw [h.freeIndex] at hfree
  cases hfree
  by_cases hlisted : Listed s.fs.fs env.fresh name
  · right
    obtain ⟨p, f, hq, ht⟩ := disk_open_listed hopen hlisted (freeEntry_of_null (h.file 2))
    refine ⟨fun hnot => hnot hlooks hlisted, p, ?_, ?_⟩
    · simp [hfs, hq, DiskFileSystem.build]
    · simp [hfs, hq, ht, DiskFileSystem.build, diskOpened]
  · left
    obtain ⟨hq, ht⟩ := disk_open_unlisted hopen hlisted
    refine ⟨fun _ => hlisted, ?_⟩
    have hsame : Function.update s.fs.file 0 none = s.fs.file := by
      rw [← h.file 0, Function.update_eq_self]
    rw [hfs, hq, ht]
    exact hsame

/-- INTERNAL: a call that finds nothing leaves the table empty. -/
theorem NothingOpen.step {s s' : FileCallState DiskFileSystem} (h : NothingOpen s)
    {e : FileCall DiskAnswer} (hc : NothingFound s e)
    (hstep : DiskFileSystem.build.step s e = some s') : NothingOpen s' := by
  simp only [FileBuild.step, Option.map_eq_some_iff, Prod.exists] at hstep
  obtain ⟨r, t, hcall, ht⟩ := hstep
  subst ht
  cases e with
  | createFile env name =>
    simp only [FileBuild.call, Option.map_eq_some_iff, Prod.mk.injEq, Prod.exists] at hcall
    obtain ⟨r', fs', hcreate, -, hs'⟩ := hcall
    subst hs'
    refine ⟨fun i => ?_, h.children, h.loading⟩
    obtain hfs | ⟨ok, hcreate⟩ := createFile_cases hcreate
    · rw [hfs]
      exact h.file i
    · rw [(disk_create_spec hcreate).2.1]
      exact h.file i
  | «open» env name type =>
    simp only [FileBuild.call, Option.map_eq_some_iff, Prod.mk.injEq, Prod.exists] at hcall
    obtain ⟨r', fs', hopen, -, hs'⟩ := hcall
    subst hs'
    obtain ⟨-, hfile⟩ | ⟨hnot, -⟩ := h.scOpen hopen
    · exact ⟨fun i => by rw [hfile]; exact h.file i, h.children, h.loading⟩
    · exact absurd hc hnot
  | close id =>
    have hnone : DiskFileSystem.build.file s.fs id.toNat = none := h.file _
    simp only [FileBuild.call, FileBuild.scClose, hnone, ite_self, Option.map_some,
      Option.some.injEq, Prod.mk.injEq] at hcall
    rw [← hcall.2]
    exact ⟨h.file, h.children, h.loading⟩
  | read env id charcount buff console =>
    have hnone : DiskFileSystem.build.file s.fs id.toNat = none := h.file _
    simp only [FileBuild.call, FileBuild.scRead, hnone, ite_self, Option.map_some,
      Option.some.injEq, Prod.mk.injEq] at hcall
    rw [← hcall.2]
    exact ⟨h.file, h.children, h.loading⟩
  | write env id charcount buff =>
    have hnone : DiskFileSystem.build.file s.fs id.toNat = none := h.file _
    simp only [FileBuild.call, FileBuild.scWrite, hnone, ite_self, Option.map_some,
      Option.some.injEq, Prod.mk.injEq] at hcall
    rw [← hcall.2]
    exact ⟨h.file, h.children, h.loading⟩
  | exec env env' name pid =>
    simp only [FileBuild.call, FileBuild.scExec] at hcall
    cases hprobe : DiskFileSystem.build.probe s.fs env name with
    | none => simp [hprobe] at hcall
    | some a =>
      obtain ⟨ok, t⟩ := a
      obtain ⟨hok, ht⟩ := disk_probe_unlisted hprobe hc
      subst hok ht
      simp only [hprobe, Option.map_some, Option.some.injEq, Prod.mk.injEq, if_true] at hcall
      rw [← hcall.2]
      exact ⟨h.file, h.children, h.loading⟩
  | loadOpen env name =>
    simp [FileBuild.call, h.children] at hcall
  | loadClose p =>
    simp [FileBuild.call, h.loading] at hcall

/-- INTERNAL: a call that finds a name leaves a table that is not sound. -/
theorem NothingOpen.unsound {s s' : FileCallState DiskFileSystem} (h : NothingOpen s)
    {e : FileCall DiskAnswer} (hc : ¬ NothingFound s e)
    (hstep : DiskFileSystem.build.step s e = some s') : ¬ TableSound s'.fs := by
  intro hsound
  simp only [FileBuild.step, Option.map_eq_some_iff, Prod.exists] at hstep
  obtain ⟨r, t, hcall, ht⟩ := hstep
  subst ht
  cases e with
  | «open» env name type =>
    simp only [FileBuild.call, Option.map_eq_some_iff, Prod.mk.injEq, Prod.exists] at hcall
    obtain ⟨r', fs', hopen, -, hs'⟩ := hcall
    subst hs'
    obtain ⟨hfound, -⟩ | ⟨-, p, h0, h2⟩ := h.scOpen hopen
    · exact hc hfound
    · exact hsound.apart 0 (by decide) 2 (by decide) (by decide) p h0 h2
  | exec env env' name pid =>
    simp only [FileBuild.call, Option.map_eq_some_iff, Prod.mk.injEq, Prod.exists] at hcall
    obtain ⟨r', fs', hexec, -, hs'⟩ := hcall
    subst hs'
    have hlisted : Listed s.fs.fs env.fresh name := Classical.not_not.mp hc
    obtain ⟨p, hp, hdead⟩ := disk_exec_dangling hexec hlisted (h.file 2)
    exact hsound.live 2 (by decide) p hp hdead
  | createFile env name => exact hc trivial
  | close id => exact hc trivial
  | read env id charcount buff console => exact hc trivial
  | write env id charcount buff => exact hc trivial
  | loadOpen env name => exact hc trivial
  | loadClose p => exact hc trivial

/-! ## The constructor -/

/-- INTERNAL: the constructor leaves an empty table, or an object that both entry 2 and one of
the console's entries refer to. -/
theorem finish_cases {env₁ env₂ env₃ env₄ : DiskAnswer}
    (h : DiskFileSystem.finish fs env₁ env₂ env₃ env₄ = some s) :
    ((¬ Listed s.fs env₃.fresh "stdin" ∧ ¬ Listed s.fs env₄.fresh "stdout") ∧
        ∀ i, s.file i = none) ∨
      (¬ (¬ Listed s.fs env₃.fresh "stdin" ∧ ¬ Listed s.fs env₄.fresh "stdout") ∧
        ∃ i < 2, ∃ p, s.file i = some p ∧ s.file 2 = some p) := by
  simp only [DiskFileSystem.finish, DiskFileSystem.openFileType, Option.bind_eq_bind,
    Option.bind_eq_some_iff, Option.pure_def, Option.some.injEq, Prod.exists] at h
  obtain ⟨ok₁, s₁, h₁, ok₂, s₂, h₂, q, s₃, h₃, q', s₄, h₄, hs⟩ := h
  obtain ⟨-, hfile₁, -⟩ := disk_create_spec h₁
  obtain ⟨-, hfile₂, -⟩ := disk_create_spec h₂
  have hfile : ∀ i, s₂.file i = none := fun i => by rw [hfile₂, hfile₁]
  by_cases hin : Listed s₂.fs env₃.fresh "stdin"
  · -- entry 2 is taken for good
    right
    obtain ⟨p, f, hq, hs₃⟩ := disk_open_listed h₃ hin (freeEntry_of_null (hfile 2))
    have hkept : s₄.file 0 = some p ∧ s₄.file 2 = some p ∧ s₄.fs = s₂.fs := by
      obtain ⟨-, hs₄⟩ | ⟨j, f', -, hj, -, -, hs₄⟩ := disk_open_cases h₄
      · simp [hs₄, hs₃, hq, diskOpened]
      · obtain ⟨hlow, -, hnone⟩ := freeEntry_spec hj
        have hj2 : (2 : ℕ) ≠ j := by
          rintro rfl
          simp [hs₃, diskOpened] at hnone
        have hj0 : (0 : ℕ) ≠ j := by omega
        simp [hs₄, hs₃, hq, diskOpened, hj2, hj0]
    refine ⟨fun hnot => hnot.1 ?_, 0, by decide, p, ?_, ?_⟩
    · rw [← hs, hkept.2.2]
      exact hin
    · simpa [← hs] using hkept.1
    · simpa [← hs] using hkept.2.1
  · obtain ⟨hq, hs₃⟩ := disk_open_unlisted h₃ hin
    have hsame : Function.update s₃.file 0 q = s₂.file := by
      rw [hq, hs₃, Function.update_eq_self_iff.mpr (hfile 0).symm]
    by_cases hout : Listed s₂.fs env₄.fresh "stdout"
    · right
      have hlisted : Listed s₃.fs env₄.fresh "stdout" := by
        rw [hs₃]
        exact hout
      have hnull : Function.update s₃.file 0 q 2 = none := by
        rw [hsame, hfile]
      obtain ⟨p, f, hq', hs₄⟩ := disk_open_listed h₄ hlisted (freeEntry_of_null hnull)
      refine ⟨fun hnot => hnot.2 ?_, 1, by decide, p, ?_, ?_⟩
      · rw [← hs, hs₄]
        exact hlisted
      · simp [← hs, hq']
      · simp [← hs, hs₄, diskOpened]
    · left
      have hunlisted : ¬ Listed s₃.fs env₄.fresh "stdout" := by
        rw [hs₃]
        exact hout
      obtain ⟨hq', hs₄⟩ := disk_open_unlisted h₄ hunlisted
      have hfs : s.fs = s₂.fs := by
        rw [← hs, hs₄, hs₃]
      have hs' : s.file = Function.update (Function.update s₃.file 0 q) 1 none := by
        rw [← hs, hs₄, hq']
      refine ⟨?_, fun i => ?_⟩
      · rw [hfs]
        exact ⟨hin, hout⟩
      rw [hs']
      rw [hsame, Function.update_eq_self_iff.mpr (hfile 1).symm, hfile]

theorem finish_of_new {format : Bool} {d : DiskImage} {fresh : Fresh} {dirHdr : FileHeader}
    {env₁ env₂ env₃ env₄ : DiskAnswer}
    (hnew : DiskFileSystem.new format d fresh dirHdr env₁ env₂ env₃ env₄ = some s) :
    ∃ fs, DiskFileSystem.finish fs env₁ env₂ env₃ env₄ = some s := by
  unfold DiskFileSystem.new at hnew
  split_ifs at hnew
  all_goals
    rw [Option.bind_eq_bind, Option.bind_eq_some_iff] at hnew
    obtain ⟨fs, -, hfinish⟩ := hnew
    exact ⟨fs, hfinish⟩

/-! ## The main result -/

/-- SOURCE: filesys/filesys.cc:143-154, 238-278, userprog/exception.cc:184-267, 353-383,
threads/ptable.cc:28-34 — after the constructor, on a disk that holds anything, and along any run
of system calls, no two entries of the table refer to the same object and none refers to a
deleted one exactly when neither `stdin` nor `stdout` is found by the constructor and no `Open`
or `Exec` of the run finds its name. -/
theorem table_sound_iff_nothing_found (format : Bool) (d : DiskImage) (fresh : Fresh)
    (dirHdr : FileHeader) (env₁ env₂ env₃ env₄ : DiskAnswer) (s : DiskFileSystem)
    (hnew : DiskFileSystem.new format d fresh dirHdr env₁ env₂ env₃ env₄ = some s)
    (es : List (FileCall DiskAnswer)) :
    Always DiskFileSystem.build.step (fun s => TableSound s.fs) (.start s) es ↔
      (¬ Listed s.fs env₃.fresh "stdin" ∧ ¬ Listed s.fs env₄.fresh "stdout") ∧
        Meets DiskFileSystem.build.step NothingFound (.start s) es := by
  obtain ⟨fs, hfinish⟩ := finish_of_new hnew
  obtain ⟨hnot, hfile⟩ | ⟨hnot, i, hi, p, hp, hp2⟩ := finish_cases hfinish
  · have hopen : NothingOpen (.start s) := ⟨hfile, rfl, rfl⟩
    have hiff : Always DiskFileSystem.build.step (fun s => TableSound s.fs) (.start s) es ↔
        Meets DiskFileSystem.build.step NothingFound (.start s) es :=
      always_iff_meets (fun _ h => h.sound) (fun _ _ _ h hc hs => h.step hc hs)
        (fun _ _ _ h hc hs => h.unsound hc hs) hopen es
    rw [hiff]
    exact ⟨fun hmeets => ⟨hnot, hmeets⟩, fun h => h.2⟩
  · constructor
    · intro halways
      have hlt : i < numDescriptors := by
        unfold numDescriptors
        omega
      exact absurd hp2 (halways.head.apart i hlt 2 (by decide) (by omega) p hp)
    · intro h
      exact absurd h.1 hnot

/-! ## A new disk -/

/-- INTERNAL: a file of the directory is opened. -/
theorem FsInv.disk_openFile (h : FsInv s.fs directory freeMap) (env : DiskAnswer) {i j : ℕ}
    (hidx : directory.findIndex (cString name) = some j) (hfree : s.freeEntry = some i)
    (haddr : s.objects env.addr = none) :
    s.openFile env name = some (some env.addr, diskOpened s i env.addr
      ⟨headerAt s.fs.disk (directory.table j).sector.toInt, 0, 0⟩) := by
  obtain ⟨dir, hfetch, hdir⟩ := h.fetchDirectory env.fresh
  have hidx' : dir.findIndex (cString name) = some j := by
    rw [h.findIndex_eq hdir, hidx]
  obtain ⟨hj, -, hfind, hvalid⟩ := hdir.found hidx'
  rw [h.table_eq hdir hj] at hfind hvalid
  have hge : dir.find (cString name) ≥ 0 := by
    rw [hfind]
    exact hvalid.1
  have hnew : OpenFile.new s.fs.disk (dir.find (cString name)) 0 =
      some ⟨headerAt s.fs.disk (directory.table j).sector.toInt, 0, 0⟩ := by
    unfold OpenFile.new FileHeader.fetchFrom DiskImage.readSector
    rw [hfind, if_pos hvalid]
    rfl
  simp only [DiskFileSystem.openFile, hfetch, Option.bind_eq_bind, Option.bind_some]
  rw [if_pos hge, hfree]
  simp only [hnew, Option.bind_some, haddr, if_true]
  rfl

/-- INTERNAL: a disk with files on it is mounted. -/
theorem Volume.mount (h : Volume fs directory freeMap files free) :
    ∃ fs', DiskFileSystem.mount fs.disk = some fs' ∧
      Volume fs' directory freeMap files free := by
  refine ⟨⟨fs.disk, ⟨fs.freeMapFile.hdr, 0, 0⟩, ⟨fs.directoryFile.hdr, 0, 0⟩⟩, ?_, ?_⟩
  · have hmap : OpenFile.new fs.disk freeMapSector 0 = some ⟨headerAt fs.disk freeMapSector, 0, 0⟩ :=
      rfl
    have hdir : OpenFile.new fs.disk directorySector 0 =
        some ⟨headerAt fs.disk directorySector, 0, 0⟩ := rfl
    rw [h.inv.mapHeader] at hmap
    rw [h.inv.dirHeader] at hdir
    simp only [DiskFileSystem.mount, hmap, hdir, Option.bind_eq_bind, Option.bind_some,
      Option.pure_def]
  · have hheld : ∀ o, heldSectors ⟨fs.disk, ⟨fs.freeMapFile.hdr, 0, 0⟩,
        ⟨fs.directoryFile.hdr, 0, 0⟩⟩ directory o = heldSectors fs directory o := by
      intro o
      cases o <;> rfl
    refine ⟨⟨h.inv.bits, h.inv.size, ?_, h.inv.mapHeader, h.inv.dirHeader, h.inv.mapContent,
      h.inv.dirContent, h.inv.owned.congr hheld fun _ => Iff.rfl, h.inv.sized, h.inv.names⟩, h.used,
      h.free, h.listed, h.only⟩
    exact ⟨h.inv.lengths.map, h.inv.lengths.mapSized, h.inv.lengths.dir, h.inv.lengths.dirSized⟩

/-- The table a new disk starts with: the objects of `stdin` and of `stdout`, twice each. -/
def doubledTable (p q : ℕ) : ℕ → Option ℕ
  | 0 => some p
  | 1 => some q
  | 2 => some p
  | 3 => some q
  | _ => none

/-- INTERNAL: the end of the constructor on a disk without `stdin` and `stdout`: both are created
and found. -/
theorem Volume.finish (h : Volume fs directory freeMap files free)
    (env₁ env₂ env₃ env₄ : DiskAnswer) (hne : env₃.addr ≠ env₄.addr)
    (hin : ∀ f ∈ files, strncmpEq (cString "stdin") (cString f.1) fileNameMaxLen = false)
    (hout : ∀ f ∈ files, strncmpEq (cString "stdout") (cString f.1) fileNameMaxLen = false)
    (hentries : files.length + 2 ≤ numDirEntries) (hroom : 2 ≤ free) :
    ∃ s directory' freeMap' f g,
      DiskFileSystem.finish fs env₁ env₂ env₃ env₄ = some s ∧
      Volume s.fs directory' freeMap' (("stdout", 0) :: ("stdin", 0) :: files) (free - 2) ∧
      s.file = doubledTable env₃.addr env₄.addr ∧
      s.objects = Function.update (Function.update (fun _ => none) env₃.addr (some f)) env₄.addr
        (some g) := by
  obtain ⟨fs₁, dir₁, map₁, hcreate₁, hvol₁⟩ :=
    h.create "stdin" le_rfl (by decide) env₁.fresh hin (by omega) (by omega)
  have hout' : ∀ f ∈ ("stdin", (0 : ℤ)) :: files,
      strncmpEq (cString "stdout") (cString f.1) fileNameMaxLen = false := by
    intro f hf
    obtain rfl | hf := List.mem_cons.mp hf
    · decide
    · exact hout f hf
  obtain ⟨fs₂, dir₂, map₂, hcreate₂, hvol₂⟩ :=
    hvol₁.create "stdout" le_rfl (by decide) env₂.fresh hout'
      (by rw [List.length_cons]; omega) (by omega)
  obtain ⟨j, hj, -⟩ := hvol₂.listed ("stdin", 0) (by simp)
  obtain ⟨j', hj', -⟩ := hvol₂.listed ("stdout", 0) (by simp)
  have hopen₃ := FsInv.disk_openFile (s := ⟨fs₂, fun _ => none, fun _ => none⟩) hvol₂.inv
    env₃ (i := 2) hj rfl rfl
  generalize hf : (⟨headerAt fs₂.disk (dir₂.table j).sector.toInt, 0, 0⟩ : OpenFile) = f at hopen₃
  have hfree : DiskFileSystem.freeEntry ⟨fs₂, Function.update (fun _ => none) env₃.addr (some f),
      Function.update (Function.update (fun _ => none) 2 (some env₃.addr)) 0 (some env₃.addr)⟩ =
      some 3 := by
    simp [DiskFileSystem.freeEntry, List.range']
  have hopen₄ := FsInv.disk_openFile (s := ⟨fs₂, Function.update (fun _ => none) env₃.addr (some f),
      Function.update (Function.update (fun _ => none) 2 (some env₃.addr)) 0 (some env₃.addr)⟩)
    hvol₂.inv env₄ hj' hfree (by simp [hne.symm])
  generalize hg : (⟨headerAt fs₂.disk (dir₂.table j').sector.toInt, 0, 0⟩ : OpenFile) = g
    at hopen₄
  have htable : Function.update (Function.update (Function.update (Function.update
      (fun _ => none) 2 (some env₃.addr)) 0 (some env₃.addr)) 3 (some env₄.addr)) 1
      (some env₄.addr) = doubledTable env₃.addr env₄.addr := by
    funext i
    match i with
    | 0 => rfl
    | 1 => rfl
    | 2 => rfl
    | 3 => rfl
    | i + 4 => rfl
  refine ⟨⟨fs₂, Function.update (Function.update (fun _ => none) env₃.addr (some f)) env₄.addr
    (some g), doubledTable env₃.addr env₄.addr⟩, dir₂, map₂, f, g, ?_, ?_, rfl, rfl⟩
  · simp only [DiskFileSystem.finish, DiskFileSystem.create, DiskFileSystem.openFileType, hcreate₁,
      hcreate₂, hopen₃, diskOpened, hopen₄, Option.bind_eq_bind, Option.bind_some,
      Option.map_some, Option.pure_def, htable]
  · have hleft : free - (((0 + 127 : ℤ) / 128).toNat + 1) - (((0 + 127 : ℤ) / 128).toNat + 1) =
        free - 2 := by omega
    rw [← hleft]
    exact hvol₂

theorem new_formatted (d : DiskImage) (fresh : Fresh) (dirHdr : FileHeader)
    (env₁ env₂ env₃ env₄ : DiskAnswer) (hne : env₃.addr ≠ env₄.addr) :
    ∃ s directory freeMap f g,
      DiskFileSystem.new true d fresh dirHdr env₁ env₂ env₃ env₄ = some s ∧
      Volume s.fs directory freeMap [("stdout", 0), ("stdin", 0)] 1017 ∧
      s.file = doubledTable env₃.addr env₄.addr ∧
      s.objects = Function.update (Function.update (fun _ => none) env₃.addr (some f)) env₄.addr
        (some g) := by
  obtain ⟨fs, dir, map, hformat, hvol⟩ := formatDisk_volume d fresh dirHdr
  obtain ⟨s, dir', map', f, g, hfinish, hrest⟩ :=
    hvol.finish env₁ env₂ env₃ env₄ hne (by simp) (by simp) (by decide) (by decide)
  refine ⟨s, dir', map', f, g, ?_, hrest⟩
  simp only [DiskFileSystem.new, if_true, hformat, Option.bind_eq_bind, Option.bind_some, hfinish]

/-- All new memory holds zeros; `new` puts an `OpenFile` at `addr`. -/
def blank (addr : ℕ) : DiskAnswer where
  fresh := ⟨fun _ => ⟨false, 0, fun _ => 0⟩, fun _ => 0, ⟨0, 0, fun _ => 0⟩, fun _ => 0, fun _ => 0⟩
  addr := addr
  buf := fun _ => 0

/-- INTERNAL: `Open` of a file of the disk, with the table the constructor leaves: the object is in
entry 4. -/
theorem Volume.scOpen (h : Volume s.fs directory freeMap files free) {size type : ℤ}
    (hmem : (name, size) ∈ files) (hlooks : LooksUp name type) {p q : ℕ}
    (hfile : s.file = doubledTable p q) (env : DiskAnswer) (hnone : s.objects env.addr = none) :
    ∃ hdr n, hdr.fileLength = size ∧ LaidOut hdr n ∧
      DiskFileSystem.build.scOpen s env name type =
        some (4, diskOpened s 4 env.addr ⟨hdr, 0, 0⟩) := by
  obtain ⟨i, hidx, hbytes⟩ := h.listed (name, size) hmem
  obtain ⟨hi, hnamed, -⟩ := h.inv.found hidx
  obtain ⟨n, -, hlaid⟩ := h.inv.entry_laidOut hi (isNamed_iff.mp hnamed).1
  have hfree : s.freeEntry = some 4 := by
    unfold DiskFileSystem.freeEntry
    rw [hfile]
    rfl
  have hindex : DiskFileSystem.build.freeIndex s = some 4 := by
    unfold FileBuild.freeIndex
    show (List.range numDescriptors).find? (fun i => (s.file i).isNone) = some 4
    rw [hfile]
    rfl
  refine ⟨_, n, hbytes, hlaid, ?_⟩
  have hopen : DiskFileSystem.build.openFileType s env name type = some (some env.addr, diskOpened s 4
      env.addr ⟨headerAt s.fs.disk (directory.table i).sector.toInt, 0, 0⟩) :=
    h.inv.disk_openFile env hidx hfree hnone
  have hagain : ∀ f, DiskFileSystem.build.setFile (diskOpened s 4 env.addr f) 4 (some env.addr) =
      diskOpened s 4 env.addr f := fun f => by simp [DiskFileSystem.build, diskOpened]
  obtain ⟨htype, hin, hout⟩ := hlooks
  unfold FileBuild.scOpen
  rw [if_neg (by omega), if_neg hin, if_neg hout]
  simp only [hindex, hopen, hagain, Option.isSome_some, if_true]
  rfl

/-- The constructor formats a blank disk, and a file is created and opened. -/
theorem table_sound_iff_file_opened :
    ∃ s, DiskFileSystem.new true (fun _ _ => 0#8) (blank 0).fresh ⟨0, 0, fun _ => 0⟩ (blank 0)
        (blank 0) (blank 100) (blank 101) = some s ∧
      (Always DiskFileSystem.build.step (fun s => TableSound s.fs) (.start s)
          [.createFile (blank 0) "a", .open (blank 102) "a" 0] ↔
        (¬ Listed s.fs (blank 100).fresh "stdin" ∧ ¬ Listed s.fs (blank 101).fresh "stdout") ∧
          Meets DiskFileSystem.build.step NothingFound (.start s)
            [.createFile (blank 0) "a", .open (blank 102) "a" 0]) ∧
      ∃ s', run DiskFileSystem.build.step (.start s)
        [.createFile (blank 0) "a", .open (blank 102) "a" 0] = some s' ∧ s'.fs.file 4 = some 102 := by
  obtain ⟨s, dir, map, f, g, hnew, hvol, hfile, hobj⟩ := new_formatted (fun _ _ => 0#8)
    (blank 0).fresh ⟨0, 0, fun _ => 0⟩ (blank 0) (blank 0) (blank 100) (blank 101) (by decide)
  refine ⟨s, hnew, table_sound_iff_nothing_found true _ _ _ _ _ _ _ s hnew _, ?_⟩
  obtain ⟨fs₁, dir₁, map₁, hcreate, hvol₁⟩ := hvol.create "a" le_rfl (by decide) (blank 0).fresh
    (by decide) (by decide) (by decide)
  have hnone : s.objects 102 = none := by
    rw [hobj]
    rfl
  obtain ⟨hdr, n, -, -, hopen⟩ := Volume.scOpen (s := { s with fs := fs₁ }) hvol₁
    List.mem_cons_self (⟨by decide, by decide, by decide⟩ : LooksUp "a" 0) hfile (blank 102) hnone
  have hcreateFile : DiskFileSystem.build.createFile s (blank 0) "a" =
      some (0, { s with fs := fs₁ }) := by
    simp [FileBuild.createFile, DiskFileSystem.build, DiskFileSystem.create, hcreate]
  simp only [run, FileBuild.step, FileBuild.call, FileCallState.start, hcreateFile, hopen,
    Option.map_some]
  exact ⟨_, rfl, diskOpened_file_self _ _ _ _⟩

/-- SOURCE: filesys/filesys.cc:143-154, 259-278 — on a disk it has formatted the constructor
itself makes entries 0 and 2 refer to one object, and `Close(2)` then deletes the object that
entry 0 refers to. -/
theorem stdin_is_descriptor_two :
    ∃ s s', DiskFileSystem.new true (fun _ _ => 0#8) (blank 0).fresh ⟨0, 0, fun _ => 0⟩ (blank 0)
        (blank 0) (blank 100) (blank 101) = some s ∧
      (s.file 0 = some 100 ∧ s.file 2 = some 100) ∧
      DiskFileSystem.build.call (.start s) (.close 2) = some (0, s') ∧
      s'.fs.file 0 = some 100 ∧ s'.fs.objects 100 = none := by
  obtain ⟨s, -, -, f, g, hnew, -, hfile, hobj⟩ := new_formatted (fun _ _ => 0#8) (blank 0).fresh
    ⟨0, 0, fun _ => 0⟩ (blank 0) (blank 0) (blank 100) (blank 101) (by decide)
  have h0 : s.file 0 = some 100 := by
    rw [hfile]
    rfl
  have h2 : s.file 2 = some 100 := by
    rw [hfile]
    rfl
  have hlive : s.objects 100 = some f := by
    rw [hobj]
    rfl
  have hclose : DiskFileSystem.build.scClose s 2 = some (0, { s with
      objects := Function.update s.objects 100 none
      file := Function.update s.file 2 none }) := by
    have hentry : DiskFileSystem.build.file s (2 : ℤ).toNat = some 100 := h2
    have hdel : DiskFileSystem.build.delete s 100 =
        some { s with objects := Function.update s.objects 100 none } := by
      simp [DiskFileSystem.build, DiskFileSystem.delete, hlive]
    unfold FileBuild.scClose
    rw [if_neg (by decide), hentry]
    simp only [hdel, Option.map_some]
    rfl
  have hcall : DiskFileSystem.build.call (.start s) (.close 2) =
      (DiskFileSystem.build.scClose s 2).map fun r => (r.1, { FileCallState.start s with
        fs := r.2
        readOnly := if r.1 = (0 : ℤ) then
          Function.update (FileCallState.start s).readOnly (2 : ℤ).toNat false
          else (FileCallState.start s).readOnly }) := rfl
  rw [hclose, Option.map_some] at hcall
  refine ⟨s, _, hnew, ⟨h0, h2⟩, hcall, ?_, ?_⟩
  · simp [h0]
  · simp

end Nachos.Analysis
