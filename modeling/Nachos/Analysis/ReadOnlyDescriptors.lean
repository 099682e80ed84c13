import Nachos.Analysis.DescriptorAliases
import Nachos.Analysis.FileCallCases

/-!
# Read-only descriptors in the FILESYS build

`FileSystem::Open(name, type)` of this build does not use `type`: every `OpenFile` is made with
type 0, and the check of `SC_Write` for type 1 never holds. So a `Write` on a descriptor that
has been opened read-only is refused exactly when it would be refused on any descriptor: for
its id, for an entry that is `NULL`, or for its count.
-/

set_option autoImplicit false

namespace Nachos.Analysis

open Nachos.Library Nachos.Model

variable {s s' : DiskFileSystem} {p : ℕ}

/-! ## When a `Write` is refused -/

/-- A `Write` on an id that may only be read returns `-1` and changes nothing. -/
def WriteRefused (s : FileCallState DiskFileSystem) : FileCall DiskAnswer → Prop
  | .write env id charcount buff => 0 ≤ id → s.readOnly id.toNat = true →
      DiskFileSystem.build.call s (.write env id charcount buff) = some (-1, s)
  | _ => True

/-- A `Write` on an id that may only be read is on descriptor 0, on an id outside the table or
with nothing open under it, or of no byte. -/
def NothingToWrite (s : FileCallState DiskFileSystem) : FileCall DiskAnswer → Prop
  | .write _ id charcount _ => 0 ≤ id → s.readOnly id.toNat = true →
      id = 0 ∨ 9 < id ∨ s.fs.file id.toNat = none ∨ charcount ≤ 0
  | _ => True

/-! ## Every object has type 0 -/

/-- The type of every `OpenFile` is 0. -/
def AllWritable (s : DiskFileSystem) : Prop :=
  ∀ p f, s.objects p = some f → f.type = 0

theorem AllWritable.update (h : AllWritable s) {f : Option OpenFile}
    (hf : ∀ g, f = some g → g.type = 0) (hs' : s'.objects = Function.update s.objects p f) :
    AllWritable s' := by
  intro q g hg
  rw [hs'] at hg
  by_cases hq : q = p
  · subst hq
    rw [Function.update_self] at hg
    exact hf g hg
  · rw [Function.update_of_ne hq] at hg
    exact h q g hg

theorem AllWritable.openFile (h : AllWritable s) {env : DiskAnswer} {name : String} {r : Option ℕ}
    (hopen : s.openFile env name = some (r, s')) : AllWritable s' := by
  obtain ⟨-, hs'⟩ | ⟨i, f, -, -, -, htype, hs'⟩ := disk_open_cases hopen
  · rw [hs']
    exact h
  · rw [hs']
    apply h.update (p := env.addr) (f := some f)
    · intro g hg
      cases hg
      exact htype
    · rfl

theorem AllWritable.delete (h : AllWritable s) (hdel : s.delete p = some s') : AllWritable s' := by
  rw [disk_delete_spec hdel]
  apply h.update (p := p) (f := none)
  · intro g hg
    cases hg
  · rfl

theorem disk_write_spec {env : DiskAnswer} {src : Buffer} {n r : ℤ}
    (h : s.write env p src n = some (r, s')) :
    ∃ f d, s.objects p = some f ∧ f.writeAt s.fs.disk env.buf src n f.seekPosition = some (d, r) ∧
      s' = { s with
        fs := { s.fs with disk := d }
        objects := Function.update s.objects p (some (f.advance r)) } := by
  simp only [DiskFileSystem.write, OpenFile.write, Option.bind_eq_bind, Option.bind_eq_some_iff,
    Option.pure_def, Option.some.injEq, Prod.mk.injEq, Prod.exists] at h
  obtain ⟨f, hf, d, f', r', ⟨d', r'', hwrite, rfl, rfl, rfl⟩, rfl, hs'⟩ := h
  exact ⟨f, d', hf, hwrite, hs'.symm⟩

theorem disk_read_spec {into into' : Buffer} {n r : ℤ} (h : s.read p into n = some (r, into', s')) :
    ∃ f, s.objects p = some f ∧
      s' = { s with objects := Function.update s.objects p (some (f.advance r)) } := by
  simp only [DiskFileSystem.read, OpenFile.read, Option.bind_eq_bind, Option.bind_eq_some_iff,
    Option.pure_def, Option.some.injEq, Prod.mk.injEq, Prod.exists] at h
  obtain ⟨f, hf, b, f', r', ⟨b', r'', -, rfl, rfl, rfl⟩, rfl, -, hs'⟩ := h
  exact ⟨f, hf, hs'.symm⟩

/-- INTERNAL: `WriteAt` never returns a negative number. -/
theorem writeAt_nonneg {f : OpenFile} {d d' : DiskImage} {buf src : Buffer} {n pos r : ℤ}
    (h : f.writeAt d buf src n pos = some (d', r)) : 0 ≤ r := by
  unfold OpenFile.writeAt at h
  by_cases hnone : n ≤ 0 ∨ pos ≥ f.length
  · rw [if_pos hnone, Option.some.injEq, Prod.mk.injEq] at h
    omega
  · rw [if_neg hnone] at h
    simp only [Option.ite_none_left_eq_some, Option.bind_eq_bind, Option.bind_eq_some_iff,
      Option.pure_def, Option.some.injEq, Prod.mk.injEq] at h
    obtain ⟨hbad, -, -, -, -, -, hr⟩ := h
    have hlen : f.length < 2 ^ 31 := f.hdr.numBytes.toInt_lt
    rw [← hr]
    unfold OpenFile.clip
    split_ifs
    · -- the rest of the file, which is not empty
      have hpos : 0 ≤ pos := by
        by_contra hneg
        exact hbad (Or.inl (by omega))
      unfold toInt32
      rw [Int.bmod_eq_of_le (by omega) (by omega)]
      omega
    · omega

theorem allWritable_kept : BuildKeeps DiskFileSystem.build AllWritable where
  setFile _ _ _ h := h
  create s env name n ok s' h hcreate := by
    intro p f hf
    rw [(disk_create_spec hcreate).2.2] at hf
    exact h p f hf
  openFile _ _ _ _ _ h hopen := h.openFile hopen
  openFileType _ _ _ _ _ _ h hopen := h.openFile hopen
  delete _ _ _ h hdel := h.delete hdel
  read s _ p into n r into' s' h hread := by
    obtain ⟨f, hf, hs'⟩ := disk_read_spec hread
    rw [hs']
    exact h.update (fun g hg => by cases hg; exact h p f hf) rfl
  write s env p src n r s' h hwrite := by
    obtain ⟨f, d, hf, -, hs'⟩ := disk_write_spec hwrite
    rw [hs']
    exact h.update (fun g hg => by cases hg; exact h p f hf) rfl

/-! ## The main result -/

/-- INTERNAL: with every object of type 0 a `Write` is refused for its id, its entry or its
count only. -/
theorem writeRefused_iff {s s' : FileCallState DiskFileSystem} (h : AllWritable s.fs)
    {e : FileCall DiskAnswer} (hstep : DiskFileSystem.build.step s e = some s') :
    WriteRefused s e ↔ NothingToWrite s e := by
  cases e with
  | write env id charcount buff =>
    apply forall_congr'
    intro hid
    apply forall_congr'
    intro _
    have hcall : DiskFileSystem.build.call s (.write env id charcount buff) =
        (DiskFileSystem.build.scWrite s.fs env id charcount buff).map fun r =>
          (r.1, { s with fs := r.2 }) := rfl
    simp only [FileBuild.step, hcall, Option.map_map, Option.map_eq_some_iff, Prod.exists] at hstep
    obtain ⟨r, fs', hwrite, -⟩ := hstep
    rw [hcall, hwrite, Option.map_some, Option.some.injEq, Prod.mk.injEq]
    obtain ⟨hfs, hr, hwhy⟩ | ⟨-, hone, hopen, hcount, hr⟩ | ⟨p, n, hin, hp, hdone, hr⟩ :=
      scWrite_cases hwrite
    · -- refused, and not for its type
      have hfile : id ≤ 0 ∨ 9 < id ∨ s.fs.file id.toNat = none ∨ charcount ≤ 0 := by
        obtain hwhy | hwhy | hwhy | hwhy | ⟨p, hp, htype⟩ := hwhy
        · exact Or.inl hwhy
        · exact Or.inr (Or.inl hwhy)
        · exact Or.inr (Or.inr (Or.inl hwhy))
        · exact Or.inr (Or.inr (Or.inr hwhy))
        · obtain ⟨f, hf, ht⟩ := Option.map_eq_some_iff.mp htype
          rw [h p f hf] at ht
          exact absurd ht (by decide)
      subst hfs
      refine ⟨fun _ => hfile.imp_left fun hle => by omega, fun _ => ⟨hr, rfl⟩⟩
    · -- to the console
      have hopen' : s.fs.file id.toNat ≠ none := hopen
      refine ⟨fun hrefused => ?_, fun hnothing => ?_⟩
      · omega
      · obtain h0 | h9 | hnone | hle := hnothing
        · omega
        · omega
        · exact absurd hnone hopen'
        · omega
    · -- to a file: what is returned is `-2` or a positive number
      have hp' : s.fs.file id.toNat ≠ none := fun hnone => by
        rw [show DiskFileSystem.build.file s.fs id.toNat = none from hnone] at hp
        cases hp
      obtain ⟨f, d, -, hwriteAt, -⟩ := disk_write_spec hdone
      have hn := writeAt_nonneg hwriteAt
      refine ⟨fun hrefused => ?_, fun hnothing => ?_⟩
      · have hr' := hrefused.1
        rw [hr] at hr'
        unfold FileBuild.transferred at hr'
        split_ifs at hr' <;> omega
      · obtain h0 | h9 | hnone | hle := hnothing
        · omega
        · omega
        · exact absurd hnone hp'
        · omega
  | createFile env name => exact Iff.rfl
  | «open» env name type => exact Iff.rfl
  | close id => exact Iff.rfl
  | read env id charcount buff console => exact Iff.rfl
  | exec env env' name pid => exact Iff.rfl
  | loadOpen env name => exact Iff.rfl
  | loadClose p => exact Iff.rfl

theorem allWritable_new {format : Bool} {d : DiskImage} {fresh : Fresh} {dirHdr : FileHeader}
    {env₁ env₂ env₃ env₄ : DiskAnswer}
    (hnew : DiskFileSystem.new format d fresh dirHdr env₁ env₂ env₃ env₄ = some s) :
    AllWritable s := by
  obtain ⟨fs, hfinish⟩ := finish_of_new hnew
  simp only [DiskFileSystem.finish, DiskFileSystem.openFileType, Option.bind_eq_bind,
    Option.bind_eq_some_iff, Option.pure_def, Option.some.injEq, Prod.exists] at hfinish
  obtain ⟨ok₁, s₁, h₁, ok₂, s₂, h₂, q, s₃, h₃, q', s₄, h₄, hs⟩ := hfinish
  have hw₀ : AllWritable ⟨fs, fun _ => none, fun _ => none⟩ := by
    intro p f hf
    cases hf
  have hw₁ : AllWritable s₁ := allWritable_kept.create _ _ _ _ _ _ hw₀ h₁
  have hw₂ : AllWritable s₂ := allWritable_kept.create _ _ _ _ _ _ hw₁ h₂
  have hw₃ : AllWritable s₃ := hw₂.openFile h₃
  have hw₄ : AllWritable s₄ := AllWritable.openFile (s := { s₃ with
    file := Function.update s₃.file 0 q }) hw₃ h₄
  rw [← hs]
  exact hw₄

/-- SOURCE: filesys/filesys.cc:259-278, filesys/openfile.cc:30-44, userprog/exception.cc:312-350 —
after the constructor, on a disk that holds anything, and along any run of system calls, every
`Write` on an id that an `Open` with type 1 has returned and that has not been closed since
returns `-1` and changes nothing, exactly when each such `Write` is on descriptor 0, on an id
with nothing open under it, or of no byte. -/
theorem read_only_refused_iff (format : Bool) (d : DiskImage) (fresh : Fresh)
    (dirHdr : FileHeader) (env₁ env₂ env₃ env₄ : DiskAnswer) (s : DiskFileSystem)
    (hnew : DiskFileSystem.new format d fresh dirHdr env₁ env₂ env₃ env₄ = some s)
    (es : List (FileCall DiskAnswer)) :
    Meets DiskFileSystem.build.step WriteRefused (.start s) es ↔
      Meets DiskFileSystem.build.step NothingToWrite (.start s) es := by
  apply meets_congr (I := fun s : FileCallState DiskFileSystem => AllWritable s.fs)
  · intro s e s' h hstep
    exact writeRefused_iff h hstep
  · intro s e s' h hstep
    exact allWritable_kept.step h hstep
  · exact allWritable_new hnew

/-- On a blank disk the constructor formats, a `Write` on descriptor 0. -/
theorem read_only_refused_iff_stdin :
    ∃ s, DiskFileSystem.new true (fun _ _ => 0#8) (blank 0).fresh ⟨0, 0, fun _ => 0⟩ (blank 0)
        (blank 0) (blank 100) (blank 101) = some s ∧
      (Meets DiskFileSystem.build.step WriteRefused (.start s)
          [.open (blank 102) "stdin" 1, .write (blank 0) 0 1 fun _ => 0#8] ↔
        Meets DiskFileSystem.build.step NothingToWrite (.start s)
          [.open (blank 102) "stdin" 1, .write (blank 0) 0 1 fun _ => 0#8]) := by
  obtain ⟨s, -, -, -, -, hnew, -⟩ := new_formatted (fun _ _ => 0#8) (blank 0).fresh
    ⟨0, 0, fun _ => 0⟩ (blank 0) (blank 0) (blank 100) (blank 101) (by decide)
  exact ⟨s, hnew, read_only_refused_iff true _ _ _ _ _ _ _ s hnew _⟩

/-- SOURCE: filesys/filesys.cc:259-278, userprog/exception.cc:312-350 — on a disk with a file `a`
of one byte, `Open("a", 1)` returns descriptor 4, a `Write` of one byte on it returns 1, and the
file has changed. -/
theorem read_only_file_is_written :
    ∃ d s s₁ s₂ f src, DiskFileSystem.new false d (blank 0).fresh ⟨0, 0, fun _ => 0⟩ (blank 0)
        (blank 0) (blank 100) (blank 101) = some s ∧
      DiskFileSystem.build.call (.start s) (.open (blank 102) "a" 1) = some (4, s₁) ∧
      s₁.fs.objects 102 = some f ∧
      DiskFileSystem.build.call s₁ (.write (blank 0) 4 1 src) = some (1, s₂) ∧
      content f.hdr s₂.fs.fs.disk 0 ≠ content f.hdr s₁.fs.fs.disk 0 := by
  obtain ⟨fs₀, dir₀, map₀, -, hvol₀⟩ := formatDisk_volume (fun _ _ => 0#8) (blank 0).fresh
    ⟨0, 0, fun _ => 0⟩
  obtain ⟨fs₁, dir₁, map₁, -, hvol₁⟩ := hvol₀.create "a" (show (0 : ℤ) ≤ 1 by decide)
    (by decide) (blank 0).fresh (by simp) (by decide) (by decide)
  obtain ⟨fs, hmount, hvol⟩ := hvol₁.mount
  obtain ⟨s, dir, map, f₀, g₀, hfinish, hvols, hfile, hobj⟩ :=
    hvol.finish (blank 0) (blank 0) (blank 100) (blank 101) (by decide) (by decide) (by decide)
      (by decide) (by decide)
  have hnew : DiskFileSystem.new false fs₁.disk (blank 0).fresh ⟨0, 0, fun _ => 0⟩ (blank 0)
      (blank 0) (blank 100) (blank 101) = some s := by
    simp only [DiskFileSystem.new, Bool.false_eq_true, if_false, hmount, Option.bind_eq_bind,
      Option.bind_some, hfinish]
  -- the object `Open` makes, in entry 4
  have hnone : s.objects 102 = none := by
    rw [hobj]
    rfl
  obtain ⟨hdr, n, hbytes, hlaid, hscOpen⟩ := hvols.scOpen (show ("a", 1) ∈ _ by simp)
    (⟨by decide, by decide, by decide⟩ : LooksUp "a" 1) hfile (blank 102) hnone
  have haddr : (blank 102).addr = 102 := rfl
  rw [haddr] at hscOpen
  have hentry := diskOpened_file_self s 4 102 ⟨hdr, 0, 0⟩
  have hobject := diskOpened_objects_self s 4 102 ⟨hdr, 0, 0⟩
  have hdisk : (diskOpened s 4 102 ⟨hdr, 0, 0⟩).fs = s.fs := rfl
  generalize diskOpened s 4 102 ⟨hdr, 0, 0⟩ = t at hscOpen hentry hobject hdisk
  -- and the byte written through it
  have hlen : hdr.fileLength = (1 : ℕ) := hbytes
  obtain ⟨src, d', hwriteAt, hchanged⟩ := LaidOut.writeAt_changes (f := ⟨hdr, 0, 0⟩) hlaid hlen
    s.fs.disk (blank 0).buf
  obtain ⟨t', hwrite, hdisk'⟩ : ∃ t', DiskFileSystem.build.write t (blank 0) 102 src 1 =
      some (1, t') ∧ t'.fs.disk = d' := by
    simp only [DiskFileSystem.build, DiskFileSystem.write, OpenFile.write, hobject, hdisk,
      hwriteAt, Option.bind_eq_bind, Option.bind_some, Option.pure_def]
    exact ⟨_, rfl, rfl⟩
  have htype : DiskFileSystem.build.typeOf t 102 = some 0 := by
    simp [DiskFileSystem.build, hobject]
  have hscWrite := scWrite_of_write (by decide) hentry htype (by decide) (by decide) hwrite
  refine ⟨fs₁.disk, s, ⟨t, [], [], Function.update (FileCallState.start s).readOnly 4 true⟩,
    ⟨t', [], [], Function.update (FileCallState.start s).readOnly 4 true⟩, ⟨hdr, 0, 0⟩,
    src, hnew, ?_, hobject, ?_, ?_⟩
  · exact congrArg (Option.map _) hscOpen
  · exact congrArg (Option.map _) hscWrite
  · show content hdr t'.fs.disk 0 ≠ content hdr t.fs.disk 0
    rw [hdisk', hdisk]
    exact hchanged

end Nachos.Analysis
