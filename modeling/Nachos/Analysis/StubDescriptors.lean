import Mathlib.Tactic.Common
import Nachos.Analysis.FileCallCases
import Nachos.Library.Ownership
import Nachos.Library.Runs
import Nachos.Model.StubFileSystem

/-!
# Descriptors of the FILESYS_STUB build

Two ownership relations carry the argument. Every live `OpenFile` has one holder, an entry of
`file` or a constructor of an address space, and every open host descriptor has one holder,
an `OpenFile`. So a `delete` never meets a closed host descriptor, and closing one entry says
nothing about another. `Open` takes the first entry that is `NULL`, which is none of the
first two since no call ever empties those; everything else follows from there.

`Open("stdout", 1)` opens nothing: it returns descriptor 1, which the constructor has opened
with type 2. A `Write` on it goes to the console and is not refused.
-/

set_option autoImplicit false

namespace Nachos.Analysis

open Nachos.Library Nachos.Model

variable {fd file i p : ℕ} {charcount id n r type : ℤ} {fs' s₀ : StubFileSystem}
  {s : FileCallState StubFileSystem} {env : HostAnswer} {name : String} {f : StubOpenFile}
  {objects : ℕ → Option StubOpenFile} {o : ℕ ⊕ ℕ} {buff : Buffer} {readOnly : ℕ → Bool}

/-! ## Good descriptors -/

/-- Entry `i` of the table is an `OpenFile` whose host descriptor is open. -/
def EntryOpen (s : StubFileSystem) (i : ℕ) : Prop :=
  ∃ p f, s.file i = some p ∧ s.objects p = some f ∧ s.host.fds f.file ≠ none

/-- The table, with the `OpenFile`s its entries point to, is the same. -/
def SameTable (s s' : StubFileSystem) : Prop :=
  s'.file = s.file ∧ ∀ i p, s.file i = some p → s'.objects p = s.objects p

/-- `Open` returned `-1`, or an id whose entry was free and is now, alone, a new `OpenFile` of
the type asked for. -/
def OpenedOne (s s' : StubFileSystem) (type r : ℤ) : Prop :=
  r = -1 ∨ ∃ (i p : ℕ) (f : StubOpenFile), r = i ∧ 2 ≤ i ∧ i ≤ 9 ∧ s.file i = none ∧ s.objects p = none ∧
    s'.file = Function.update s.file i (some p) ∧ s'.objects p = some f ∧ f.type = type ∧
    ∀ q, q ≠ p → s'.objects q = s.objects q

/-- `Close` succeeded exactly if `id` is an occupied entry from 2 to 9, and then freed that
one. -/
def ClosedOne (s s' : StubFileSystem) (id r : ℤ) : Prop :=
  (r = 0 ↔ 2 ≤ id ∧ id ≤ 9 ∧ s.file id.toNat ≠ none) ∧
    (r = 0 → s'.file = Function.update s.file id.toNat none ∧
      ∀ i p, i ≠ id.toNat → s.file i = some p → s'.objects p = s.objects p)

/-- What holds of the table, and of every call that can be made, in a state of a run that
started with the table of `s₀`. -/
structure DescriptorsGood (s₀ : StubFileSystem) (s : FileCallState StubFileSystem) : Prop where
  consoles : ∀ i, i < 2 → s.fs.file i = s₀.file i ∧ EntryOpen s.fs i
  opens : ∀ env name type r s', name ≠ "stdin" → name ≠ "stdout" →
    StubFileSystem.build.call s (.open env name type) = some (r, s') →
    OpenedOne s.fs s'.fs type r
  closes : ∀ id, ∃ r s', StubFileSystem.build.call s (.close id) = some (r, s') ∧
    ClosedOne s.fs s'.fs id r
  errors : ∀ e r s', StubFileSystem.build.call s e = some (r, s') → r < 0 →
    SameTable s.fs s'.fs
  refused : ∀ env (id : ℕ) charcount buff, s.readOnly id = true → id ≠ 1 →
    StubFileSystem.build.call s (.write env id charcount buff) = some (-1, s)
  console : ∀ env charcount buff r s',
    StubFileSystem.build.call s (.write env 1 charcount buff) = some (r, s') → s'.fs = s.fs

/-! ## What the operations do -/

theorem host_close_of_open {h : Host} (hfd : h.fds fd ≠ none) :
    h.close fd = some { h with fds := Function.update h.fds fd none } := by
  unfold Host.close
  rw [if_neg hfd]

theorem stub_create_spec {s s' : StubFileSystem} {ok : Bool}
    (h : s.create env name n = some (ok, s')) :
    ok = true ∧ s'.file = s.file ∧ s'.objects = s.objects ∧ s'.host.fds = s.host.fds := by
  unfold StubFileSystem.create Host.openForWrite at h
  cases hfd : env.fd with
  | none => simp [hfd] at h
  | some fd =>
    by_cases hfree : s.host.fds fd = none
    · have hrestore : Function.update (Function.update s.host.fds fd
          (some ((s.host.names name).getD env.inode))) fd none = s.host.fds := by
        rw [Function.update_idem, ← hfree, Function.update_eq_self]
      simp only [hfd, hfree, if_true, Option.bind_eq_bind, Option.bind_some] at h
      rw [host_close_of_open (by simp)] at h
      simp only [Option.bind_some, Option.pure_def, Option.some.injEq, Prod.mk.injEq] at h
      obtain ⟨hok, hs'⟩ := h
      subst hs'
      exact ⟨hok.symm, rfl, rfl, hrestore⟩
    · simp [hfd, hfree] at h

/-- The file system with a new `OpenFile` at `p` over the host descriptor `fd`. -/
def withObject (s : StubFileSystem) (p fd file : ℕ) (type : ℤ) : StubFileSystem :=
  { s with
    host := { s.host with fds := Function.update s.host.fds fd (some file) }
    objects := Function.update s.objects p (some ⟨fd, 0, type⟩) }

/-- The file system without the `OpenFile` at `p`, whose host descriptor was `fd`. -/
def withoutObject (s : StubFileSystem) (p fd : ℕ) : StubFileSystem :=
  { s with
    host := { s.host with fds := Function.update s.host.fds fd none }
    objects := Function.update s.objects p none }

/-- INTERNAL: `Open` changes nothing, or makes one object over one new host descriptor. -/
theorem stub_open_cases {s s' : StubFileSystem} {r : Option ℕ}
    (h : s.openFileType env name type = some (r, s')) :
    (r = none ∧ s' = s) ∨ ∃ p fd file, r = some p ∧ s.objects p = none ∧
      s.host.fds fd = none ∧ s' = withObject s p fd file type := by
  unfold StubFileSystem.openFileType Host.openForReadWrite at h
  cases hfd : env.fd with
  | none =>
    left
    simp only [hfd, Option.some.injEq, Prod.mk.injEq] at h
    exact ⟨h.1.symm, h.2.symm⟩
  | some fd =>
    right
    cases hname : s.host.names name with
    | none => simp [hfd, hname] at h
    | some file =>
      by_cases hfree : s.host.fds fd = none
      · simp only [hfd, hname, hfree, if_true] at h
        rw [Option.ite_none_right_eq_some] at h
        obtain ⟨haddr, h⟩ := h
        simp only [Option.some.injEq, Prod.mk.injEq] at h
        exact ⟨env.addr, fd, file, h.1.symm, haddr, hfree, h.2.symm⟩
      · simp [hfd, hname, hfree] at h

theorem stub_open_file {s s' : StubFileSystem} {r : Option ℕ}
    (h : s.openFileType env name type = some (r, s')) : s'.file = s.file := by
  obtain ⟨-, hs'⟩ | ⟨p, fd, file, -, -, -, hs'⟩ := stub_open_cases h
  · rw [hs']
  · rw [hs']
    rfl

theorem stub_open_some {s s' : StubFileSystem}
    (h : s.openFileType env name type = some (some p, s')) :
    ∃ fd file, s.objects p = none ∧ s.host.fds fd = none ∧ s' = withObject s p fd file type := by
  obtain ⟨hr, -⟩ | ⟨q, fd, file, hr, hp, hfd, hs'⟩ := stub_open_cases h
  · cases hr
  · cases hr
    exact ⟨fd, file, hp, hfd, hs'⟩

theorem stub_delete_eq {s : StubFileSystem} (hp : s.objects p = some f)
    (hfd : s.host.fds f.file ≠ none) : s.delete p = some (withoutObject s p f.file) := by
  unfold StubFileSystem.delete
  simp only [hp, Option.bind_eq_bind, Option.bind_some, host_close_of_open hfd]
  rfl

theorem withoutObject_withObject {s : StubFileSystem} (hp : s.objects p = none)
    (hfd : s.host.fds fd = none) : withoutObject (withObject s p fd file type) p fd = s := by
  have hobj : Function.update s.objects p none = s.objects := by
    rw [← hp, Function.update_eq_self]
  have hfds : Function.update s.host.fds fd none = s.host.fds := by
    rw [← hfd, Function.update_eq_self]
  simp only [withoutObject, withObject, Function.update_idem, hobj, hfds]

theorem stub_probe_eq {s s' : StubFileSystem} {found : Bool}
    (h : StubFileSystem.build.probe s env name = some (found, s')) : s' = s := by
  obtain ⟨-, hopen⟩ | ⟨p, t, -, hopen, hdel⟩ := probe_cases h
  · obtain ⟨-, hs'⟩ | ⟨p, fd, file, hr, -⟩ := stub_open_cases hopen
    · exact hs'
    · cases hr
  · obtain ⟨fd, file, hfree, hfd, ht⟩ := stub_open_some hopen
    have hdel' : t.delete p = some s := by
      rw [ht]
      refine (stub_delete_eq (f := ⟨fd, 0, 0⟩) ?_ ?_).trans ?_
      · simp [withObject]
      · simp [withObject]
      · rw [withoutObject_withObject hfree hfd]
    exact (Option.some.inj (hdel.symm.trans hdel'))

theorem stub_exec_eq {s s' : StubFileSystem} {env env' : HostAnswer} {pid r : ℤ}
    (h : StubFileSystem.build.scExec s env env' name pid = some (r, s')) : s' = s := by
  obtain ⟨-, hprobe⟩ | ⟨t, ok, h₁, h₂⟩ := scExec_cases h
  · exact stub_probe_eq hprobe
  · rw [stub_probe_eq h₂, stub_probe_eq h₁]

/-! ## The invariant -/

/-- The `OpenFile`s an entry of `file`, or the constructor of an address space that holds the
executable `p` open, has. -/
def objectsHeld (file : ℕ → Option ℕ) (loading : List ℕ) : ℕ ⊕ ℕ → List ℕ
  | .inl i => (file i).toList
  | .inr p => if p ∈ loading then [p] else []

/-- The host descriptor an `OpenFile` has. -/
def fdHeld (objects : ℕ → Option StubOpenFile) (p : ℕ) : List ℕ :=
  ((objects p).map StubOpenFile.file).toList

/-- Entry `id` is an `OpenFile` of the given type. -/
def EntryType (s : StubFileSystem) (id : ℕ) (type : ℤ) : Prop :=
  ∃ p f, s.file id = some p ∧ s.objects p = some f ∧ f.type = type

/-- The invariant of a run that started with the table of `s₀`. -/
structure StubInv (s₀ : StubFileSystem) (s : FileCallState StubFileSystem) : Prop where
  objects : Owned (objectsHeld s.fs.file s.loading) {p | s.fs.objects p ≠ none}
  fds : Owned (fdHeld s.fs.objects) {fd | s.fs.host.fds fd ≠ none}
  loading : s.loading.Nodup
  consoles : ∀ i, i < 2 → s.fs.file i = s₀.file i ∧ s.fs.file i ≠ none
  readOnly : ∀ id, s.readOnly id = true → id = 1 ∨ EntryType s.fs id 1
  stdin : s.readOnly 0 = true
  offsets : ∀ p f, s.fs.objects p = some f → toInt32 f.currentOffset = f.currentOffset

theorem StubInv.live (h : StubInv s₀ s) (hp : p ∈ objectsHeld s.fs.file s.loading o) :
    ∃ f, s.fs.objects p = some f ∧ s.fs.host.fds f.file ≠ none := by
  have hlive : s.fs.objects p ≠ none := h.objects.mem_marked hp
  obtain ⟨f, hf⟩ := Option.ne_none_iff_exists'.mp hlive
  refine ⟨f, hf, ?_⟩
  apply h.fds.mem_marked (o := p)
  simp [fdHeld, hf]

theorem mem_objectsHeld_inl {file : ℕ → Option ℕ} {loading : List ℕ} (h : file i = some p) :
    p ∈ objectsHeld file loading (.inl i) := by
  simp [objectsHeld, h]

theorem StubInv.entry_inj (h : StubInv s₀ s) {i j p : ℕ} (hi : s.fs.file i = some p)
    (hj : s.fs.file j = some p) : i = j := by
  by_contra hne
  have hne' : (Sum.inl i : ℕ ⊕ ℕ) ≠ .inl j := fun heq => hne (Sum.inl.inj heq)
  exact h.objects.disjoint _ _ hne' p (mem_objectsHeld_inl hi) (mem_objectsHeld_inl hj)

/-- What the system calls can tell of an `OpenFile` besides its offset. -/
def objectView (objects : ℕ → Option StubOpenFile) (p : ℕ) : Option (ℕ × ℤ) :=
  (objects p).map fun f => (f.file, f.type)

theorem objectView_update (hp : objects p = some f) (offset : ℤ) :
    objectView (Function.update objects p (some { f with currentOffset := offset })) =
      objectView objects := by
  funext q
  by_cases hq : q = p
  · subst hq
    simp [objectView, hp]
  · simp [objectView, hq]

/-- INTERNAL: the invariant does not depend on where in a file the next access is, on the bytes
of files, or on the programs still to be loaded. -/
theorem StubInv.congr {s s' : FileCallState StubFileSystem} (h : StubInv s₀ s)
    (hfile : s'.fs.file = s.fs.file) (hview : objectView s'.fs.objects = objectView s.fs.objects)
    (hfds : s'.fs.host.fds = s.fs.host.fds) (hloading : s'.loading = s.loading)
    (hro : s'.readOnly = s.readOnly)
    (hoff : ∀ p f, s'.fs.objects p = some f → toInt32 f.currentOffset = f.currentOffset) :
    StubInv s₀ s' := by
  have hview' : ∀ p, (s'.fs.objects p).map (fun f => (f.file, f.type)) =
      (s.fs.objects p).map fun f => (f.file, f.type) := congrFun hview
  have hnone : ∀ p, s'.fs.objects p ≠ none ↔ s.fs.objects p ≠ none := by
    intro p
    have hp := hview' p
    cases hs' : s'.fs.objects p <;> cases hs : s.fs.objects p <;> simp [hs, hs'] at hp ⊢
  have hheld : ∀ p, fdHeld s'.fs.objects p = fdHeld s.fs.objects p := by
    intro p
    have hp := congrArg (Option.map Prod.fst) (hview' p)
    simp only [Option.map_map] at hp
    exact congrArg Option.toList hp
  constructor
  · apply h.objects.congr
    · intro o
      rw [hfile, hloading]
    · exact hnone
  · apply h.fds.congr hheld
    intro fd
    rw [Set.mem_ofPred_eq, hfds, Set.mem_ofPred_eq]
  · rw [hloading]
    exact h.loading
  · rw [hfile]
    exact h.consoles
  · intro id hid
    rw [hro] at hid
    apply (h.readOnly id hid).imp_right
    rintro ⟨p, f, hp, hf, ht⟩
    have hq := hview' p
    rw [hf] at hq
    obtain ⟨f', hf', heq⟩ := Option.map_eq_some_iff.mp hq
    exact ⟨p, f', by rw [hfile, hp], hf', by rw [← ht]; exact congrArg Prod.snd heq⟩
  · rw [hro]
    exact h.stdin
  · exact hoff

theorem StubInv.freeIndex (h : StubInv s₀ s) (hi : StubFileSystem.build.freeIndex s.fs = some i) :
    2 ≤ i ∧ i ≤ 9 ∧ s.fs.file i = none := by
  have hnone : s.fs.file i = none := by
    have := List.find?_some hi
    exact Option.isNone_iff_eq_none.mp this
  have hlt : i < numDescriptors := List.mem_range.mp (List.mem_of_find?_eq_some hi)
  refine ⟨?_, ?_, hnone⟩
  · by_contra hlow
    exact (h.consoles i (by omega)).2 hnone
  · unfold numDescriptors at hlt
    omega

/-! ## New and deleted objects -/

/-- INTERNAL: a new `OpenFile` is one more object over one more descriptor. -/
theorem fds_withObject {s : StubFileSystem} (h : Owned (fdHeld s.objects) {x | s.host.fds x ≠ none})
    (hp : s.objects p = none) (hfd : s.host.fds fd = none) :
    Owned (fdHeld (withObject s p fd file type).objects)
      {x | (withObject s p fd file type).host.fds x ≠ none} := by
  have hacq : Owned (Function.update (fdHeld s.objects) p [fd])
      {x | (withObject s p fd file type).host.fds x ≠ none} := by
    apply h.acquire
    · simp [fdHeld, hp]
    · exact List.nodup_singleton fd
    · intro x hx
      rw [List.mem_singleton.mp hx]
      simp [hfd]
    · intro x
      by_cases hx : x = fd <;> simp [withObject, hx]
  apply hacq.congr
  · intro q
    by_cases hq : q = p
    · subst hq
      simp [fdHeld, withObject]
    · simp [fdHeld, withObject, hq]
  · exact fun _ => Iff.rfl

theorem fds_withoutObject {s : StubFileSystem}
    (h : Owned (fdHeld s.objects) {x | s.host.fds x ≠ none}) (hp : s.objects p = some f) :
    Owned (fdHeld (withoutObject s p f.file).objects)
      {x | (withoutObject s p f.file).host.fds x ≠ none} := by
  have hrel : Owned (Function.update (fdHeld s.objects) p [])
      {x | (withoutObject s p f.file).host.fds x ≠ none} := by
    apply h.release
    intro x
    by_cases hx : x = f.file <;> simp [withoutObject, fdHeld, hp, hx]
  apply hrel.congr
  · intro q
    by_cases hq : q = p
    · subst hq
      simp [fdHeld, withoutObject]
    · simp [fdHeld, withoutObject, hq]
  · exact fun _ => Iff.rfl

theorem objects_taken {held held' : ℕ ⊕ ℕ → List ℕ} (h : Owned held {q | objects q ≠ none})
    (hp : objects p = none) (ho : held o = [])
    (hheld : ∀ o', held' o' = Function.update held o [p] o') :
    Owned held' {q | Function.update objects p (some f) q ≠ none} := by
  have hacq : Owned (Function.update held o [p])
      {q | Function.update objects p (some f) q ≠ none} := by
    apply h.acquire ho (List.nodup_singleton p)
    · intro q hq
      rw [List.mem_singleton.mp hq]
      simp [hp]
    · intro q
      by_cases hq : q = p <;> simp [hq]
  exact hacq.congr hheld fun _ => Iff.rfl

theorem objects_given_back {held held' : ℕ ⊕ ℕ → List ℕ} (h : Owned held {q | objects q ≠ none})
    (ho : held o = [p]) (hheld : ∀ o', held' o' = Function.update held o [] o') :
    Owned held' {q | Function.update objects p none q ≠ none} := by
  have hrel : Owned (Function.update held o [])
      {q | Function.update objects p none q ≠ none} := by
    apply h.release
    intro q
    by_cases hq : q = p <;> simp [hq, ho]
  exact hrel.congr hheld fun _ => Iff.rfl

theorem objectsHeld_update_file (file : ℕ → Option ℕ) (loading : List ℕ) (i : ℕ) (p : Option ℕ)
    (o : ℕ ⊕ ℕ) : objectsHeld (Function.update file i p) loading o =
      Function.update (objectsHeld file loading) (.inl i) p.toList o := by
  cases o with
  | inl j =>
    by_cases hj : j = i
    · subst hj
      simp [objectsHeld]
    · simp [objectsHeld, hj]
  | inr q => simp [objectsHeld]

theorem objectsHeld_cons (file : ℕ → Option ℕ) (loading : List ℕ) (p : ℕ) (o : ℕ ⊕ ℕ) :
    objectsHeld file (p :: loading) o =
      Function.update (objectsHeld file loading) (.inr p) [p] o := by
  cases o with
  | inl j => simp [objectsHeld]
  | inr q =>
    by_cases hq : q = p
    · subst hq
      simp [objectsHeld]
    · simp [objectsHeld, hq]

theorem objectsHeld_erase (file : ℕ → Option ℕ) {loading : List ℕ} (hnodup : loading.Nodup)
    (p : ℕ) (o : ℕ ⊕ ℕ) : objectsHeld file (loading.erase p) o =
      Function.update (objectsHeld file loading) (.inr p) [] o := by
  cases o with
  | inl j => simp [objectsHeld]
  | inr q =>
    by_cases hq : q = p
    · subst hq
      simp [objectsHeld, hnodup.not_mem_erase]
    · simp [objectsHeld, hq, List.mem_erase_of_ne hq]

/-! ## The calls -/

/-- The table after an `Open` that has put the object `p` into entry `i`. -/
def withEntry (s : StubFileSystem) (i : ℕ) (p : Option ℕ) : StubFileSystem :=
  { s with file := Function.update s.file i p }

/-- INTERNAL: `SC_Open` returns without a change of the table, or fills a free entry from 2 to 9
with a new object. -/
theorem StubInv.scOpen_cases (h : StubInv s₀ s)
    (hcall : StubFileSystem.build.scOpen s.fs env name type = some (r, fs')) :
    (fs' = s.fs ∧ OpenedNothing name r) ∨
      ∃ i p fd file : ℕ, r = i ∧ 2 ≤ i ∧ i ≤ 9 ∧ s.fs.file i = none ∧ s.fs.objects p = none ∧
        s.fs.host.fds fd = none ∧ fs' = withEntry (withObject s.fs p fd file type) i (some p) := by
  obtain ⟨hfs, hr, -⟩ | ⟨i, q, t, -, hfree, hopen, hr, hfs⟩ := Analysis.scOpen_cases hcall
  · exact Or.inl ⟨hfs, hr⟩
  obtain ⟨hlow, hhigh, hnone⟩ := h.freeIndex hfree
  obtain ⟨hq, ht⟩ | ⟨p, fd, file, hq, hp, hfd, ht⟩ := stub_open_cases hopen
  · -- the entry that would have been used stays `NULL`
    subst hq
    refine Or.inl ⟨?_, Or.inl (by simpa using hr)⟩
    have hsame : Function.update s.fs.file i none = s.fs.file := by
      rw [← hnone, Function.update_eq_self]
    rw [hfs, ht]
    simp only [StubFileSystem.build, hsame]
  · subst hq
    refine Or.inr ⟨i, p, fd, file, by simpa using hr, hlow, hhigh, hnone, hp, hfd, ?_⟩
    rw [hfs, ht]
    rfl

/-- INTERNAL: `SC_Close` always returns: with `-1` and nothing changed, or with the entry freed
and its object deleted. -/
theorem StubInv.scClose_cases (h : StubInv s₀ s) (id : ℤ) :
    (StubFileSystem.build.scClose s.fs id = some (-1, s.fs) ∧
        ¬(2 ≤ id ∧ id ≤ 9 ∧ s.fs.file id.toNat ≠ none)) ∨
      ∃ p f, (2 ≤ id ∧ id ≤ 9) ∧ s.fs.file id.toNat = some p ∧ s.fs.objects p = some f ∧
        StubFileSystem.build.scClose s.fs id =
          some (0, withEntry (withoutObject s.fs p f.file) id.toNat none) := by
  unfold FileBuild.scClose
  by_cases hid : id < 2 ∨ id > 9
  · left
    rw [if_pos hid]
    exact ⟨rfl, by omega⟩
  rw [if_neg hid]
  have hbuild : StubFileSystem.build.file s.fs id.toNat = s.fs.file id.toNat := rfl
  rw [hbuild]
  cases hp : s.fs.file id.toNat with
  | none => exact Or.inl ⟨rfl, by simp⟩
  | some p =>
    right
    obtain ⟨f, hf, hfd⟩ := h.live (mem_objectsHeld_inl hp)
    have hdel : StubFileSystem.build.delete s.fs p = some (withoutObject s.fs p f.file) :=
      stub_delete_eq hf hfd
    refine ⟨p, f, by omega, rfl, hf, ?_⟩
    simp only [hdel, Option.map_some]
    rfl

/-- The file system after a transfer through the object `p`, as far as the descriptors go: only
the offset of `p` has moved. -/
structure Transferred (s s' : StubFileSystem) : Prop where
  file : s'.file = s.file
  fds : s'.host.fds = s.host.fds
  view : objectView s'.objects = objectView s.objects
  offsets : (∀ p f, s.objects p = some f → toInt32 f.currentOffset = f.currentOffset) →
    ∀ p f, s'.objects p = some f → toInt32 f.currentOffset = f.currentOffset

theorem Transferred.refl (s : StubFileSystem) : Transferred s s :=
  ⟨rfl, rfl, rfl, id⟩

theorem toInt32_toInt32 (x : ℤ) : toInt32 (toInt32 x) = toInt32 x := by
  unfold toInt32
  exact Int.bmod_bmod

/-- The objects with the offset of `p` moved to `x`. -/
def movedTo (objects : ℕ → Option StubOpenFile) (p : ℕ) (f : StubOpenFile) (x : ℤ) :
    ℕ → Option StubOpenFile :=
  Function.update objects p (some { f with currentOffset := toInt32 x })

theorem transferred_of_offset {s : StubFileSystem} {host : Host} (hp : s.objects p = some f)
    (hfds : host.fds = s.host.fds) (x : ℤ) :
    Transferred s { s with host := host, objects := movedTo s.objects p f x } := by
  refine ⟨rfl, hfds, objectView_update hp _, fun hoff q g hg => ?_⟩
  by_cases hq : q = p
  · subst hq
    simp only [movedTo, Function.update_self, Option.some.injEq] at hg
    rw [← hg]
    exact toInt32_toInt32 x
  · simp only [movedTo, Function.update_of_ne hq] at hg
    exact hoff q g hg

theorem stub_read_spec {s s' : StubFileSystem} {into buff : Buffer}
    (h : s.read p into n = some (r, buff, s')) :
    0 ≤ r ∧ ∃ f, s.objects p = some f ∧
      s' = { s with objects := movedTo s.objects p f (f.currentOffset + r) } := by
  unfold StubFileSystem.read at h
  simp only [Option.bind_eq_bind, Option.bind_eq_some_iff, Option.pure_def, Option.some.injEq,
    Prod.mk.injEq, Prod.exists] at h
  obtain ⟨f, hf, r', buff', hread, hr, -, hs'⟩ := h
  subst hr
  refine ⟨?_, f, hf, hs'.symm⟩
  unfold Host.readPartial at hread
  cases hfd : s.host.fds f.file with
  | none => simp [hfd] at hread
  | some file =>
    simp only [hfd, Option.ite_none_left_eq_some, Option.some.injEq, Prod.mk.injEq] at hread
    rw [← hread.2.1]
    exact Int.natCast_nonneg _

theorem stub_write_spec {s s' : StubFileSystem} {src : Buffer} (h : s.write p src n = some (r, s')) :
    r = n ∧ Transferred s s' := by
  unfold StubFileSystem.write at h
  simp only [Option.bind_eq_bind, Option.bind_eq_some_iff, Option.pure_def, Option.some.injEq,
    Prod.mk.injEq] at h
  obtain ⟨f, hf, host, hwrite, hr, hs'⟩ := h
  refine ⟨hr.symm, ?_⟩
  rw [← hs']
  apply transferred_of_offset hf
  unfold Host.writeFile at hwrite
  cases hfd : s.host.fds f.file with
  | none => simp [hfd] at hwrite
  | some file =>
    simp only [hfd, Option.ite_none_left_eq_some, Option.some.injEq] at hwrite
    rw [← hwrite.2]

theorem StubInv.scRead_spec (h : StubInv s₀ s)
    {console : ℤ × Buffer} {out : Option Buffer}
    (hcall : StubFileSystem.build.scRead s.fs env id charcount buff console =
      some (r, out, fs')) :
    Transferred s.fs fs' ∧ (r < 0 → fs' = s.fs) := by
  obtain hfs | ⟨p, n, into, -, hread, hr⟩ := scRead_cases hcall
  · rw [hfs]
    exact ⟨Transferred.refl _, fun _ => rfl⟩
  obtain ⟨hn, f, hf, hfs⟩ := stub_read_spec hread
  subst hfs
  refine ⟨transferred_of_offset hf rfl _, fun hneg => ?_⟩
  have hn0 : n = 0 := by
    rw [hr] at hneg
    unfold FileBuild.transferred at hneg
    split_ifs at hneg <;> omega
  have hmoved : movedTo s.fs.objects p f (f.currentOffset + n) = s.fs.objects := by
    unfold movedTo
    rw [hn0, add_zero, h.offsets p f hf, ← hf, Function.update_eq_self]
  rw [hmoved]

theorem stub_scWrite_spec {s fs' : StubFileSystem}
    (hcall : StubFileSystem.build.scWrite s env id charcount buff = some (r, fs')) :
    Transferred s fs' ∧ (r < 0 ∨ id = 1 → fs' = s) := by
  obtain ⟨hfs, -⟩ | ⟨hfs, -⟩ | ⟨p, n, hin, -, hwrite, hr⟩ := scWrite_cases hcall
  · rw [hfs]
    exact ⟨Transferred.refl _, fun _ => rfl⟩
  · rw [hfs]
    exact ⟨Transferred.refl _, fun _ => rfl⟩
  · obtain ⟨hn, htrans⟩ := stub_write_spec hwrite
    refine ⟨htrans, fun herr => ?_⟩
    -- a positive count is what the call returns
    unfold FileBuild.transferred at hr
    split_ifs at hr <;> omega

theorem stub_scWrite_refused {s : StubFileSystem} {id : ℕ} (h : EntryType s id 1) :
    StubFileSystem.build.scWrite s env id charcount buff = some (-1, s) := by
  obtain ⟨p, f, hp, hf, ht⟩ := h
  have hfile : StubFileSystem.build.file s (id : ℤ).toNat = some p := hp
  have htype : StubFileSystem.build.typeOf s p = some 1 := by
    simp [StubFileSystem.build, hf, ht]
  unfold FileBuild.scWrite
  by_cases hid : (id : ℤ) ≤ 0 ∨ (id : ℤ) > 9
  · rw [if_pos hid]
  · simp only [if_neg hid, hfile, htype, if_true]

/-! ## One step and whole runs -/

theorem StubInv.transferred (h : StubInv s₀ s) (ht : Transferred s.fs fs') (children : List String) :
    StubInv s₀ { s with fs := fs', children := children } :=
  h.congr ht.file ht.view ht.fds rfl rfl (ht.offsets h.offsets)

theorem EntryType.congr {s s' : StubFileSystem} {id p : ℕ} (h : EntryType s id type)
    (hfile : s'.file id = s.file id) (hne : s.file id ≠ some p)
    (hobj : ∀ q, q ≠ p → s'.objects q = s.objects q) : EntryType s' id type := by
  obtain ⟨q, f, hq, hf, ht⟩ := h
  have hqp : q ≠ p := by
    rintro rfl
    exact hne hq
  exact ⟨q, f, by rw [hfile, hq], by rw [hobj q hqp, hf], ht⟩

theorem StubInv.not_entry (h : StubInv s₀ s) (hp : s.fs.objects p = none) (i : ℕ) :
    s.fs.file i ≠ some p := by
  intro hi
  exact h.objects.mem_marked (mem_objectsHeld_inl hi) hp

theorem StubInv.not_loading (h : StubInv s₀ s) (hp : s.fs.objects p = none) : p ∉ s.loading := by
  intro hmem
  have hheld : p ∈ objectsHeld s.fs.file s.loading (.inr p) := by
    simp [objectsHeld, hmem]
  exact h.objects.mem_marked hheld hp

theorem offsets_taken (h : ∀ q f, objects q = some f → toInt32 f.currentOffset = f.currentOffset) :
    ∀ q f, Function.update objects p (some ⟨fd, 0, type⟩) q = some f →
      toInt32 f.currentOffset = f.currentOffset := by
  intro q f hf
  by_cases hq : q = p
  · subst hq
    rw [Function.update_self, Option.some.injEq] at hf
    rw [← hf]
    show toInt32 0 = 0
    decide
  · rw [Function.update_of_ne hq] at hf
    exact h q f hf

theorem offsets_given_back
    (h : ∀ q f, objects q = some f → toInt32 f.currentOffset = f.currentOffset) :
    ∀ q f, Function.update objects p none q = some f →
      toInt32 f.currentOffset = f.currentOffset := by
  intro q f hf
  by_cases hq : q = p
  · subst hq
    simp at hf
  · rw [Function.update_of_ne hq] at hf
    exact h q f hf

/-- INTERNAL: a filled entry. Its type is the one asked for, so the ids that may only be read
are still entries of type 1. -/
theorem StubInv.opened (h : StubInv s₀ s) (hi : 2 ≤ i) (hnone : s.fs.file i = none)
    (hp : s.fs.objects p = none) (hfd : s.fs.host.fds fd = none)
    (hro : ∀ id, readOnly id = true → s.readOnly id = true ∨ id = i ∧ type = 1)
    (hstdin : readOnly 0 = true) :
    StubInv s₀ { s with
      fs := withEntry (withObject s.fs p fd file type) i (some p)
      readOnly := readOnly } := by
  constructor
  · apply objects_taken h.objects hp (o := .inl i)
    · simp [objectsHeld, hnone]
    · exact objectsHeld_update_file s.fs.file s.loading i (some p)
  · exact fds_withObject h.fds hp hfd
  · exact h.loading
  · intro j hj
    have hne : j ≠ i := by omega
    have hj' : Function.update s.fs.file i (some p) j = s.fs.file j := Function.update_of_ne hne _ _
    simp only [withEntry, withObject, hj']
    exact h.consoles j hj
  · intro id hid
    by_cases hidi : id = i ∧ type = 1
    · right
      refine ⟨p, ⟨fd, 0, type⟩, ?_, ?_, hidi.2⟩
      · simp [withEntry, hidi.1]
      · simp [withEntry, withObject]
    · have hold : s.readOnly id = true := (hro id hid).resolve_right hidi
      apply (h.readOnly id hold).imp_right
      intro hentry
      have hne : id ≠ i := by
        rintro rfl
        obtain ⟨q, f, hq, -⟩ := hentry
        rw [hnone] at hq
        cases hq
      apply hentry.congr (p := p)
      · simp [withEntry, withObject, hne]
      · exact h.not_entry hp id
      · intro q hq
        simp [withEntry, withObject, hq]
  · exact hstdin
  · exact offsets_taken h.offsets

/-- INTERNAL: a freed entry. -/
theorem StubInv.closed (h : StubInv s₀ s) (hi : 2 ≤ i) (hp : s.fs.file i = some p)
    (hf : s.fs.objects p = some f) :
    StubInv s₀ { s with
      fs := withEntry (withoutObject s.fs p f.file) i none
      readOnly := Function.update s.readOnly i false } := by
  constructor
  · apply objects_given_back h.objects (o := .inl i)
    · simp [objectsHeld, hp]
    · exact objectsHeld_update_file s.fs.file s.loading i none
  · exact fds_withoutObject h.fds hf
  · exact h.loading
  · intro j hj
    have hne : j ≠ i := by omega
    have hj' : Function.update s.fs.file i none j = s.fs.file j := Function.update_of_ne hne _ _
    simp only [withEntry, withoutObject, hj']
    exact h.consoles j hj
  · intro id hid
    have hne : id ≠ i := by
      rintro rfl
      simp at hid
    simp only [Function.update_of_ne hne] at hid
    apply (h.readOnly id hid).imp_right
    intro hentry
    apply hentry.congr (p := p)
    · simp [withEntry, withoutObject, hne]
    · intro hid'
      exact hne (h.entry_inj hid' hp)
    · intro q hq
      simp [withEntry, withoutObject, hq]
  · have hne : (0 : ℕ) ≠ i := by omega
    simp only [Function.update_of_ne hne]
    exact h.stdin
  · exact offsets_given_back h.offsets

/-- INTERNAL: the constructor of an address space opens its executable. -/
theorem StubInv.loadOpened (h : StubInv s₀ s) (hp : s.fs.objects p = none)
    (hfd : s.fs.host.fds fd = none) (children : List String) :
    StubInv s₀ { s with
      fs := withObject s.fs p fd file type
      children := children
      loading := p :: s.loading } := by
  constructor
  · apply objects_taken h.objects hp (o := .inr p)
    · simp [objectsHeld, h.not_loading hp]
    · exact objectsHeld_cons s.fs.file s.loading p
  · exact fds_withObject h.fds hp hfd
  · exact List.nodup_cons.mpr ⟨h.not_loading hp, h.loading⟩
  · exact h.consoles
  · intro id hid
    apply (h.readOnly id hid).imp_right
    intro hentry
    apply hentry.congr (p := p)
    · rfl
    · exact h.not_entry hp id
    · intro q hq
      simp [withObject, hq]
  · exact h.stdin
  · exact offsets_taken h.offsets

/-- INTERNAL: the child deletes the executable it has loaded. -/
theorem StubInv.loadClosed (h : StubInv s₀ s) (hp : p ∈ s.loading) (hf : s.fs.objects p = some f) :
    StubInv s₀ { s with fs := withoutObject s.fs p f.file, loading := s.loading.erase p } := by
  have hheld : objectsHeld s.fs.file s.loading (.inr p) = [p] := by
    simp [objectsHeld, hp]
  constructor
  · apply objects_given_back h.objects hheld
    exact objectsHeld_erase s.fs.file h.loading p
  · exact fds_withoutObject h.fds hf
  · exact h.loading.erase p
  · exact h.consoles
  · intro id hid
    apply (h.readOnly id hid).imp_right
    intro hentry
    apply hentry.congr (p := p)
    · rfl
    · intro hid'
      have hmem : p ∈ objectsHeld s.fs.file s.loading (.inr p) := by
        rw [hheld]
        exact List.mem_singleton_self p
      exact h.objects.disjoint _ _ (by simp) p (mem_objectsHeld_inl hid') hmem
    · intro q hq
      simp [withoutObject, hq]
  · exact h.stdin
  · exact offsets_given_back h.offsets

theorem readOnly_after_open {id : ℕ}
    (h : (if r ≠ -1 ∧ type = 1 then Function.update readOnly r.toNat true else readOnly) id =
      true) : readOnly id = true ∨ id = r.toNat ∧ r ≠ -1 ∧ type = 1 := by
  split_ifs at h with hr
  · by_cases hid : id = r.toNat
    · exact Or.inr ⟨hid, hr⟩
    · rw [Function.update_of_ne hid] at h
      exact Or.inl h
  · exact Or.inl h

theorem readOnly_zero_after_open (h : readOnly 0 = true) :
    (if r ≠ -1 ∧ type = 1 then Function.update readOnly r.toNat true else readOnly) 0 = true := by
  split_ifs
  · by_cases hr : (0 : ℕ) = r.toNat
    · rw [← hr, Function.update_self]
    · rw [Function.update_of_ne hr]
      exact h
  · exact h

/-- INTERNAL: `SC_Open` keeps the invariant. -/
theorem StubInv.call_open {s s' : FileCallState StubFileSystem} (h : StubInv s₀ s)
    (hcall : StubFileSystem.build.call s (.open env name type) = some (r, s')) : StubInv s₀ s' := by
  simp only [FileBuild.call, Option.map_eq_some_iff, Prod.mk.injEq, Prod.exists] at hcall
  obtain ⟨r', fs', hopen, hr, hs'⟩ := hcall
  subst hr hs'
  obtain ⟨hfs, hr⟩ | ⟨i, p, fd, file, hr, hlow, -, hnone, hp, hfd, hfs⟩ := h.scOpen_cases hopen
  · subst hfs
    refine ⟨h.objects, h.fds, h.loading, h.consoles, fun id hid => ?_,
      readOnly_zero_after_open h.stdin, h.offsets⟩
    obtain hold | ⟨hid, hne, -⟩ := readOnly_after_open hid
    · exact h.readOnly id hold
    · -- `stdin` and `stdout` are the ids this call can return without an object
      obtain hr | ⟨-, hr⟩ | ⟨-, hr⟩ := hr
      · exact absurd hr hne
      · rw [hid, hr]
        exact h.readOnly 0 h.stdin
      · left
        rw [hid, hr]
        rfl
  · subst hfs
    apply h.opened hlow hnone hp hfd
    · intro id hid
      apply (readOnly_after_open hid).imp_right
      rintro ⟨hid, -, htype⟩
      rw [hr, Int.toNat_natCast] at hid
      exact ⟨hid, htype⟩
    · exact readOnly_zero_after_open h.stdin

theorem StubInv.call_close {s s' : FileCallState StubFileSystem} (h : StubInv s₀ s)
    (hcall : StubFileSystem.build.call s (.close id) = some (r, s')) : StubInv s₀ s' := by
  simp only [FileBuild.call, Option.map_eq_some_iff, Prod.mk.injEq, Prod.exists] at hcall
  obtain ⟨r', fs', hclose, hr, hs'⟩ := hcall
  subst hr hs'
  obtain ⟨heq, -⟩ | ⟨p, f, hid, hp, hf, heq⟩ := h.scClose_cases id
  · rw [hclose, Option.some.injEq, Prod.mk.injEq] at heq
    obtain ⟨hr, hfs⟩ := heq
    subst hr hfs
    exact h
  · rw [hclose, Option.some.injEq, Prod.mk.injEq] at heq
    obtain ⟨hr, hfs⟩ := heq
    subst hr hfs
    exact h.closed (by omega) hp hf

/-- INTERNAL: every step keeps the invariant. -/
theorem StubInv.step {s s' : FileCallState StubFileSystem} (h : StubInv s₀ s)
    {e : FileCall HostAnswer} (hstep : StubFileSystem.build.step s e = some s') :
    StubInv s₀ s' := by
  simp only [FileBuild.step, Option.map_eq_some_iff, Prod.exists] at hstep
  obtain ⟨r, t, hcall, ht⟩ := hstep
  subst ht
  cases e with
  | createFile env name =>
    simp only [FileBuild.call, Option.map_eq_some_iff, Prod.mk.injEq, Prod.exists] at hcall
    obtain ⟨r', fs', hcreate, -, hs'⟩ := hcall
    subst hs'
    obtain hfs | ⟨ok, hcreate⟩ := createFile_cases hcreate
    · rw [hfs]
      exact h
    · have hcreate' : s.fs.create env name 0 = some (ok, fs') := hcreate
      obtain ⟨-, hfile, hobj, hfds⟩ := stub_create_spec hcreate'
      exact h.transferred ⟨hfile, hfds, by rw [hobj], fun hoff => by rwa [hobj]⟩ s.children
  | «open» env name type => exact h.call_open hcall
  | close id => exact h.call_close hcall
  | read env id charcount buff console =>
    simp only [FileBuild.call, Option.map_eq_some_iff, Prod.mk.injEq, Prod.exists] at hcall
    obtain ⟨r', out, fs', hread, -, hs'⟩ := hcall
    subst hs'
    exact h.transferred (h.scRead_spec hread).1 s.children
  | write env id charcount buff =>
    simp only [FileBuild.call, Option.map_eq_some_iff, Prod.mk.injEq, Prod.exists] at hcall
    obtain ⟨r', fs', hwrite, -, hs'⟩ := hcall
    subst hs'
    exact h.transferred (stub_scWrite_spec hwrite).1 s.children
  | exec env env' name pid =>
    simp only [FileBuild.call, Option.map_eq_some_iff, Prod.mk.injEq, Prod.exists] at hcall
    obtain ⟨r', fs', hexec, -, hs'⟩ := hcall
    subst hs'
    rw [stub_exec_eq hexec]
    exact h.transferred (Transferred.refl s.fs) _
  | loadOpen env name =>
    simp only [FileBuild.call, Option.ite_none_right_eq_some, Option.map_eq_some_iff,
      Prod.mk.injEq, Prod.exists] at hcall
    obtain ⟨-, q, fs', hopen, -, hs'⟩ := hcall
    subst hs'
    obtain ⟨hq, hfs⟩ | ⟨p, fd, file, hq, hp, hfd, hfs⟩ := stub_open_cases hopen
    · subst hq hfs
      exact h.transferred (Transferred.refl s.fs) _
    · subst hq hfs
      exact h.loadOpened hp hfd _
  | loadClose p =>
    simp only [FileBuild.call, Option.ite_none_right_eq_some, Option.map_eq_some_iff,
      Prod.mk.injEq] at hcall
    obtain ⟨hmem, fs', hdel, -, hs'⟩ := hcall
    subst hs'
    have hp : p ∈ s.loading := List.contains_iff_mem.mp hmem
    have hheld : p ∈ objectsHeld s.fs.file s.loading (.inr p) := by
      simp [objectsHeld, hp]
    obtain ⟨f, hf, hfd⟩ := h.live hheld
    have hdel' : StubFileSystem.build.delete s.fs p = some (withoutObject s.fs p f.file) :=
      stub_delete_eq hf hfd
    rw [hdel', Option.some.injEq] at hdel
    rw [← hdel]
    exact h.loadClosed hp hf

/-- INTERNAL: a call that reports an error leaves the table and its objects alone. -/
theorem StubInv.error_same {s s' : FileCallState StubFileSystem} (h : StubInv s₀ s)
    {e : FileCall HostAnswer} (hcall : StubFileSystem.build.call s e = some (r, s')) (hneg : r < 0) :
    SameTable s.fs s'.fs := by
  have hsame : s'.fs = s.fs → SameTable s.fs s'.fs := by
    intro heq
    rw [heq]
    exact ⟨rfl, fun _ _ _ => rfl⟩
  cases e with
  | createFile env name =>
    simp only [FileBuild.call, Option.map_eq_some_iff, Prod.mk.injEq, Prod.exists] at hcall
    obtain ⟨r', fs', hcreate, -, hs'⟩ := hcall
    subst hs'
    obtain hfs | ⟨ok, hcreate⟩ := createFile_cases hcreate
    · exact hsame hfs
    · have hcreate' : s.fs.create env name 0 = some (ok, fs') := hcreate
      obtain ⟨-, hfile, hobj, -⟩ := stub_create_spec hcreate'
      exact ⟨hfile, fun _ p _ => congrFun hobj p⟩
  | «open» env name type =>
    simp only [FileBuild.call, Option.map_eq_some_iff, Prod.mk.injEq, Prod.exists] at hcall
    obtain ⟨r', fs', hopen, hr, hs'⟩ := hcall
    subst hr hs'
    obtain ⟨hfs, -⟩ | ⟨i, p, fd, file, hr, -⟩ := h.scOpen_cases hopen
    · exact hsame hfs
    · omega
  | close id =>
    simp only [FileBuild.call, Option.map_eq_some_iff, Prod.mk.injEq, Prod.exists] at hcall
    obtain ⟨r', fs', hclose, hr, hs'⟩ := hcall
    subst hr hs'
    obtain ⟨heq, -⟩ | ⟨p, f, -, -, -, heq⟩ := h.scClose_cases id
    · rw [hclose, Option.some.injEq, Prod.mk.injEq] at heq
      exact hsame heq.2
    · rw [hclose, Option.some.injEq, Prod.mk.injEq] at heq
      omega
  | read env id charcount buff console =>
    simp only [FileBuild.call, Option.map_eq_some_iff, Prod.mk.injEq, Prod.exists] at hcall
    obtain ⟨r', out, fs', hread, hr, hs'⟩ := hcall
    subst hr hs'
    exact hsame ((h.scRead_spec hread).2 hneg)
  | write env id charcount buff =>
    simp only [FileBuild.call, Option.map_eq_some_iff, Prod.mk.injEq, Prod.exists] at hcall
    obtain ⟨r', fs', hwrite, hr, hs'⟩ := hcall
    subst hr hs'
    exact hsame ((stub_scWrite_spec hwrite).2 (Or.inl hneg))
  | exec env env' name pid =>
    simp only [FileBuild.call, Option.map_eq_some_iff, Prod.mk.injEq, Prod.exists] at hcall
    obtain ⟨r', fs', hexec, -, hs'⟩ := hcall
    subst hs'
    exact hsame (stub_exec_eq hexec)
  | loadOpen env name =>
    simp only [FileBuild.call, Option.ite_none_right_eq_some, Option.map_eq_some_iff,
      Prod.mk.injEq] at hcall
    obtain ⟨-, _, -, hr, -⟩ := hcall
    omega
  | loadClose p =>
    simp only [FileBuild.call, Option.ite_none_right_eq_some, Option.map_eq_some_iff,
      Prod.mk.injEq] at hcall
    obtain ⟨-, _, -, hr, -⟩ := hcall
    omega

/-- INTERNAL: what the invariant says of every call. -/
theorem StubInv.good (h : StubInv s₀ s) : DescriptorsGood s₀ s := by
  constructor
  · intro i hi
    obtain ⟨hsame, hne⟩ := h.consoles i hi
    obtain ⟨p, hp⟩ := Option.ne_none_iff_exists'.mp hne
    obtain ⟨f, hf, hfd⟩ := h.live (mem_objectsHeld_inl hp)
    exact ⟨hsame, p, f, hp, hf, hfd⟩
  · intro env name type r s' hin hout hcall
    simp only [FileBuild.call, Option.map_eq_some_iff, Prod.mk.injEq, Prod.exists] at hcall
    obtain ⟨r', fs', hopen, hr, hs'⟩ := hcall
    subst hr hs'
    obtain ⟨-, hr⟩ | ⟨i, p, fd, file, hr, hlow, hhigh, hnone, hp, -, hfs⟩ := h.scOpen_cases hopen
    · left
      simpa [OpenedNothing, hin, hout] using hr
    · right
      subst hfs
      refine ⟨i, p, ⟨fd, 0, type⟩, hr, hlow, hhigh, hnone, hp, rfl, ?_, rfl, fun q hq => ?_⟩
      · simp [withEntry, withObject]
      · simp [withEntry, withObject, hq]
  · intro id
    obtain ⟨heq, hnot⟩ | ⟨p, f, hid, hp, hf, heq⟩ := h.scClose_cases id
    · refine ⟨-1, s, ?_, ?_⟩
      · simp [FileBuild.call, heq]
      · exact ⟨by simpa using hnot, fun h0 => absurd h0 (by decide)⟩
    · refine ⟨0, _, by rw [FileBuild.call, heq]; rfl, ?_⟩
      refine ⟨by simp [hid, hp], fun _ => ⟨rfl, fun i q hi hq => ?_⟩⟩
      have hqp : q ≠ p := by
        rintro rfl
        exact hi (h.entry_inj hq hp)
      simp [withEntry, withoutObject, hqp]
  · intro e r s' hcall hneg
    exact h.error_same hcall hneg
  · intro env id charcount buff hid hone
    have hentry : EntryType s.fs id 1 := (h.readOnly id hid).resolve_left hone
    simp only [FileBuild.call, stub_scWrite_refused hentry, Option.map_some]
  · intro env charcount buff r s' hcall
    simp only [FileBuild.call, Option.map_eq_some_iff, Prod.mk.injEq, Prod.exists] at hcall
    obtain ⟨r', fs', hwrite, -, hs'⟩ := hcall
    subst hs'
    exact (stub_scWrite_spec hwrite).2 (Or.inr rfl)

/-! ## The constructor -/

/-- INTERNAL: the constructor, when it opens both files, starts a run with the invariant. -/
theorem stub_new_inv {host : Host} {env₁ env₂ env₃ env₄ : HostAnswer}
    (hnew : StubFileSystem.new host env₁ env₂ env₃ env₄ = some s₀) (hin : s₀.file 0 ≠ none)
    (hout : s₀.file 1 ≠ none) : StubInv s₀ (.start s₀) := by
  simp only [StubFileSystem.new, Option.bind_eq_bind, Option.bind_eq_some_iff, Option.pure_def,
    Option.some.injEq, Prod.exists] at hnew
  obtain ⟨ok₁, s₁, h₁, ok₂, s₂, h₂, q, s₃, h₃, q', s₄, h₄, hs₀⟩ := hnew
  obtain ⟨-, hfile₁, hobj₁, hfds₁⟩ := stub_create_spec h₁
  obtain ⟨-, hfile₂, hobj₂, hfds₂⟩ := stub_create_spec h₂
  have hobj : ∀ p, s₂.objects p = none := fun p => by rw [hobj₂, hobj₁]
  have hfds : ∀ fd, s₂.host.fds fd = none := fun fd => by rw [hfds₂, hfds₁]
  have hfile : ∀ i, s₂.file i = none := fun i => by rw [hfile₂, hfile₁]
  have hobjects₀ : Owned (objectsHeld s₂.file []) {p | s₂.objects p ≠ none} := by
    apply Owned.of_empty
    · rintro (i | p)
      · simp [objectsHeld, hfile]
      · simp [objectsHeld]
    · simp [hobj]
  have hfds₀ : Owned (fdHeld s₂.objects) {fd | s₂.host.fds fd ≠ none} := by
    apply Owned.of_empty
    · intro p
      simp [fdHeld, hobj]
    · simp [hfds]
  have hfile₃ : s₃.file = s₂.file := stub_open_file h₃
  have hfile₄ : s₄.file = Function.update s₃.file 0 q := stub_open_file h₄
  obtain ⟨p, hq⟩ : ∃ p, q = some p := by
    apply Option.ne_none_iff_exists'.mp
    simpa [← hs₀, hfile₄] using hin
  obtain ⟨p', hq'⟩ : ∃ p', q' = some p' := by
    apply Option.ne_none_iff_exists'.mp
    simpa [← hs₀] using hout
  subst hq hq'
  obtain ⟨fd, file, hp, hfd, hs₃⟩ := stub_open_some h₃
  obtain ⟨fd', file', hp', hfd', hs₄⟩ := stub_open_some h₄
  have hs₀' : s₀ = withEntry (withObject (withEntry (withObject s₂ p fd file 1) 0 (some p))
      p' fd' file' 2) 1 (some p') := by
    rw [← hs₀, hs₄, hs₃]
    rfl
  rw [hs₃] at hp' hfd'
  have hne : p ≠ p' := by
    rintro rfl
    simp [withObject] at hp'
  have hobjects₁ : Owned (objectsHeld (Function.update s₂.file 0 (some p)) [])
      {x | Function.update s₂.objects p (some ⟨fd, 0, 1⟩) x ≠ none} := by
    apply objects_taken hobjects₀ hp (o := .inl 0)
    · simp [objectsHeld, hfile]
    · exact objectsHeld_update_file s₂.file [] 0 (some p)
  have hobjects₂ : Owned
      (objectsHeld (Function.update (Function.update s₂.file 0 (some p)) 1 (some p')) [])
      {x | Function.update (Function.update s₂.objects p (some ⟨fd, 0, 1⟩)) p'
        (some ⟨fd', 0, 2⟩) x ≠ none} := by
    apply objects_taken hobjects₁ hp' (o := .inl 1)
    · simp [objectsHeld, hfile]
    · exact objectsHeld_update_file _ [] 1 (some p')
  subst hs₀'
  constructor
  · exact hobjects₂
  · exact fds_withObject (fds_withObject hfds₀ hp hfd) hp' hfd'
  · exact List.nodup_nil
  · intro i hi
    refine ⟨rfl, ?_⟩
    obtain rfl | rfl : i = 0 ∨ i = 1 := by omega
    · exact hin
    · exact hout
  · intro id hid
    right
    have hid0 : id = 0 := eq_of_beq hid
    subst hid0
    refine ⟨p, ⟨fd, 0, 1⟩, ?_, ?_, rfl⟩
    · simp [FileCallState.start, withEntry, withObject]
    · simp [FileCallState.start, withEntry, withObject, hne]
  · rfl
  · apply offsets_taken
    apply offsets_taken
    intro x f hf
    rw [hobj] at hf
    cases hf

/-! ## The main result -/

/-- SOURCE: userprog/exception.cc:184-350, filesys/filesys.h:47-89 — when the constructor has
opened `stdin` and `stdout`, in every state any sequence of system calls leads to: descriptors
0 and 1 are open; an `Open` of another name returns `-1` or fills exactly one free entry from
2 to 9; a `Close` frees exactly the entry given, and succeeds exactly on an occupied one from 2
to 9; a call that returns an error leaves the table as it was; and a `Write` on a descriptor
other than 1 that has been opened with type 1 returns `-1` and changes nothing, while one on
descriptor 1 reaches no file. -/
theorem stub_descriptors_good (host : Host) (env₁ env₂ env₃ env₄ : HostAnswer)
    (s₀ : StubFileSystem) (hnew : StubFileSystem.new host env₁ env₂ env₃ env₄ = some s₀)
    (hin : s₀.file 0 ≠ none) (hout : s₀.file 1 ≠ none) (es : List (FileCall HostAnswer)) :
    Always StubFileSystem.build.step (DescriptorsGood s₀) (.start s₀) es := by
  have hmeets : Meets StubFileSystem.build.step (fun _ _ => True) (.start s₀) es :=
    meets_of_forall (fun _ _ _ => trivial) _
  exact always_of_meets (fun _ h => h.good) (fun _ _ _ h _ hs => h.step hs)
    (stub_new_inv hnew hin hout) hmeets

/-- A host without files. -/
def emptyHost : Host := ⟨fun _ => none, fun _ => [], fun _ => none⟩

/-- A file is created, opened with type 1, written to in vain and closed. -/
def readOnlyCalls : List (FileCall HostAnswer) :=
  [.createFile ⟨some 5, 3, 0⟩ "a", .open ⟨some 5, 0, 102⟩ "a" 1,
    .write ⟨none, 0, 0⟩ 2 1 (fun _ => 0#8), .close 2]

theorem stub_descriptors_good_readOnlyCalls :
    ∃ s₀, StubFileSystem.new emptyHost ⟨some 3, 1, 0⟩ ⟨some 3, 2, 0⟩ ⟨some 3, 0, 100⟩
        ⟨some 4, 0, 101⟩ = some s₀ ∧
      (run StubFileSystem.build.step (.start s₀) readOnlyCalls).isSome = true ∧
      Always StubFileSystem.build.step (DescriptorsGood s₀) (.start s₀) readOnlyCalls :=
  ⟨_, rfl, rfl, stub_descriptors_good emptyHost ⟨some 3, 1, 0⟩ ⟨some 3, 2, 0⟩ ⟨some 3, 0, 100⟩
    ⟨some 4, 0, 101⟩ _ rfl (by simp) (by simp) _⟩

/-- SOURCE: userprog/exception.cc:214-218, 312-350 — `Open("stdout", 1)` returns descriptor 1,
and a `Write` of one byte on it is not refused. -/
theorem stdout_opened_read_only_is_written :
    ∃ s₀ s₁, StubFileSystem.new emptyHost ⟨some 3, 1, 0⟩ ⟨some 3, 2, 0⟩ ⟨some 3, 0, 100⟩
        ⟨some 4, 0, 101⟩ = some s₀ ∧
      StubFileSystem.build.call (.start s₀) (.open ⟨none, 0, 0⟩ "stdout" 1) = some (1, s₁) ∧
      StubFileSystem.build.call s₁ (.write ⟨none, 0, 0⟩ 1 1 fun _ => 0#8) = some (1, s₁) :=
  ⟨_, _, rfl, rfl, rfl⟩

end Nachos.Analysis
