import Mathlib.Tactic.Common
import Nachos.Model.FileCalls

/-!
# What the file system calls can do

One lemma for each call of `exception.cc`, over any build: either the call returns at once and
the file system is as it was, or it has come through its checks to the operation of the build.
`BuildKeeps.step` is the rule for properties of the file system alone: what every operation
keeps, every call keeps.
-/

set_option autoImplicit false

namespace Nachos.Analysis

open Nachos.Model

variable {id r : ℤ} {name : String} {buff : Buffer}

section Cases

variable {σ κ : Type} {b : FileBuild σ κ} {s s' : σ}

theorem createFile_cases {env : κ} (h : b.createFile s env name = some (r, s')) :
    s' = s ∨ ∃ ok, b.create s env name 0 = some (ok, s') := by
  unfold FileBuild.createFile at h
  split_ifs at h
  · simp only [Option.some.injEq, Prod.mk.injEq] at h
    exact Or.inl h.2.symm
  · simp only [Option.map_eq_some_iff, Prod.mk.injEq, Prod.exists] at h
    obtain ⟨ok, t, hcreate, -, ht⟩ := h
    subst ht
    exact Or.inr ⟨ok, hcreate⟩

/-- What `SC_Open` returns when it opens nothing. -/
def OpenedNothing (name : String) (r : ℤ) : Prop :=
  r = -1 ∨ name = "stdin" ∧ r = 0 ∨ name = "stdout" ∧ r = 1

/-- `SC_Open` comes to look the name up. -/
def LooksUp (name : String) (type : ℤ) : Prop :=
  (type = 0 ∨ type = 1) ∧ name ≠ "stdin" ∧ name ≠ "stdout"

/-- INTERNAL: `SC_Open`. -/
theorem scOpen_cases {env : κ} {type r : ℤ} (h : b.scOpen s env name type = some (r, s')) :
    (s' = s ∧ OpenedNothing name r ∧ (LooksUp name type → b.freeIndex s = none)) ∨
      ∃ i p t, LooksUp name type ∧ b.freeIndex s = some i ∧
        b.openFileType s env name type = some (p, t) ∧
        r = (if p.isSome then (i : ℤ) else -1) ∧ s' = b.setFile t i p := by
  unfold FileBuild.scOpen at h
  by_cases htype : type ≠ 0 ∧ type ≠ 1
  · rw [if_pos htype, Option.some.injEq, Prod.mk.injEq] at h
    refine Or.inl ⟨h.2.symm, Or.inl h.1.symm, fun hlooks => ?_⟩
    have := hlooks.1
    omega
  rw [if_neg htype] at h
  by_cases hin : name = "stdin"
  · rw [if_pos hin, Option.some.injEq, Prod.mk.injEq] at h
    exact Or.inl ⟨h.2.symm, Or.inr (Or.inl ⟨hin, h.1.symm⟩), fun hlooks => absurd hin hlooks.2.1⟩
  rw [if_neg hin] at h
  by_cases hout : name = "stdout"
  · rw [if_pos hout, Option.some.injEq, Prod.mk.injEq] at h
    exact Or.inl ⟨h.2.symm, Or.inr (Or.inr ⟨hout, h.1.symm⟩), fun hlooks => absurd hout hlooks.2.2⟩
  rw [if_neg hout] at h
  cases hfree : b.freeIndex s with
  | none =>
    simp only [hfree, Option.some.injEq, Prod.mk.injEq] at h
    exact Or.inl ⟨h.2.symm, Or.inl h.1.symm, fun _ => rfl⟩
  | some i =>
    cases hopen : b.openFileType s env name type with
    | none => simp [hfree, hopen] at h
    | some a =>
      obtain ⟨p, t⟩ := a
      simp only [hfree, hopen, Option.some.injEq, Prod.mk.injEq] at h
      exact Or.inr ⟨i, p, t, ⟨by omega, hin, hout⟩, rfl, rfl, h.1.symm, h.2.symm⟩

theorem scClose_cases (h : b.scClose s id = some (r, s')) :
    (s' = s ∧ r = -1 ∧ ¬(2 ≤ id ∧ id ≤ 9 ∧ b.file s id.toNat ≠ none)) ∨
      ∃ p t, (2 ≤ id ∧ id ≤ 9) ∧ b.file s id.toNat = some p ∧ b.delete s p = some t ∧ r = 0 ∧
        s' = b.setFile t id.toNat none := by
  unfold FileBuild.scClose at h
  by_cases hid : id < 2 ∨ id > 9
  · rw [if_pos hid, Option.some.injEq, Prod.mk.injEq] at h
    exact Or.inl ⟨h.2.symm, h.1.symm, by omega⟩
  rw [if_neg hid] at h
  cases hp : b.file s id.toNat with
  | none =>
    simp only [hp, Option.some.injEq, Prod.mk.injEq] at h
    exact Or.inl ⟨h.2.symm, h.1.symm, by simp⟩
  | some p =>
    simp only [hp, Option.map_eq_some_iff, Prod.mk.injEq] at h
    obtain ⟨t, hdel, hr, hs'⟩ := h
    exact Or.inr ⟨p, t, by omega, rfl, hdel, hr.symm, hs'.symm⟩

/-- INTERNAL: `SC_Read`. -/
theorem scRead_cases {env : κ} {id charcount r : ℤ} {console : ℤ × Buffer} {out : Option Buffer}
    (h : b.scRead s env id charcount buff console = some (r, out, s')) :
    s' = s ∨ ∃ p n into, b.file s id.toNat = some p ∧
      b.read s env p buff charcount = some (n, into, s') ∧ r = FileBuild.transferred n := by
  unfold FileBuild.scRead at h
  by_cases hid : id < 0 ∨ id = 1 ∨ id > 9
  · rw [if_pos hid] at h
    simp only [Option.some.injEq, Prod.mk.injEq] at h
    exact Or.inl h.2.2.symm
  rw [if_neg hid] at h
  cases hp : b.file s id.toNat with
  | none =>
    simp only [hp, Option.some.injEq, Prod.mk.injEq] at h
    exact Or.inl h.2.2.symm
  | some p =>
    by_cases hcount : charcount ≤ 0
    · simp only [hp, if_pos hcount, Option.some.injEq, Prod.mk.injEq] at h
      exact Or.inl h.2.2.symm
    simp only [hp, if_neg hcount, Option.map_eq_some_iff, Prod.mk.injEq, Prod.exists] at h
    obtain ⟨n, into, t, hread, hr, -, ht⟩ := h
    subst ht
    by_cases hzero : id = 0
    · rw [if_pos hzero] at hread
      simp only [Option.some.injEq, Prod.mk.injEq] at hread
      exact Or.inl hread.2.2.symm
    · rw [if_neg hzero] at hread
      exact Or.inr ⟨p, n, into, rfl, hread, hr.symm⟩

/-- INTERNAL: `SC_Write`: refused, to the console, or to a file. -/
theorem scWrite_cases {env : κ} {id charcount r : ℤ}
    (h : b.scWrite s env id charcount buff = some (r, s')) :
    (s' = s ∧ r = -1 ∧ (id ≤ 0 ∨ 9 < id ∨ b.file s id.toNat = none ∨ charcount ≤ 0 ∨
        ∃ p, b.file s id.toNat = some p ∧ b.typeOf s p = some 1)) ∨
      (s' = s ∧ id = 1 ∧ b.file s id.toNat ≠ none ∧ 0 < charcount ∧ r = charcount) ∨
      ∃ p n, (1 < id ∧ id ≤ 9 ∧ 0 < charcount) ∧ b.file s id.toNat = some p ∧
        b.write s env p buff charcount = some (n, s') ∧ r = FileBuild.transferred n := by
  unfold FileBuild.scWrite at h
  by_cases hid : id ≤ 0 ∨ id > 9
  · rw [if_pos hid, Option.some.injEq, Prod.mk.injEq] at h
    exact Or.inl ⟨h.2.symm, h.1.symm, by omega⟩
  rw [if_neg hid] at h
  cases hp : b.file s id.toNat with
  | none =>
    simp only [hp, Option.some.injEq, Prod.mk.injEq] at h
    exact Or.inl ⟨h.2.symm, h.1.symm, Or.inr (Or.inr (Or.inl rfl))⟩
  | some p =>
    cases htype : b.typeOf s p with
    | none => simp [hp, htype] at h
    | some type =>
      by_cases hro : type = 1
      · subst hro
        simp only [hp, htype, if_true, Option.some.injEq, Prod.mk.injEq] at h
        exact Or.inl ⟨h.2.symm, h.1.symm, Or.inr (Or.inr (Or.inr (Or.inr ⟨p, rfl, htype⟩)))⟩
      by_cases hcount : charcount ≤ 0
      · simp only [hp, htype, if_neg hro, if_pos hcount, Option.some.injEq, Prod.mk.injEq] at h
        exact Or.inl ⟨h.2.symm, h.1.symm, Or.inr (Or.inr (Or.inr (Or.inl hcount)))⟩
      simp only [hp, htype, if_neg hro, if_neg hcount, Option.map_eq_some_iff, Prod.mk.injEq,
        Prod.exists] at h
      obtain ⟨n, t, hwrite, hr, ht⟩ := h
      subst ht
      right
      by_cases hone : id = 1
      · rw [if_pos hone, Option.some.injEq, Prod.mk.injEq] at hwrite
        refine Or.inl ⟨hwrite.2.symm, hone, by simp, by omega, ?_⟩
        rw [← hr, ← hwrite.1]
        unfold FileBuild.transferred
        rw [if_neg (by omega), if_neg (by omega)]
      · rw [if_neg hone] at hwrite
        exact Or.inr ⟨p, n, by omega, rfl, hwrite, hr.symm⟩

theorem scWrite_of_write {env : κ} {id p : ℕ} {charcount type n : ℤ} (hid : 1 < id ∧ id ≤ 9)
    (hp : b.file s id = some p) (htype : b.typeOf s p = some type) (hro : type ≠ 1)
    (hcount : 0 < charcount) (hwrite : b.write s env p buff charcount = some (n, s')) :
    b.scWrite s env id charcount buff = some (FileBuild.transferred n, s') := by
  have hp' : b.file s (id : ℤ).toNat = some p := hp
  unfold FileBuild.scWrite
  rw [if_neg (by omega), hp']
  simp only [htype, if_neg hro, if_neg (not_le.mpr hcount),
    if_neg (show ¬ (id : ℤ) = 1 by omega), hwrite, Option.map_some]

theorem probe_cases {env : κ} {ok : Bool} (h : b.probe s env name = some (ok, s')) :
    (ok = false ∧ b.openFile s env name = some (none, s')) ∨
      ∃ p t, ok = true ∧ b.openFile s env name = some (some p, t) ∧ b.delete t p = some s' := by
  unfold FileBuild.probe at h
  cases hopen : b.openFile s env name with
  | none => simp [hopen] at h
  | some a =>
    obtain ⟨r, t⟩ := a
    cases r with
    | none =>
      simp only [hopen, Option.some.injEq, Prod.mk.injEq] at h
      exact Or.inl ⟨h.1.symm, by rw [h.2]⟩
    | some p =>
      simp only [hopen, Option.map_eq_some_iff, Prod.mk.injEq] at h
      obtain ⟨u, hdel, hok, hu⟩ := h
      exact Or.inr ⟨p, t, hok.symm, rfl, by rw [hdel, hu]⟩

theorem scExec_cases {env env' : κ} {pid r : ℤ} (h : b.scExec s env env' name pid = some (r, s')) :
    (r = -1 ∧ b.probe s env name = some (false, s')) ∨
      ∃ t ok, b.probe s env name = some (true, t) ∧ b.probe t env' name = some (ok, s') := by
  unfold FileBuild.scExec at h
  cases h₁ : b.probe s env name with
  | none => simp [h₁] at h
  | some a =>
    obtain ⟨ok, t⟩ := a
    cases ok with
    | false =>
      simp only [h₁, Option.some.injEq, Prod.mk.injEq] at h
      exact Or.inl ⟨h.1.symm, by rw [h.2]⟩
    | true =>
      simp only [h₁, Option.map_eq_some_iff, Prod.mk.injEq, Prod.exists] at h
      obtain ⟨ok', u, h₂, -, hu⟩ := h
      exact Or.inr ⟨t, ok', rfl, by rw [h₂, hu]⟩

end Cases

/-! ## What every operation keeps -/

section Keeps

variable {σ κ : Type}

/-- Every operation of the build keeps `I`. -/
structure BuildKeeps (b : FileBuild σ κ) (I : σ → Prop) : Prop where
  setFile : ∀ s i p, I s → I (b.setFile s i p)
  create : ∀ s env name n ok s', I s → b.create s env name n = some (ok, s') → I s'
  openFile : ∀ s env name r s', I s → b.openFile s env name = some (r, s') → I s'
  openFileType : ∀ s env name type r s', I s → b.openFileType s env name type = some (r, s') → I s'
  delete : ∀ s p s', I s → b.delete s p = some s' → I s'
  read : ∀ s env p into n r into' s', I s → b.read s env p into n = some (r, into', s') → I s'
  write : ∀ s env p src n r s', I s → b.write s env p src n = some (r, s') → I s'

variable {b : FileBuild σ κ} {I : σ → Prop}

theorem BuildKeeps.probe (h : BuildKeeps b I) {s s' : σ} {env : κ} {ok : Bool} (hs : I s)
    (hprobe : b.probe s env name = some (ok, s')) : I s' := by
  obtain ⟨-, hopen⟩ | ⟨p, t, -, hopen, hdel⟩ := probe_cases hprobe
  · exact h.openFile s env name none s' hs hopen
  · exact h.delete t p s' (h.openFile s env name (some p) t hs hopen) hdel

/-- INTERNAL: **what every operation keeps, every system call keeps.**
SRCLINE: userprog/exception.cc:157-383 -/
theorem BuildKeeps.step (h : BuildKeeps b I) {s s' : FileCallState σ} {e : FileCall κ}
    (hs : I s.fs) (hstep : b.step s e = some s') : I s'.fs := by
  simp only [FileBuild.step, Option.map_eq_some_iff, Prod.exists] at hstep
  obtain ⟨r, t, hcall, ht⟩ := hstep
  subst ht
  cases e with
  | createFile env name =>
    simp only [FileBuild.call, Option.map_eq_some_iff, Prod.mk.injEq, Prod.exists] at hcall
    obtain ⟨r', fs', hcreate, -, rfl⟩ := hcall
    obtain rfl | ⟨ok, hcreate⟩ := createFile_cases hcreate
    · exact hs
    · exact h.create _ _ _ _ ok fs' hs hcreate
  | «open» env name type =>
    simp only [FileBuild.call, Option.map_eq_some_iff, Prod.mk.injEq, Prod.exists] at hcall
    obtain ⟨r', fs', hopen, -, rfl⟩ := hcall
    obtain ⟨rfl, -⟩ | ⟨i, p, t, -, -, hmade, -, rfl⟩ := scOpen_cases hopen
    · exact hs
    · exact h.setFile t i p (h.openFileType _ _ _ _ p t hs hmade)
  | close id =>
    simp only [FileBuild.call, Option.map_eq_some_iff, Prod.mk.injEq, Prod.exists] at hcall
    obtain ⟨r', fs', hclose, -, rfl⟩ := hcall
    obtain ⟨rfl, -⟩ | ⟨p, t, -, -, hdel, -, rfl⟩ := scClose_cases hclose
    · exact hs
    · exact h.setFile t _ _ (h.delete _ p t hs hdel)
  | read env id charcount buff console =>
    simp only [FileBuild.call, Option.map_eq_some_iff, Prod.mk.injEq, Prod.exists] at hcall
    obtain ⟨r', out, fs', hread, -, rfl⟩ := hcall
    obtain rfl | ⟨p, n, into, -, hread, -⟩ := scRead_cases hread
    · exact hs
    · exact h.read _ _ p _ _ n into fs' hs hread
  | write env id charcount buff =>
    simp only [FileBuild.call, Option.map_eq_some_iff, Prod.mk.injEq, Prod.exists] at hcall
    obtain ⟨r', fs', hwrite, -, rfl⟩ := hcall
    obtain ⟨rfl, -⟩ | ⟨rfl, -⟩ | ⟨p, n, -, -, hwrite, -⟩ := scWrite_cases hwrite
    · exact hs
    · exact hs
    · exact h.write _ _ p _ _ n fs' hs hwrite
  | exec env env' name pid =>
    simp only [FileBuild.call, Option.map_eq_some_iff, Prod.mk.injEq, Prod.exists] at hcall
    obtain ⟨r', fs', hexec, -, rfl⟩ := hcall
    obtain ⟨-, hprobe⟩ | ⟨t, ok, h₁, h₂⟩ := scExec_cases hexec
    · exact h.probe hs hprobe
    · exact h.probe (h.probe hs h₁) h₂
  | loadOpen env name =>
    simp only [FileBuild.call, Option.ite_none_right_eq_some, Option.map_eq_some_iff,
      Prod.mk.injEq, Prod.exists] at hcall
    obtain ⟨-, q, fs', hopen, -, rfl⟩ := hcall
    exact h.openFile _ _ _ q fs' hs hopen
  | loadClose p =>
    simp only [FileBuild.call, Option.ite_none_right_eq_some, Option.map_eq_some_iff,
      Prod.mk.injEq] at hcall
    obtain ⟨-, fs', hdel, -, rfl⟩ := hcall
    exact h.delete _ p fs' hs hdel

end Keeps

end Nachos.Analysis
