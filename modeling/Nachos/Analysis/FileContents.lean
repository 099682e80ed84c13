import Nachos.Analysis.WordArithmetic
import Nachos.Model.OpenFile

/-!
# An open file is an array of bytes

`content hdr d k` is byte `k` of the file with header `hdr` on disk `d`: byte
`k % SectorSize` of the data sector `k / SectorSize`. For a header whose data sectors are
distinct sectors of the disk and cover its length (`LaidOut`), `ReadAt` copies bytes of
the content and `WriteAt` replaces bytes of it and touches no sector of another file.

A write has to keep the bytes around it in its first and last sector, and reads these
first (`readEdges`). What it may lose is the tail of the last sector behind the end of
the file, which is not content.
-/

set_option autoImplicit false

namespace Nachos.Analysis

open Nachos.Model

variable {c i k m p : ℕ}

/-- INTERNAL: data sector `i` of a header.
SRCLINE: filesys/filehdr.h:60 -/
def dataSector (hdr : FileHeader) (i : ℕ) : ℤ := (hdr.sectorAt i).getD 0

/-- INTERNAL: byte `k` of a file.
SRCLINE: filesys/filehdr.cc:106-110 -/
def content (hdr : FileHeader) (d : DiskImage) (k : ℕ) : Byte :=
  d (dataSector hdr (k / sectorSize)).toNat ⟨k % sectorSize, Nat.mod_lt k sectorSize_pos⟩

/-- INTERNAL: the first `n` data sectors are distinct sectors of the disk and cover the
file.
SRCLINE: filesys/filehdr.cc:41-52 -/
structure LaidOut (hdr : FileHeader) (n : ℕ) : Prop where
  le : n ≤ numDirect
  nonneg : 0 ≤ hdr.fileLength
  covers : hdr.fileLength ≤ n * sectorSize
  valid : ∀ i < n, ValidSector (dataSector hdr i)
  inj : ∀ i < n, ∀ j < n, dataSector hdr i = dataSector hdr j → i = j

theorem sectorAt_eq (hdr : FileHeader) (h : i < numDirect) :
    hdr.sectorAt i = some (dataSector hdr i) := by
  simp [dataSector, FileHeader.sectorAt, h]

theorem dataSector_eq {hdr : FileHeader} (h : i < numDirect) :
    dataSector hdr i = (hdr.dataSectors ⟨i, h⟩).toInt := by
  simp [dataSector, FileHeader.sectorAt, h]

section LaidOutFile

variable {hdr : FileHeader} {n : ℕ}

theorem LaidOut.byteToSector (h : LaidOut hdr n) {first j : ℕ} (hi : first + j < n) :
    hdr.byteToSector (((first : ℤ) + j) * sectorSize) = some (dataSector hdr (first + j)) := by
  have hdiv : (((first : ℤ) + j) * sectorSize).tdiv sectorSize = ((first + j : ℕ) : ℤ) := by
    rw [Int.mul_tdiv_cancel _ (by simp [sectorSize])]
    push_cast
    rfl
  unfold FileHeader.byteToSector
  rw [hdiv]
  exact sectorAt_eq hdr (hi.trans_le h.le)

/-! ## Whole sectors -/

theorem content_shift (hdr : FileHeader) (d : DiskImage) (first k : ℕ) :
    content hdr d (first * sectorSize + k) =
      d (dataSector hdr (first + k / sectorSize)).toNat
        ⟨k % sectorSize, Nat.mod_lt _ (by decide)⟩ := by
  have hdiv : (first * sectorSize + k) / sectorSize = first + k / sectorSize := by
    simp only [sectorSize]
    omega
  have hmod : (first * sectorSize + k) % sectorSize = k % sectorSize := by
    simp only [sectorSize]
    omega
  simp only [content, hdiv, hmod]

/-- INTERNAL: the reading loop fills `buf` with the content from its first sector on. -/
theorem LaidOut.readSectors (h : LaidOut hdr n) (d : DiskImage) (first cnt : ℕ) :
    ∀ (j : ℕ) (buf : Buffer), first + j + cnt ≤ n →
    OpenFile.readSectors hdr d first j cnt buf = some fun k =>
      if j ≤ k / sectorSize ∧ k / sectorSize < j + cnt then content hdr d (first * sectorSize + k)
      else buf k := by
  induction cnt with
  | zero =>
    intro j buf _
    have hno : ∀ k, ¬ (j ≤ k / sectorSize ∧ k / sectorSize < j + 0) := fun k => by omega
    simp only [OpenFile.readSectors, hno, if_false]
  | succ cnt ih =>
    intro j buf hle
    have hread : d.readSector (dataSector hdr (first + j)) =
        some (d (dataSector hdr (first + j)).toNat) :=
      if_pos (h.valid _ (by omega))
    simp only [OpenFile.readSectors, h.byteToSector (show first + j < n by omega), hread,
      Option.bind_eq_bind, Option.bind_some]
    rw [ih (j + 1) _ (by omega)]
    refine congrArg some (funext fun k => ?_)
    by_cases hj : k / sectorSize = j
    · have h₁ : ¬ (j + 1 ≤ k / sectorSize ∧ k / sectorSize < j + 1 + cnt) := by omega
      have h₂ : j ≤ k / sectorSize ∧ k / sectorSize < j + (cnt + 1) := by omega
      rw [if_neg h₁, if_pos h₂, if_pos hj, content_shift, hj]
    · have hiff : (j + 1 ≤ k / sectorSize ∧ k / sectorSize < j + 1 + cnt) ↔
          (j ≤ k / sectorSize ∧ k / sectorSize < j + (cnt + 1)) := by omega
      simp only [hiff, hj, if_false]

/-- INTERNAL: writing one sector of the file changes its bytes to those written, and nothing
outside the file. -/
theorem LaidOut.writeSector (h : LaidOut hdr n) (d : DiskImage) (hi : i < n) (data : Sector) :
    ∃ d', d.writeSector (dataSector hdr i) data = some d' ∧
      (∀ k < n * sectorSize, content hdr d' k =
        if k / sectorSize = i then data ⟨k % sectorSize, Nat.mod_lt _ (by decide)⟩
        else content hdr d k) ∧
      ∀ s, (dataSector hdr i).toNat ≠ s → d' s = d s := by
  refine ⟨Function.update d (dataSector hdr i).toNat data, if_pos (h.valid i hi), ?_, ?_⟩
  · intro k hk
    have hkn : k / sectorSize < n := Nat.div_lt_of_lt_mul (by rwa [Nat.mul_comm])
    unfold content
    split
    · rename_i heq
      rw [heq, Function.update_self]
    · rename_i hne
      rw [Function.update_of_ne]
      intro heq
      apply hne
      apply h.inj _ hkn _ hi
      have h₁ := (h.valid _ hkn).1
      have h₂ := (h.valid _ hi).1
      omega
  · intro s hs
    exact Function.update_of_ne hs.symm _ _

/-- INTERNAL: the writing loop replaces the content sector by sector. -/
theorem LaidOut.writeSectors (h : LaidOut hdr n) (buf : Buffer) (first cnt : ℕ) :
    ∀ (j : ℕ) (d : DiskImage), first + j + cnt ≤ n →
    ∃ d', OpenFile.writeSectors hdr buf first j cnt d = some d' ∧
      (∀ k < n * sectorSize, content hdr d' k =
        if first + j ≤ k / sectorSize ∧ k / sectorSize < first + j + cnt then
          buf (k - first * sectorSize)
        else content hdr d k) ∧
      ∀ s, (∀ i, first + j ≤ i → i < first + j + cnt → (dataSector hdr i).toNat ≠ s) →
        d' s = d s := by
  induction cnt with
  | zero =>
    intro j d _
    refine ⟨d, rfl, fun k _ => ?_, fun _ _ => rfl⟩
    rw [if_neg]
    omega
  | succ cnt ih =>
    intro j d hle
    obtain ⟨d₁, hwrite, hcontent₁, hother₁⟩ :=
      h.writeSector d (show first + j < n by omega) fun k => buf (j * sectorSize + k)
    obtain ⟨d', hrun, hcontent, hother⟩ := ih (j + 1) d₁ (by omega)
    refine ⟨d', ?_, fun k hk => ?_, fun s hs => ?_⟩
    · simp only [OpenFile.writeSectors, h.byteToSector (show first + j < n by omega), hwrite,
        Option.bind_eq_bind, Option.bind_some, hrun]
    · rw [hcontent k hk, hcontent₁ k hk]
      by_cases hj : k / sectorSize = first + j
      · have h₁ : ¬ (first + (j + 1) ≤ k / sectorSize ∧ k / sectorSize < first + (j + 1) + cnt) := by
          omega
        have h₂ : first + j ≤ k / sectorSize ∧ k / sectorSize < first + j + (cnt + 1) := by omega
        have hidx : j * sectorSize + k % sectorSize = k - first * sectorSize := by
          have := Nat.div_add_mod k sectorSize
          simp only [sectorSize] at *
          omega
        rw [if_neg h₁, if_pos h₂, if_pos hj]
        exact congrArg buf hidx
      · have hiff : (first + (j + 1) ≤ k / sectorSize ∧ k / sectorSize < first + (j + 1) + cnt) ↔
            (first + j ≤ k / sectorSize ∧ k / sectorSize < first + j + (cnt + 1)) := by omega
        simp only [hiff, hj, if_false]
    · rw [hother s fun i h₁ h₂ => hs i (by omega) (by omega),
        hother₁ s (hs (first + j) le_rfl (by omega))]

theorem LaidOut.content_congr (h : LaidOut hdr n) {d d' : DiskImage}
    (hsame : ∀ i < n, d' (dataSector hdr i).toNat = d (dataSector hdr i).toNat)
    (hk : (k : ℤ) < hdr.fileLength) : content hdr d' k = content hdr d k := by
  have hcover := h.covers
  have hlt : k / sectorSize < n := by
    simp only [sectorSize] at *
    omega
  unfold content
  rw [hsame _ hlt]

end LaidOutFile

/-! ## Requests -/

/-- INTERNAL: the bytes a request of `m` bytes at `p` gets of a file of `len`.
SRCLINE: filesys/openfile.cc:132-135 -/
def granted (len m p : ℕ) : ℕ := min m (len - p)

section Requests

variable {f : OpenFile} {n len : ℕ}

theorem clip_eq (hlen : f.hdr.fileLength = len) (hbig : len ≤ 2 ^ 30) (hp : p < len)
    (hmp : p + m < 2 ^ 31) : f.clip m p = (granted len m p : ℤ) := by
  have h₁ : toInt32 ((p : ℤ) + m) = p + m := toInt32_of_lt (by omega) (by omega)
  have h₂ : toInt32 ((len : ℤ) - p) = len - p := toInt32_of_lt (by omega) (by omega)
  unfold OpenFile.clip OpenFile.length granted
  rw [hlen, h₁, h₂]
  split <;> omega

theorem sectorRange_eq (hc : 0 < c) (hcp : p + c < 2 ^ 31) :
    OpenFile.sectorRange c p = (((p / sectorSize : ℕ) : ℤ), (((p + c - 1) / sectorSize : ℕ) : ℤ)) := by
  have h₁ : toInt32 ((p : ℤ) + c - 1) = ((p + c - 1 : ℕ) : ℤ) := by
    rw [toInt32_of_lt (by omega) (by omega)]
    omega
  unfold OpenFile.sectorRange divRoundDown
  rw [h₁, Int.tdiv_eq_ediv_of_nonneg (Int.natCast_nonneg _),
    Int.tdiv_eq_ediv_of_nonneg (Int.natCast_nonneg _), Int.natCast_ediv, Int.natCast_ediv]

theorem fitsBuf_eq (hc : 0 < c) (hcp : p + c < 2 ^ 31) : OpenFile.fitsBuf c p = true := by
  unfold OpenFile.fitsBuf
  rw [sectorRange_eq hc hcp]
  apply decide_eq_true
  simp only [sectorSize]
  omega

/-- INTERNAL: how many sectors a request takes.
SRCLINE: filesys/openfile.cc:141 -/
def sectorCount (c p : ℕ) : ℕ := (p + c - 1) / sectorSize + 1 - p / sectorSize

theorem sectorCount_eq (hc : 0 < c) :
    (1 + (((p + c - 1) / sectorSize : ℕ) : ℤ) - ((p / sectorSize : ℕ) : ℤ)).toNat =
      sectorCount c p := by
  unfold sectorCount
  have : p / sectorSize ≤ (p + c - 1) / sectorSize := Nat.div_le_div_right (by omega)
  omega

theorem LaidOut.sectorCount_le (h : LaidOut f.hdr n) (hlen : f.hdr.fileLength = len) (hc : 0 < c)
    (hcp : p + c ≤ len) : p / sectorSize + 0 + sectorCount c p ≤ n := by
  have hcover := h.covers
  rw [hlen] at hcover
  have hle : len ≤ n * sectorSize := by exact_mod_cast hcover
  unfold sectorCount
  simp only [sectorSize] at *
  omega

theorem LaidOut.len_le (h : LaidOut f.hdr n) (hlen : f.hdr.fileLength = len) : len ≤ 2 ^ 30 := by
  have hcover := h.covers
  have hle := h.le
  rw [hlen] at hcover
  simp only [numDirect, sectorSize] at *
  omega

theorem LaidOut.div_lt_of_granted (h : LaidOut f.hdr n) (hlen : f.hdr.fileLength = len) (hp : p ≤ k)
    (hk : k < p + granted len m p) : k / sectorSize < n := by
  have hcovers := h.covers
  rw [hlen] at hcovers
  unfold granted at hk
  simp only [sectorSize] at *
  omega

/-- INTERNAL: **`ReadAt` reads the content.** It copies the bytes from `p` on that the file
has, up to `m` of them, and leaves the rest of the buffer.
SRCLINE: filesys/openfile.cc:125-153 -/
theorem LaidOut.readAt (h : LaidOut f.hdr n) (hlen : f.hdr.fileLength = len) (d : DiskImage)
    (into : Buffer) (hmp : p + m < 2 ^ 31) :
    f.readAt d into m p = some (fun k =>
      if k < granted len m p then content f.hdr d (p + k) else into k, (granted len m p : ℤ)) := by
  have hbig := h.len_le hlen
  unfold OpenFile.readAt
  by_cases hnone : m = 0 ∨ len ≤ p
  · have hg : granted len m p = 0 := by
      unfold granted
      omega
    have hcond : (m : ℤ) ≤ 0 ∨ (p : ℤ) ≥ f.length := by
      unfold OpenFile.length
      omega
    rw [if_pos hcond, hg]
    simp
  · rw [not_or, not_le] at hnone
    have hc : 0 < granted len m p := by
      unfold granted
      omega
    have hcp : p + granted len m p ≤ len := by
      unfold granted
      omega
    have hcond : ¬ ((m : ℤ) ≤ 0 ∨ (p : ℤ) ≥ f.length) := by
      unfold OpenFile.length
      omega
    have hcond' : ¬ ((p : ℤ) < 0 ∨ (!OpenFile.fitsBuf (granted len m p) p) = true) := by
      rw [fitsBuf_eq hc (by omega)]
      simp
    rw [if_neg hcond]
    simp only [clip_eq hlen hbig hnone.2 hmp, sectorRange_eq hc (show p + granted len m p < 2 ^ 31 by omega),
      if_neg hcond', sectorCount_eq hc, h.readSectors d _ _ 0 _ (h.sectorCount_le hlen hc hcp),
      Option.bind_eq_bind, Option.bind_some, Option.pure_def, Option.some.injEq, Prod.mk.injEq,
      and_true]
    funext k
    by_cases hk : k < granted len m p
    · have hstart : ((p : ℤ) - ((p / sectorSize : ℕ) : ℤ) * sectorSize).toNat = p % sectorSize := by
        have := Nat.div_add_mod p sectorSize
        simp only [sectorSize] at *
        omega
      have hin : 0 ≤ (p % sectorSize + k) / sectorSize ∧
          (p % sectorSize + k) / sectorSize < 0 + sectorCount (granted len m p) p := by
        unfold sectorCount
        simp only [sectorSize]
        omega
      have hidx : p / sectorSize * sectorSize + (p % sectorSize + k) = p + k := by
        simp only [sectorSize]
        omega
      rw [if_pos (by omega), if_pos hk, hstart, if_pos hin, hidx]
    · rw [if_neg (by omega), if_neg hk]

/-- INTERNAL: `ReadAt` of one sector into the middle of a buffer. -/
theorem LaidOut.readAtOffset (h : LaidOut f.hdr n) (hlen : f.hdr.fileLength = len) (d : DiskImage)
    (buf : Buffer) (offset : ℕ) (hi : i * sectorSize < len) :
    f.readAtOffset d buf offset sectorSize ((i : ℤ) * sectorSize) = some fun k =>
      if offset ≤ k ∧ k - offset < granted len sectorSize (i * sectorSize) then
        content f.hdr d (i * sectorSize + (k - offset))
      else buf k := by
  have hbig := h.len_le hlen
  have hcast : ((i : ℤ) * sectorSize) = ((i * sectorSize : ℕ) : ℤ) := by push_cast; rfl
  unfold OpenFile.readAtOffset
  rw [hcast, h.readAt hlen d _ (by simp only [sectorSize] at *; omega), Option.map_some]
  refine congrArg some (funext fun k => ?_)
  simp only
  by_cases hk : k < offset
  · rw [if_pos hk, if_neg (by omega)]
  · rw [if_neg hk]
    by_cases hg : k - offset < granted len sectorSize (i * sectorSize)
    · rw [if_pos hg, if_pos ⟨by omega, hg⟩]
    · rw [if_neg hg, if_neg (by omega)]
      have hback : offset + (k - offset) = k := by omega
      rw [hback]

/-- INTERNAL: the bytes of the first and last sector that the write does not replace are read
before it: for every byte of these sectors that is content and outside the request, `buf`
holds the content. -/
theorem LaidOut.readEdges (h : LaidOut f.hdr n) (hlen : f.hdr.fileLength = len) (d : DiskImage)
    (buf : Buffer) (hc : 0 < c) (hcp : p + c ≤ len) :
    ∃ buf', f.readEdges d buf c p = some buf' ∧ ∀ q, q / sectorSize < sectorCount c p →
      p / sectorSize * sectorSize + q < len →
      ¬ (p % sectorSize ≤ q ∧ q < p % sectorSize + c) →
      buf' q = content f.hdr d (p / sectorSize * sectorSize + q) := by
  have hbig := h.len_le hlen
  set a := p / sectorSize with ha
  set b := (p + c - 1) / sectorSize with hb
  have hab : a ≤ b := Nat.div_le_div_right (by omega)
  have hafile : a * sectorSize < len := by
    simp only [sectorSize] at *
    omega
  have hbfile : b * sectorSize < len := by
    simp only [sectorSize] at *
    omega
  have hoff : (((b : ℤ) - a) * sectorSize).toNat = (b - a) * sectorSize := by
    simp only [sectorSize]
    omega
  have hfirst := h.readAtOffset hlen d buf 0 hafile
  unfold OpenFile.readEdges
  rw [sectorRange_eq hc (by omega), ← ha, ← hb]
  by_cases halign : (p : ℤ) = (a : ℤ) * sectorSize
  · -- The request starts at a sector: only its end can be inside one.
    have hfa : ((p : ℤ) == (a : ℤ) * sectorSize) = true := by simpa using halign
    simp only [hfa, if_true, Option.bind_eq_bind, Option.bind_some, Bool.or_true, Bool.and_true]
    by_cases hlast : (p : ℤ) + c = ((b : ℤ) + 1) * sectorSize
    · have hla : ((p : ℤ) + c == ((b : ℤ) + 1) * sectorSize) = true := by simpa using hlast
      refine ⟨buf, by simp [hla], fun q hq _ hout => ?_⟩
      refine absurd ?_ hout
      unfold sectorCount at hq
      simp only [sectorSize] at *
      omega
    · have hla : ((p : ℤ) + c == ((b : ℤ) + 1) * sectorSize) = false := by simpa using hlast
      refine ⟨_, by simp [hla, hoff, h.readAtOffset hlen d buf ((b - a) * sectorSize) hbfile]; rfl, ?_⟩
      intro q hq hqlen hout
      have hidx : b * sectorSize + (q - (b - a) * sectorSize) = a * sectorSize + q := by
        unfold sectorCount at hq
        simp only [sectorSize] at *
        omega
      have hin : (b - a) * sectorSize ≤ q ∧
          q - (b - a) * sectorSize < granted len sectorSize (b * sectorSize) := by
        unfold sectorCount at hq
        unfold granted
        simp only [sectorSize] at *
        omega
      rw [if_pos hin, hidx]
  · have hfa : ((p : ℤ) == (a : ℤ) * sectorSize) = false := by simpa using halign
    simp only [hfa, hfirst, Option.bind_eq_bind, Option.bind_some, Bool.or_false,
      Bool.false_eq_true, if_false]
    by_cases hsecond : (!((p : ℤ) + c == ((b : ℤ) + 1) * sectorSize) && ((a : ℤ) != b)) = true
    · have hne : a ≠ b := by
        rw [Bool.and_eq_true] at hsecond
        simpa using hsecond.2
      refine ⟨_, by simp only [hsecond, if_true, hoff,
        h.readAtOffset hlen d _ ((b - a) * sectorSize) hbfile]; rfl, ?_⟩
      intro q hq hqlen hout
      by_cases hin : (b - a) * sectorSize ≤ q ∧
          q - (b - a) * sectorSize < granted len sectorSize (b * sectorSize)
      · have hidx : b * sectorSize + (q - (b - a) * sectorSize) = a * sectorSize + q := by
          simp only [sectorSize] at *
          omega
        rw [if_pos hin, hidx]
      · rw [if_neg hin, if_pos, Nat.sub_zero]
        unfold sectorCount at hq
        unfold granted at *
        simp only [sectorSize] at *
        omega
    · refine ⟨_, by simp only [hsecond]; rfl, ?_⟩
      intro q hq hqlen hout
      have hsame : a = b ∨ (p : ℤ) + c = ((b : ℤ) + 1) * sectorSize := by
        rw [Bool.and_eq_true, not_and_or] at hsecond
        rcases hsecond with hs | hs
        · right
          simpa using hs
        · left
          simpa using hs
      have hin : 0 ≤ q ∧ q - 0 < granted len sectorSize (a * sectorSize) := by
        unfold sectorCount at hq
        unfold granted
        simp only [sectorSize] at *
        omega
      rw [if_pos hin, Nat.sub_zero]

/-- INTERNAL: a byte of the sectors that are written is one of the request or what it was before. -/
theorem byte_written {old : ℕ → Byte} {buf src : Buffer}
    (hkeep : ∀ q, q / sectorSize < sectorCount c p → p / sectorSize * sectorSize + q < len →
      ¬ (p % sectorSize ≤ q ∧ q < p % sectorSize + c) → buf q = old (p / sectorSize * sectorSize + q))
    (hk : k < len) :
    (if p / sectorSize + 0 ≤ k / sectorSize ∧ k / sectorSize < p / sectorSize + 0 + sectorCount c p then
      if p % sectorSize ≤ k - p / sectorSize * sectorSize ∧
          ((k - p / sectorSize * sectorSize : ℕ) : ℤ) < ((p % sectorSize : ℕ) : ℤ) + (c : ℤ) then
        src (k - p / sectorSize * sectorSize - p % sectorSize)
      else buf (k - p / sectorSize * sectorSize)
    else old k) = if p ≤ k ∧ k < p + c then src (k - p) else old k := by
  by_cases hin : p ≤ k ∧ k < p + c
  · have hsec : p / sectorSize + 0 ≤ k / sectorSize ∧
        k / sectorSize < p / sectorSize + 0 + sectorCount c p := by
      unfold sectorCount
      simp only [sectorSize] at *
      omega
    have hreq : p % sectorSize ≤ k - p / sectorSize * sectorSize ∧
        ((k - p / sectorSize * sectorSize : ℕ) : ℤ) < ((p % sectorSize : ℕ) : ℤ) + (c : ℤ) := by
      simp only [sectorSize] at *
      omega
    have hidx : k - p / sectorSize * sectorSize - p % sectorSize = k - p := by
      simp only [sectorSize] at *
      omega
    rw [if_pos hsec, if_pos hreq, if_pos hin, hidx]
  · rw [if_neg hin]
    split
    · rename_i hsec
      have hback : p / sectorSize * sectorSize + (k - p / sectorSize * sectorSize) = k := by
        simp only [sectorSize] at *
        omega
      have hout : ¬ (p % sectorSize ≤ k - p / sectorSize * sectorSize ∧
          k - p / sectorSize * sectorSize < p % sectorSize + c) := by
        simp only [sectorSize] at *
        omega
      rw [if_neg (by exact_mod_cast hout), hkeep _ ?_ (by omega) hout, hback]
      simp only [sectorSize] at *
      omega
    · rfl

/-- INTERNAL: **`WriteAt` replaces content.** The bytes from `p` on, as many as the file has,
become those of `src`; the other bytes of the file and all sectors that have none of these stay.
SRCLINE: filesys/openfile.cc:155-195 -/
theorem LaidOut.writeAt (h : LaidOut f.hdr n) (hlen : f.hdr.fileLength = len) (d : DiskImage)
    (buf src : Buffer) (hmp : p + m < 2 ^ 31) :
    ∃ d', f.writeAt d buf src m p = some (d', (granted len m p : ℤ)) ∧
      (∀ k < len, content f.hdr d' k =
        if p ≤ k ∧ k < p + granted len m p then src (k - p) else content f.hdr d k) ∧
      ∀ s, (∀ k, p ≤ k → k < p + granted len m p → (dataSector f.hdr (k / sectorSize)).toNat ≠ s) →
        d' s = d s := by
  have hbig := h.len_le hlen
  unfold OpenFile.writeAt
  by_cases hnone : m = 0 ∨ len ≤ p
  · have hg : granted len m p = 0 := by
      unfold granted
      omega
    have hcond : (m : ℤ) ≤ 0 ∨ (p : ℤ) ≥ f.length := by
      unfold OpenFile.length
      omega
    refine ⟨d, by rw [if_pos hcond, hg]; rfl, fun k _ => ?_, fun _ _ => rfl⟩
    rw [hg, if_neg (by omega)]
  · rw [not_or, not_le] at hnone
    have hc : 0 < granted len m p := by
      unfold granted
      omega
    have hcp : p + granted len m p ≤ len := by
      unfold granted
      omega
    have hcond : ¬ ((m : ℤ) ≤ 0 ∨ (p : ℤ) ≥ f.length) := by
      unfold OpenFile.length
      omega
    have hcond' : ¬ ((p : ℤ) < 0 ∨ (!OpenFile.fitsBuf (granted len m p) p) = true) := by
      rw [fitsBuf_eq hc (by omega)]
      simp
    have hstart : ((p : ℤ) - ((p / sectorSize : ℕ) : ℤ) * sectorSize).toNat = p % sectorSize := by
      have := Nat.div_add_mod p sectorSize
      simp only [sectorSize] at *
      omega
    obtain ⟨buf', hedges, hkeep⟩ := h.readEdges hlen d buf hc hcp
    rw [if_neg hcond]
    simp only [clip_eq hlen hbig hnone.2 hmp, sectorRange_eq hc (show p + granted len m p < 2 ^ 31 by omega),
      if_neg hcond', sectorCount_eq hc, hedges, hstart, Option.bind_eq_bind, Option.bind_some]
    obtain ⟨d', hwrite, hcontent, hother⟩ := h.writeSectors (fun k =>
      if p % sectorSize ≤ k ∧ (k : ℤ) < ((p % sectorSize : ℕ) : ℤ) + ((granted len m p : ℕ) : ℤ) then
        src (k - p % sectorSize)
      else buf' k) (p / sectorSize) (sectorCount (granted len m p) p) 0 d
      (h.sectorCount_le hlen hc hcp)
    refine ⟨d', by rw [hwrite]; rfl, fun k hk => ?_, fun s hs => hother s fun i h₁ h₂ => ?_⟩
    case refine_2 =>
      -- the first byte of the request in the sector
      have hin : (max p (i * sectorSize)) / sectorSize = i ∧
          max p (i * sectorSize) < p + granted len m p := by
        unfold sectorCount at h₂
        simp only [sectorSize] at *
        omega
      have hne := hs (max p (i * sectorSize)) (by omega) hin.2
      rwa [hin.1] at hne
    have hkn : k < n * sectorSize := by
      have hcover := h.covers
      rw [hlen] at hcover
      have : len ≤ n * sectorSize := by exact_mod_cast hcover
      omega
    rw [hcontent k hkn]
    exact byte_written hkeep (by omega)

/-- INTERNAL: the one byte of a file can be changed. -/
theorem LaidOut.writeAt_changes (h : LaidOut f.hdr n) (hlen : f.hdr.fileLength = (1 : ℕ))
    (d : DiskImage) (buf : Buffer) :
    ∃ src d', f.writeAt d buf src 1 0 = some (d', 1) ∧ content f.hdr d' 0 ≠ content f.hdr d 0 := by
  obtain ⟨d', hwrite, hcontent, -⟩ := h.writeAt hlen d buf (fun _ => content f.hdr d 0 + 1#8)
    (show 0 + 1 < 2 ^ 31 by decide)
  refine ⟨_, d', hwrite, ?_⟩
  rw [hcontent 0 (by decide), if_pos (by decide)]
  bv_omega

end Requests

end Nachos.Analysis
