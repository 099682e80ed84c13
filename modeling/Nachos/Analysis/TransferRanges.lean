import Nachos.Analysis.FileContents

/-!
# Which transfers stay in the range of `int`

`Read` and `Write` pass the user's count to `ReadAt` and `WriteAt` with the position of the file.
The request is cut at the end of the file by a comparison with `position + numBytes`. If that sum is
an `int` the request is cut, and everything computed afterwards is bounded by the length of the
file, which is far from the limit. If it is not, the sum wraps around, the comparison fails, the
count stays as it is, and the transfer leaves its buffer or the header. The system calls
themselves allocate `charcount + 1` bytes, which is the other sum that can wrap.
-/

set_option autoImplicit false

namespace Nachos.Analysis

open Nachos.Model

/-- The value of an `int` expression that does not overflow. -/
def InInt32 (x : ℤ) : Prop := -2 ^ 31 ≤ x ∧ x < 2 ^ 31

/-- The `int` expressions of a transfer of `charcount` bytes at `position` (exception.cc:286, 10-12,
openfile.cc:134-150, 165-192, 86, 94) with the values of the variables in them: the size of the
kernel's buffer, the end of the request, the sectors and the size of the transfer's buffer, the
two ends compared with sectors, and the next position. -/
def computations (f : OpenFile) (charcount position : ℤ) : List ℤ :=
  let numBytes := f.clip charcount position
  let (firstSector, lastSector) := OpenFile.sectorRange numBytes position
  [charcount + 1, position + charcount, f.length - position,
    position + numBytes, position + numBytes - 1, 1 + lastSector - firstSector,
    (1 + lastSector - firstSector) * sectorSize, firstSector * sectorSize,
    position - firstSector * sectorSize, (lastSector + 1) * sectorSize]

/-- Every transfer of `charcount` bytes at `position`, whatever the disk and the buffers hold,
moves the bytes the file has there, up to `charcount`, and no others; and nothing overflows. -/
def TransfersExactly (f : OpenFile) (charcount position : ℤ) : Prop :=
  let count := min charcount (f.length - position)
  (∀ x ∈ computations f charcount position, InInt32 x) ∧
  (∀ (d : DiskImage) (into : Buffer), ∃ into',
    f.readAt d into charcount position = some (into', count) ∧
    ∀ k : ℕ, into' k = if k < count then content f.hdr d (position.toNat + k) else into k) ∧
  ∀ (d : DiskImage) (buf src : Buffer), ∃ d',
    f.writeAt d buf src charcount position = some (d', count) ∧
    ∀ k : ℕ, k < f.length → content f.hdr d' k =
      if position ≤ k ∧ k < position + count then src (k - position.toNat) else content f.hdr d k

/-! ## The sum is an `int` -/

section InRange

variable {f : OpenFile} {n len : ℕ}

/-- INTERNAL: the transfer of a request whose end is an `int` overflows nowhere else. -/
theorem LaidOut.computations_inInt32 (h : LaidOut f.hdr n) (hlen : f.hdr.fileLength = len) {m p : ℕ}
    (hm : 0 < m) (hp : p < len) (hmp : p + m < 2 ^ 31) (hm1 : m + 1 < 2 ^ 31) :
    ∀ x ∈ computations f m p, InInt32 x := by
  have hbig := h.len_le hlen
  have hg : 0 < granted len m p ∧ p + granted len m p ≤ len := by
    unfold granted
    omega
  have hlength : f.length = len := hlen
  unfold computations
  simp only [clip_eq hlen hbig hp hmp,
    sectorRange_eq hg.1 (show p + granted len m p < 2 ^ 31 by omega), hlength]
  generalize granted len m p = c at hg
  -- the last sector begins before the end of the file
  have hlast : (p + c - 1) / sectorSize * sectorSize ≤ p + c - 1 := Nat.div_mul_le_self _ _
  have hfirst : p / sectorSize * sectorSize ≤ p := Nat.div_mul_le_self _ _
  have horder : p / sectorSize ≤ (p + c - 1) / sectorSize := Nat.div_le_div_right (by omega)
  generalize (p + c - 1) / sectorSize = last at *
  generalize p / sectorSize = first at *
  simp only [sectorSize, List.mem_cons, List.not_mem_nil, or_false, InInt32] at *
  rintro x (rfl | rfl | rfl | rfl | rfl | rfl | rfl | rfl | rfl | rfl) <;> omega

theorem cast_granted {m p : ℕ} (hp : p < len) :
    ((granted len m p : ℕ) : ℤ) = min (m : ℤ) (len - p) := by
  unfold granted
  omega

theorem LaidOut.transfersExactly (h : LaidOut f.hdr n) (hlen : f.hdr.fileLength = len) {m p : ℕ}
    (hm : 0 < m) (hp : p < len) (hmp : p + m < 2 ^ 31) (hm1 : m + 1 < 2 ^ 31) :
    TransfersExactly f m p := by
  have hlength : f.length = len := hlen
  refine ⟨h.computations_inInt32 hlen hm hp hmp hm1, fun d into => ?_, fun d buf src => ?_⟩
  · rw [h.readAt hlen d into hmp, hlength, ← cast_granted hp]
    exact ⟨_, rfl, fun k => if_congr Int.ofNat_lt.symm rfl rfl⟩
  · obtain ⟨d', hwrite, hcontent, -⟩ := h.writeAt hlen d buf src hmp
    rw [hlength, ← cast_granted hp]
    refine ⟨d', hwrite, fun k hk => ?_⟩
    rw [hcontent k (by omega), Int.toNat_natCast]
    exact if_congr (by omega) rfl rfl

end InRange

/-! ## The sum wraps around -/

section Wrapped

variable {f : OpenFile} {n len : ℕ} {m p : ℕ}

theorem lt_numDirect_of_byteToSector {hdr : FileHeader} {first j : ℕ} {sector : ℤ}
    (h : hdr.byteToSector (((first : ℤ) + j) * sectorSize) = some sector) : first + j < numDirect := by
  unfold FileHeader.byteToSector FileHeader.sectorAt at h
  have hdiv : (((first : ℤ) + j) * sectorSize).tdiv sectorSize = ((first + j : ℕ) : ℤ) := by
    rw [Int.mul_tdiv_cancel _ (by decide)]
    push_cast
    rfl
  rw [hdiv] at h
  by_contra hge
  rw [dif_neg (by omega)] at h
  cases h

theorem readSectors_le {hdr : FileHeader} {d : DiskImage} {first : ℕ} (cnt : ℕ) :
    ∀ {j : ℕ} {buf buf' : Buffer}, OpenFile.readSectors hdr d first j cnt buf = some buf' →
      cnt = 0 ∨ first + j + cnt ≤ numDirect := by
  induction cnt with
  | zero => exact fun _ => Or.inl rfl
  | succ cnt ih =>
    intro j buf buf' h
    right
    simp only [OpenFile.readSectors, Option.bind_eq_bind, Option.bind_eq_some_iff] at h
    obtain ⟨sector, hsector, data, -, hrest⟩ := h
    have hlt := lt_numDirect_of_byteToSector hsector
    obtain hzero | hle := ih hrest
    · omega
    · omega

theorem writeSectors_le {hdr : FileHeader} {buf : Buffer} {first : ℕ} (cnt : ℕ) :
    ∀ {j : ℕ} {d d' : DiskImage}, OpenFile.writeSectors hdr buf first j cnt d = some d' →
      cnt = 0 ∨ first + j + cnt ≤ numDirect := by
  induction cnt with
  | zero => exact fun _ => Or.inl rfl
  | succ cnt ih =>
    intro j d d' h
    right
    simp only [OpenFile.writeSectors, Option.bind_eq_bind, Option.bind_eq_some_iff] at h
    obtain ⟨sector, hsector, d₁, -, hrest⟩ := h
    have hlt := lt_numDirect_of_byteToSector hsector
    obtain hzero | hle := ih hrest
    · omega
    · omega

theorem clip_of_wrap (hlen : f.hdr.fileLength = len) (hp : p < len) (hbig : len ≤ 2 ^ 30)
    (hm : m < 2 ^ 31) (hwrap : 2 ^ 31 ≤ p + m) : f.clip m p = m := by
  have hsum : toInt32 ((p : ℤ) + m) = p + m - 2 ^ 32 := by
    unfold toInt32
    rw [Int.bmod_def]
    omega
  have hlength : f.length = len := hlen
  unfold OpenFile.clip
  rw [hsum, hlength, if_neg (by omega)]

/-- INTERNAL: what is left of such a request: its copy does not fit the buffer, or it has more
sectors than a header, namely when the end is the first number past the `int`s. -/
theorem sectorRange_of_wrap (hm : m < 2 ^ 31) (hp : p ≤ 2 ^ 30) (hwrap : 2 ^ 31 ≤ p + m) :
    OpenFile.fitsBuf m p = false ∨
      OpenFile.sectorRange m p = (((p / sectorSize : ℕ) : ℤ), 16777215) := by
  have hfirst : divRoundDown (p : ℤ) sectorSize = ((p / sectorSize : ℕ) : ℤ) := rfl
  by_cases hlast : p + m = 2 ^ 31
  · right
    have heq : (p : ℤ) + m - 1 = 2147483647 := by omega
    unfold OpenFile.sectorRange
    have hend : divRoundDown (toInt32 2147483647) sectorSize = 16777215 := by decide
    rw [hfirst, heq, hend]
  · left
    -- the last sector is computed from a negative number
    have hend : divRoundDown (toInt32 ((p : ℤ) + m - 1)) sectorSize ≤ 0 := by
      have hneg : toInt32 ((p : ℤ) + m - 1) = p + m - 1 - 2 ^ 32 := by
        unfold toInt32
        rw [Int.bmod_def]
        omega
      rw [hneg]
      unfold divRoundDown sectorSize
      rw [← Int.neg_nonneg, ← Int.neg_tdiv]
      exact Int.tdiv_nonneg (by omega) (by decide)
    unfold OpenFile.fitsBuf OpenFile.sectorRange
    rw [hfirst]
    simp only
    generalize divRoundDown (toInt32 ((p : ℤ) + m - 1)) sectorSize = last at hend
    apply decide_eq_false
    simp only [sectorSize]
    omega

/-- INTERNAL: **a request whose end is not an `int` is no transfer.**
SRCLINE: filesys/openfile.cc:125-153 -/
theorem LaidOut.readAt_of_wrap (h : LaidOut f.hdr n) (hlen : f.hdr.fileLength = len) (hm : m < 2 ^ 31)
    (hp : p < len) (hwrap : 2 ^ 31 ≤ p + m) (d : DiskImage) (into : Buffer) :
    f.readAt d into m p = none := by
  have hbig := h.len_le hlen
  have hlength : f.length = len := hlen
  unfold OpenFile.readAt
  rw [hlength, if_neg (by omega), clip_of_wrap hlen hp hbig hm hwrap]
  rcases sectorRange_of_wrap hm (by omega) hwrap with hfits | hrange
  · simp [hfits]
  · simp only [hrange]
    split
    · rfl
    · cases hsectors : OpenFile.readSectors f.hdr d ((p / sectorSize : ℕ) : ℤ) 0
        (1 + 16777215 - ((p / sectorSize : ℕ) : ℤ)).toNat fun _ => 0#8 with
      | none => rfl
      | some buf =>
        have hle := readSectors_le _ hsectors
        simp only [numDirect, sectorSize] at hle
        omega

theorem LaidOut.writeAt_of_wrap (h : LaidOut f.hdr n) (hlen : f.hdr.fileLength = len)
    (hm : m < 2 ^ 31) (hp : p < len) (hwrap : 2 ^ 31 ≤ p + m) (d : DiskImage) (buf src : Buffer) :
    f.writeAt d buf src m p = none := by
  have hbig := h.len_le hlen
  have hlength : f.length = len := hlen
  cases hwrite : f.writeAt d buf src m p with
  | none => rfl
  | some r =>
    exfalso
    unfold OpenFile.writeAt at hwrite
    rw [hlength, if_neg (by omega), clip_of_wrap hlen hp hbig hm hwrap] at hwrite
    rcases sectorRange_of_wrap hm (by omega) hwrap with hfits | hrange
    · simp [hfits] at hwrite
    · simp only [hrange, Option.ite_none_left_eq_some, Option.bind_eq_bind, Option.bind_eq_some_iff] at hwrite
      obtain ⟨-, buf', -, d', hsectors, -⟩ := hwrite
      have hle := writeSectors_le _ hsectors
      simp only [numDirect, sectorSize] at hle
      omega

end Wrapped

/-- SOURCE: filesys/openfile.cc:125-195, userprog/exception.cc:269-350 — for a laid-out file, a
position inside it and a positive 32-bit count, `ReadAt` and `WriteAt` transfer exactly the bytes
the file has from the position on, up to the count, without an overflow on the way, exactly when
`position + charcount` and `charcount + 1` are `int`s. -/
theorem transfersExactly_iff {f : OpenFile} {n : ℕ} (h : LaidOut f.hdr n) {position : ℤ}
    (hp : 0 ≤ position) (hlen : position < f.length) {charcount : BitVec 32}
    (hc : 0 < charcount.toInt) :
    TransfersExactly f charcount.toInt position ↔
      position + charcount.toInt < 2 ^ 31 ∧ charcount.toInt + 1 < 2 ^ 31 := by
  constructor
  · rintro ⟨hcomp, -, -⟩
    have hsum := hcomp (position + charcount.toInt) (by simp [computations])
    have hone := hcomp (charcount.toInt + 1) (by simp [computations])
    exact ⟨hsum.2, hone.2⟩
  · rintro ⟨hsum, hone⟩
    obtain ⟨len, hl⟩ := Int.eq_ofNat_of_zero_le h.nonneg
    have hlength : f.length = len := hl
    rw [hlength] at hlen
    obtain ⟨p, rfl⟩ := Int.eq_ofNat_of_zero_le hp
    generalize charcount.toInt = c at *
    obtain ⟨m, rfl⟩ := Int.eq_ofNat_of_zero_le hc.le
    exact h.transfersExactly hl (by omega) (by omega) (by omega) (by omega)

/-- A file of three bytes in sector 7. -/
def threeByteFile : OpenFile := ⟨⟨3#32, 1#32, fun _ => 7#32⟩, 0, 0⟩

theorem laidOut_threeByteFile : LaidOut threeByteFile.hdr 1 where
  le := by decide
  nonneg := by decide
  covers := by decide
  valid := by decide
  inj := by decide

/-- All three bytes, asked for with a larger count. -/
theorem three_bytes_transferred : TransfersExactly threeByteFile (2147483646#32).toInt 0 :=
  (transfersExactly_iff laidOut_threeByteFile (by decide) (by decide) (by decide)).mpr (by decide)

/-- SOURCE: filesys/openfile.cc:134-135 — one byte is left behind the position, 2147483646 are
asked for. The sum `2 + 2147483646` wraps around, the request is not cut, and neither call is a
transfer. -/
theorem end_of_request_wraps :
    toInt32 (2 + 2147483646) = -2147483648 ∧ threeByteFile.clip 2147483646 2 = 2147483646 ∧
    (∀ d into, threeByteFile.readAt d into 2147483646 2 = none) ∧
    (∀ d buf src, threeByteFile.writeAt d buf src 2147483646 2 = none) ∧
    ¬ TransfersExactly threeByteFile 2147483646 2 := by
  have hlen : threeByteFile.hdr.fileLength = (3 : ℕ) := rfl
  refine ⟨by decide, by decide, fun d into => ?_, fun d buf src => ?_, fun h => ?_⟩
  · exact laidOut_threeByteFile.readAt_of_wrap (m := 2147483646) (p := 2) hlen (by decide)
      (by decide) (by decide) d into
  · exact laidOut_threeByteFile.writeAt_of_wrap (m := 2147483646) (p := 2) hlen (by decide)
      (by decide) (by decide) d buf src
  · have hsum := h.1 (2 + 2147483646) (by simp [computations])
    exact absurd hsum.2 (by decide)

end Nachos.Analysis
