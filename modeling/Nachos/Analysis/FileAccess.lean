import Nachos.Library.ArrayCursor
import Nachos.Analysis.FileContents

/-!
# An open file is an array with a cursor

`ReadAt` and `WriteAt` transfer whole sectors; `Nachos.Analysis.FileContents` says what a single
call reads and replaces. Here the calls of `OpenFile` are put against an array of bytes of fixed
length with a cursor (`ArrayCursor`): from a file that represents such an array every call answers
as the array does, changes no sector but those of the bytes it writes, and leaves a file that
represents the array after the access (`Represents.perform`). So a sequence of calls answers like
the sequence of accesses, call by call, and what holds of accesses holds of calls: a text written in
pieces is read back in other pieces.
-/

set_option autoImplicit false

namespace Nachos.Analysis

open Nachos.Library Nachos.Model

/-- The bytes of a file. -/
def fileBytes (hdr : FileHeader) (d : DiskImage) : List Byte :=
  (List.range hdr.fileLength.toNat).map (content hdr d)

/-- The first bytes of a buffer; none for a negative number. -/
def bufferBytes (src : Buffer) (numBytes : ℤ) : List Byte := (List.range numBytes.toNat).map src

/-- A buffer with some bytes put at its beginning. -/
def filled (data : List Byte) (into : Buffer) : Buffer := fun k => (data[k]?).getD (into k)

/-- The access to the array that a call on the file is. -/
def accessOf : OpenFile.Call → Access Byte
  | .seek position => .seek position.toNat
  | .read _ numBytes => .read numBytes.toNat
  | .write src _ numBytes => .write (bufferBytes src numBytes)
  | .readAt _ numBytes position => .readAt numBytes.toNat position.toNat
  | .writeAt src _ numBytes position => .writeAt (bufferBytes src numBytes) position.toNat

/-- Positions are not negative, and the end of a request is an `int`. -/
def Admissible (position : ℕ) : OpenFile.Call → Prop
  | .seek p => 0 ≤ p ∧ p < 2 ^ 31
  | .read _ numBytes => position + numBytes < 2 ^ 31
  | .write _ _ numBytes => position + numBytes < 2 ^ 31
  | .readAt _ numBytes p => 0 ≤ p ∧ p + numBytes < 2 ^ 31
  | .writeAt _ _ numBytes p => 0 ≤ p ∧ p + numBytes < 2 ^ 31

/-- The file has the bytes of the array, and its `seekPosition` is the cursor. -/
structure Represents (f : OpenFile) (d : DiskImage) (a : ArrayCursor Byte) : Prop where
  cells : a.cells = fileBytes f.hdr d
  position : f.seekPosition = a.position
  int : a.position < 2 ^ 31

/-- Where a call writes. -/
def placeOfWrite (position : ℕ) : OpenFile.Call → Option ℕ
  | .write _ _ _ => some position
  | .writeAt _ _ _ p => some p.toNat
  | .seek _ | .read _ _ | .readAt _ _ _ => none

/-- The buffer a call reads into. -/
def readsInto : OpenFile.Call → Option Buffer
  | .read into _ => some into
  | .readAt into _ _ => some into
  | .seek _ | .write _ _ _ | .writeAt _ _ _ _ => none

/-- The call returns the number of bytes that the access transfers; a read puts these bytes at the
beginning of the buffer and leaves the rest of it; the sectors without a byte that is written stay;
and the file represents the array after the access. -/
structure Answers (a : ArrayCursor Byte) (f : OpenFile) (d : DiskImage) (call : OpenFile.Call)
    (o : OpenFile.Served) : Prop where
  result : o.result = (a.transferred (accessOf call)).length
  buffer : ∀ into, readsInto call = some into →
    o.buffer = filled (a.transferred (accessOf call)) into
  sectors : ∀ s, (∀ p, placeOfWrite a.position call = some p →
    ∀ k, p ≤ k → k < p + (a.transferred (accessOf call)).length →
      (dataSector f.hdr (k / sectorSize)).toNat ≠ s) → o.disk s = d s
  hdr : o.file.hdr = f.hdr
  next : Represents o.file o.disk (a.after (accessOf call))

theorem length_fileBytes (hdr : FileHeader) (d : DiskImage) :
    (fileBytes hdr d).length = hdr.fileLength.toNat := by
  simp [fileBytes]

theorem length_bufferBytes (src : Buffer) (numBytes : ℤ) :
    (bufferBytes src numBytes).length = numBytes.toNat := by
  simp [bufferBytes]

section Requests

variable {f : OpenFile} {n len : ℕ} {d : DiskImage}

/-- INTERNAL: `ReadAt` as an access. -/
theorem LaidOut.readAt_eq (h : LaidOut f.hdr n) (into : Buffer) {numBytes : ℤ} {p : ℕ}
    (hend : p + numBytes < 2 ^ 31) :
    f.readAt d into numBytes p =
      some (filled (((fileBytes f.hdr d).drop p).take numBytes.toNat) into,
        ((((fileBytes f.hdr d).drop p).take numBytes.toNat).length : ℤ)) := by
  obtain ⟨len, hlen⟩ := Int.eq_ofNat_of_zero_le h.nonneg
  by_cases hneg : numBytes < 0
  · have hzero : numBytes.toNat = 0 := by omega
    unfold OpenFile.readAt
    rw [if_pos (.inl (by omega)), hzero]
    rfl
  · obtain ⟨m, rfl⟩ := Int.eq_ofNat_of_zero_le (show 0 ≤ numBytes by omega)
    rw [h.readAt hlen d into (by omega)]
    have hlength : (((fileBytes f.hdr d).drop p).take m).length = granted len m p := by
      rw [List.length_take, List.length_drop, length_fileBytes, hlen, granted]
      rfl
    rw [Int.toNat_natCast, hlength]
    refine congrArg some (Prod.ext (funext fun k => ?_) rfl)
    simp only [filled]
    by_cases hk : k < granted len m p
    · have hlt : k < m ∧ p + k < len := by
        unfold granted at hk
        omega
      rw [if_pos hk, List.getElem?_take_of_lt hlt.1, List.getElem?_drop, fileBytes, hlen]
      simp [hlt.2]
    · rw [if_neg hk, List.getElem?_eq_none (by omega)]
      rfl

/-- INTERNAL: `WriteAt` as an access. -/
theorem LaidOut.writeAt_eq (h : LaidOut f.hdr n) (buf src : Buffer) {numBytes : ℤ} {p : ℕ}
    (hend : p + numBytes < 2 ^ 31) :
    ∃ d', f.writeAt d buf src numBytes p = some (d',
        (((bufferBytes src numBytes).take ((fileBytes f.hdr d).length - p)).length : ℤ)) ∧
      fileBytes f.hdr d' = overwrite (fileBytes f.hdr d) p (bufferBytes src numBytes) ∧
      ∀ s, (∀ k, p ≤ k →
        k < p + ((bufferBytes src numBytes).take ((fileBytes f.hdr d).length - p)).length →
          (dataSector f.hdr (k / sectorSize)).toNat ≠ s) → d' s = d s := by
  obtain ⟨len, hlen⟩ := Int.eq_ofNat_of_zero_le h.nonneg
  by_cases hneg : numBytes < 0
  · have hnil : bufferBytes src numBytes = [] := by
      rw [bufferBytes, show numBytes.toNat = 0 by omega]
      rfl
    refine ⟨d, ?_, ?_, fun _ _ => rfl⟩
    · unfold OpenFile.writeAt
      rw [if_pos (.inl (by omega)), hnil]
      simp
    · rw [hnil, overwrite_nil]
  · obtain ⟨m, rfl⟩ := Int.eq_ofNat_of_zero_le (show 0 ≤ numBytes by omega)
    obtain ⟨d', hwrite, hcontent, hother⟩ := h.writeAt hlen d buf src (m := m) (p := p) (by omega)
    have hlength : ((bufferBytes src (m : ℤ)).take ((fileBytes f.hdr d).length - p)).length =
        granted len m p := by
      rw [List.length_take, length_fileBytes, length_bufferBytes, hlen, granted]
      simp only [Int.toNat_natCast]
      omega
    rw [hlength]
    refine ⟨d', hwrite, ?_, hother⟩
    apply List.ext_getElem?
    intro k
    by_cases hk : k < len
    · have hk' : k < (fileBytes f.hdr d).length := by
        rw [length_fileBytes, hlen]
        exact hk
      rw [getElem?_overwrite _ _ _ hk', length_bufferBytes, Int.toNat_natCast]
      have hleft : (fileBytes f.hdr d')[k]? = some (content f.hdr d' k) := by
        simp [fileBytes, hlen, hk]
      have hright : (fileBytes f.hdr d)[k]? = some (content f.hdr d k) := by
        simp [fileBytes, hlen, hk]
      rw [hleft, hright, hcontent k hk]
      by_cases hin : p ≤ k ∧ k < p + m
      · have hsrc : (bufferBytes src (m : ℤ))[k - p]? = some (src (k - p)) := by
          have hlt : k - p < m := by omega
          simp [bufferBytes, hlt]
        rw [if_pos hin, hsrc, if_pos (by unfold granted; omega)]
      · rw [if_neg hin, if_neg (by unfold granted; omega)]
    · rw [List.getElem?_eq_none (by rw [length_fileBytes, hlen]; exact Nat.le_of_not_lt hk),
        List.getElem?_eq_none (by
          rw [length_overwrite, length_fileBytes, hlen]; exact Nat.le_of_not_lt hk)]

end Requests

/-! ## One call -/

section Calls

variable {f : OpenFile} {n : ℕ} {d : DiskImage} {a : ArrayCursor Byte}

theorem Represents.advance (h : Represents f d a) {numBytes : ℤ} (count : ℕ)
    (hcount : count ≤ numBytes.toNat) (hend : a.position + numBytes < 2 ^ 31) :
    (f.advance count).seekPosition = ((a.position + count : ℕ) : ℤ) ∧
      a.position + count < 2 ^ 31 := by
  have hint := h.int
  have hlt : a.position + count < 2 ^ 31 := by omega
  refine ⟨?_, hlt⟩
  unfold OpenFile.advance
  rw [h.position, toInt32_of_lt (by omega) (by omega)]
  push_cast
  rfl

/-- INTERNAL: **every call answers as the array does.**
SRCLINE: filesys/openfile.cc:64-195 -/
theorem Represents.perform (h : Represents f d a) (hlaid : LaidOut f.hdr n) {call : OpenFile.Call}
    (hadm : Admissible a.position call) :
    ∃ o, f.perform d call = some o ∧ Answers a f d call o := by
  cases call with
  | seek p =>
    obtain ⟨hnonneg, hlt⟩ := hadm
    have hint : p.toNat < 2 ^ 31 := by omega
    exact ⟨_, rfl, rfl, fun _ hinto => (nomatch hinto), fun _ _ => rfl, rfl,
      h.cells, (Int.toNat_of_nonneg hnonneg).symm, hint⟩
  | read into numBytes =>
    have hend : (a.position : ℤ) + numBytes < 2 ^ 31 := hadm
    have hread := hlaid.readAt_eq (d := d) into hend
    rw [← h.cells, ← h.position] at hread
    obtain ⟨hseek, hint⟩ := h.advance ((a.cells.drop a.position).take numBytes.toNat).length
      (List.length_take_le _ _) hend
    refine ⟨⟨_, filled (a.transferred (.read numBytes.toNat)) into, f.advance _, d⟩, ?_, rfl, ?_,
      fun _ _ => rfl, rfl, h.cells, hseek, hint⟩
    · simp only [OpenFile.perform, OpenFile.read, hread, Option.bind_eq_bind, Option.bind_some,
        Option.pure_def]
      rfl
    · intro into' hinto
      cases hinto
      rfl
  | write src buf numBytes =>
    have hend : (a.position : ℤ) + numBytes < 2 ^ 31 := hadm
    obtain ⟨d', hwrite, hbytes, hother⟩ := hlaid.writeAt_eq (d := d) buf src hend
    rw [← h.cells] at hwrite hbytes hother
    rw [← h.position] at hwrite
    obtain ⟨hseek, hint⟩ := h.advance
      ((bufferBytes src numBytes).take (a.cells.length - a.position)).length
      ((List.length_take_le' _ _).trans_eq (length_bufferBytes src numBytes)) hend
    refine ⟨⟨_, src, f.advance _, d'⟩, ?_, rfl, fun _ hinto => (nomatch hinto), ?_, rfl, hbytes.symm,
      hseek, hint⟩
    · simp only [OpenFile.perform, OpenFile.write, hwrite, Option.bind_eq_bind, Option.bind_some,
        Option.pure_def]
      rfl
    · intro s hs
      exact hother s fun k hp hk => hs a.position rfl k hp hk
  | readAt into numBytes p =>
    obtain ⟨hnonneg, hend⟩ := hadm
    obtain ⟨q, rfl⟩ := Int.eq_ofNat_of_zero_le hnonneg
    have hread := hlaid.readAt_eq (d := d) into hend
    rw [← h.cells] at hread
    refine ⟨⟨_, filled (a.transferred (.readAt numBytes.toNat q)) into, f, d⟩, ?_, rfl, ?_,
      fun _ _ => rfl, rfl, h⟩
    · simp only [OpenFile.perform, hread, Option.bind_eq_bind, Option.bind_some, Option.pure_def]
      rfl
    · intro into' hinto
      cases hinto
      rfl
  | writeAt src buf numBytes p =>
    obtain ⟨hnonneg, hend⟩ := hadm
    obtain ⟨q, rfl⟩ := Int.eq_ofNat_of_zero_le hnonneg
    obtain ⟨d', hwrite, hbytes, hother⟩ := hlaid.writeAt_eq (d := d) buf src hend
    rw [← h.cells] at hwrite hbytes hother
    refine ⟨⟨_, src, f, d'⟩, ?_, rfl, fun _ hinto => (nomatch hinto), ?_, rfl, hbytes.symm, h.position,
      h.int⟩
    · simp only [OpenFile.perform, hwrite, Option.bind_eq_bind, Option.bind_some, Option.pure_def]
      rfl
    · intro s hs
      exact hother s fun k hp hk => hs q rfl k hp hk

end Calls

/-! ## Sequences of calls -/

/-- Every call of the sequence is admissible where the array's cursor then is. -/
def AllAdmissible : ArrayCursor Byte → List OpenFile.Call → Prop
  | _, [] => True
  | a, call :: calls => Admissible a.position call ∧ AllAdmissible (a.after (accessOf call)) calls

/-- Every call of the sequence goes through and answers as the array does. -/
def AllAnswered : ArrayCursor Byte → OpenFile → DiskImage → List OpenFile.Call → Prop
  | _, _, _, [] => True
  | a, f, d, call :: calls => ∃ o, f.perform d call = some o ∧ Answers a f d call o ∧
      AllAnswered (a.after (accessOf call)) o.file o.disk calls

/-- The bytes that the reads of a sequence put into their buffers, in order. -/
def bytesRead : OpenFile → DiskImage → List OpenFile.Call → Option (List Byte)
  | _, _, [] => some []
  | f, d, call :: calls => do
    let o ← f.perform d call
    let rest ← bytesRead o.file o.disk calls
    return (match readsInto call with
      | some _ => bufferBytes o.buffer o.result
      | none => []) ++ rest

/-- INTERNAL: **a sequence of calls is the sequence of accesses.** -/
theorem Represents.allAnswered {n : ℕ} (calls : List OpenFile.Call) :
    ∀ {f : OpenFile} {d : DiskImage} {a : ArrayCursor Byte}, Represents f d a → LaidOut f.hdr n →
      AllAdmissible a calls → AllAnswered a f d calls := by
  induction calls with
  | nil =>
    intro f d a _ _ _
    trivial
  | cons call calls ih =>
    rintro f d a h hlaid ⟨hadm, hrest⟩
    obtain ⟨o, ho, hanswers⟩ := h.perform hlaid hadm
    exact ⟨o, ho, hanswers, ih hanswers.next (hanswers.hdr ▸ hlaid) hrest⟩

/-- INTERNAL: the bytes a call puts into its buffer are those that the access delivers. -/
theorem Answers.delivered {a : ArrayCursor Byte} {f : OpenFile} {d : DiskImage}
    {call : OpenFile.Call} {o : OpenFile.Served} (h : Answers a f d call o) :
    (match readsInto call with
      | some _ => bufferBytes o.buffer o.result
      | none => []) = a.delivered (accessOf call) := by
  have hread : ∀ into, readsInto call = some into →
      bufferBytes o.buffer o.result = a.transferred (accessOf call) := by
    intro into hinto
    apply List.ext_getElem?
    intro k
    rw [bufferBytes, h.result, Int.toNat_natCast]
    by_cases hk : k < (a.transferred (accessOf call)).length
    · simp [hk, h.buffer into hinto, filled]
    · rw [List.getElem?_eq_none (by simpa using hk), List.getElem?_eq_none (by omega)]
  cases call with
  | seek p => rfl
  | read into numBytes => exact hread into rfl
  | write src buf numBytes => rfl
  | readAt into numBytes p => exact hread into rfl
  | writeAt src buf numBytes p => rfl

theorem bytesRead_eq (calls : List OpenFile.Call) :
    ∀ {f : OpenFile} {d : DiskImage} {a : ArrayCursor Byte}, AllAnswered a f d calls →
      bytesRead f d calls = some (a.readAll (calls.map accessOf)) := by
  induction calls with
  | nil =>
    intro f d a _
    rfl
  | cons call calls ih =>
    rintro f d a ⟨o, ho, hanswers, hrest⟩
    rw [bytesRead, ho]
    simp only [Option.bind_eq_bind, Option.bind_some, ih hrest, Option.pure_def]
    rw [hanswers.delivered]
    rfl

/-! ## Writing in pieces and reading in pieces -/

theorem AllAdmissible.append {l l' : List OpenFile.Call} {a : ArrayCursor Byte}
    (h : AllAdmissible a l) (h' : AllAdmissible (a.afterAll (l.map accessOf)) l') :
    AllAdmissible a (l ++ l') := by
  induction l generalizing a with
  | nil => exact h'
  | cons call l ih => exact ⟨h.1, ih h.2 h'⟩

/-- A `Write` of `w.2.2` bytes of the buffer `w.1`. -/
def writeOf (w : Buffer × Buffer × ℤ) : OpenFile.Call := .write w.1 w.2.1 w.2.2

/-- A `Read` of `r.2` bytes into the buffer `r.1`. -/
def readOf (r : Buffer × ℤ) : OpenFile.Call := .read r.1 r.2

/-- The bytes of a sequence of writes. -/
def textOf (writes : List (Buffer × Buffer × ℤ)) : List Byte :=
  (writes.map fun w => bufferBytes w.1 w.2.2).flatten

theorem allAdmissible_writes (writes : List (Buffer × Buffer × ℤ)) :
    ∀ {a : ArrayCursor Byte}, a.position + (textOf writes).length < 2 ^ 31 →
      AllAdmissible a (writes.map writeOf) := by
  induction writes with
  | nil =>
    intro a _
    trivial
  | cons w writes ih =>
    intro a hend
    rw [textOf, List.map_cons, List.flatten_cons, List.length_append, length_bufferBytes] at hend
    refine ⟨?_, ih ?_⟩
    · show (a.position : ℤ) + w.2.2 < 2 ^ 31
      omega
    · have hle : (a.transferred (.write (bufferBytes w.1 w.2.2))).length ≤ w.2.2.toNat :=
        (List.length_take_le' _ _).trans_eq (length_bufferBytes _ _)
      show a.position + (a.transferred (.write (bufferBytes w.1 w.2.2))).length +
        (textOf writes).length < 2 ^ 31
      rw [textOf]
      omega

theorem allAdmissible_reads (reads : List (Buffer × ℤ)) :
    ∀ {a : ArrayCursor Byte}, a.position + (reads.map fun r => r.2.toNat).sum < 2 ^ 31 →
      AllAdmissible a (reads.map readOf) := by
  induction reads with
  | nil =>
    intro a _
    trivial
  | cons r reads ih =>
    intro a hend
    rw [List.map_cons, List.sum_cons] at hend
    refine ⟨?_, ih ?_⟩
    · show (a.position : ℤ) + r.2 < 2 ^ 31
      omega
    · have hle : (a.transferred (.read r.2.toNat)).length ≤ r.2.toNat := List.length_take_le _ _
      show a.position + (a.transferred (.read r.2.toNat)).length + _ < 2 ^ 31
      omega

/-- INTERNAL: a text that the file has room for, written in pieces, is read back in other pieces. -/
theorem LaidOut.bytesRead_writes {hdr : FileHeader} {n : ℕ} (hlaid : LaidOut hdr n) (d : DiskImage)
    (type : ℤ) (writes : List (Buffer × Buffer × ℤ)) (reads : List (Buffer × ℤ))
    (hroom : (textOf writes).length ≤ hdr.fileLength)
    (hsizes : (reads.map fun r => r.2.toNat).sum = (textOf writes).length) :
    bytesRead ⟨hdr, 0, type⟩ d (writes.map writeOf ++ .seek 0 :: reads.map readOf) =
      some (textOf writes) := by
  have hlen : (fileBytes hdr d).length = hdr.fileLength.toNat := length_fileBytes hdr d
  have hcells : (textOf writes).length ≤ (fileBytes hdr d).length := by omega
  have hsmall : (fileBytes hdr d).length ≤ 2 ^ 30 := by
    obtain ⟨len, hlen'⟩ := Int.eq_ofNat_of_zero_le hlaid.nonneg
    have hle := LaidOut.len_le (f := ⟨hdr, 0, type⟩) hlaid hlen'
    omega
  have hrep : Represents ⟨hdr, 0, type⟩ d ⟨fileBytes hdr d, 0⟩ :=
    ⟨rfl, rfl, Nat.two_pow_pos 31⟩
  have hadm : AllAdmissible ⟨fileBytes hdr d, 0⟩
      (writes.map writeOf ++ .seek 0 :: reads.map readOf) := by
    apply (allAdmissible_writes writes (by dsimp only; omega)).append
    exact ⟨⟨le_rfl, by decide⟩, allAdmissible_reads reads (by
      show 0 + _ < 2 ^ 31
      omega)⟩
  rw [bytesRead_eq _ (hrep.allAnswered _ hlaid hadm)]
  have haccesses : (writes.map writeOf ++ .seek 0 :: reads.map readOf).map accessOf =
      (writes.map fun w => bufferBytes w.1 w.2.2).map .write ++
        .seek 0 :: (reads.map fun r => r.2.toNat).map .read := by
    simp only [List.map_append, List.map_cons, List.map_map]
    rfl
  rw [haccesses]
  exact congrArg some (ArrayCursor.readAll_after_writeAll ⟨fileBytes hdr d, 0⟩ _ _
    (by simpa [textOf] using hcells) hsizes)

/-- SOURCE: filesys/openfile.cc:64-195, filesys/filehdr.cc:106-121, filesys/fstest.cc:31-97 — on a
file whose data sectors are distinct sectors of the disk and cover its length, every sequence of
`Seek`, `Read`, `Write`, `ReadAt` and `WriteAt` answers as an array of bytes with a cursor does, call
by call; and what is written in pieces of any sizes is read back in pieces of any other sizes. -/
theorem open_file_is_array_with_cursor {hdr : FileHeader} {n : ℕ} (hlaid : LaidOut hdr n)
    (d : DiskImage) (type : ℤ) :
    (∀ (position : ℕ) (calls : List OpenFile.Call), position < 2 ^ 31 →
      AllAdmissible ⟨fileBytes hdr d, position⟩ calls →
        AllAnswered ⟨fileBytes hdr d, position⟩ ⟨hdr, position, type⟩ d calls) ∧
    ∀ (writes : List (Buffer × Buffer × ℤ)) (reads : List (Buffer × ℤ)),
      (textOf writes).length ≤ hdr.fileLength →
      (reads.map fun r => r.2.toNat).sum = (textOf writes).length →
        bytesRead ⟨hdr, 0, type⟩ d (writes.map writeOf ++ .seek 0 :: reads.map readOf) =
          some (textOf writes) := by
  refine ⟨fun position calls hint hadm => ?_, hlaid.bytesRead_writes d type⟩
  have hrep : Represents ⟨hdr, position, type⟩ d ⟨fileBytes hdr d, position⟩ := ⟨rfl, rfl, hint⟩
  exact hrep.allAnswered calls hlaid hadm

/-- A file of 200 bytes in the sectors 5 and 3. -/
def twoSectorHeader : FileHeader :=
  ⟨200#32, 2#32, fun i => if i.val = 0 then 5#32 else 3#32⟩

theorem laidOut_twoSectorHeader : LaidOut twoSectorHeader 2 where
  le := by decide
  nonneg := by decide
  covers := by decide
  valid := by decide
  inj := by decide

/-- The bytes 0, 1, 2 and so on. -/
def countingBuffer : Buffer := fun k => BitVec.ofNat 8 k

/-- On an empty disk, a write over the end of the first sector, a read over the end of the written
part and one of a negative length; and 150 and 50 bytes read back as 30 and 170. -/
theorem two_sector_file_is_array :
    AllAnswered ⟨fileBytes twoSectorHeader fun _ _ => 0#8, 0⟩ ⟨twoSectorHeader, 0, 0⟩ (fun _ _ => 0#8)
        [.write countingBuffer countingBuffer 150, .seek 100, .read countingBuffer 60,
          .readAt countingBuffer (-3) 7] ∧
      bytesRead ⟨twoSectorHeader, 0, 0⟩ (fun _ _ => 0#8)
        ([(countingBuffer, countingBuffer, 150), (countingBuffer, countingBuffer, 50)].map writeOf ++
          .seek 0 :: [(countingBuffer, 30), (countingBuffer, 170)].map readOf) =
        some (textOf [(countingBuffer, countingBuffer, 150), (countingBuffer, countingBuffer, 50)]) := by
  have hcase := open_file_is_array_with_cursor laidOut_twoSectorHeader (fun _ _ => 0#8) 0
  have hlength : (textOf [(countingBuffer, countingBuffer, 150),
      (countingBuffer, countingBuffer, 50)]).length = 200 := by
    simp [textOf, length_bufferBytes]
  constructor
  · refine hcase.1 0 _ (Nat.two_pow_pos 31) ⟨?_, ⟨by decide, by decide⟩, ?_, ⟨by decide, by decide⟩,
      trivial⟩
    · show (0 : ℤ) + 150 < 2 ^ 31
      decide
    · show (100 : ℤ) + 60 < 2 ^ 31
      decide
  · refine hcase.2 _ _ ?_ ?_
    · rw [hlength]
      decide
    · rw [hlength]
      rfl

end Nachos.Analysis
