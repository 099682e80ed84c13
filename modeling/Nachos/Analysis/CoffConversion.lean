import Mathlib.Data.List.Induction
import Mathlib.Data.List.Pairwise
import Mathlib.Data.Set.Basic
import Nachos.Analysis.WordArithmetic
import Nachos.Model.Coff2noff

/-!
# Which COFF files `coff2noff` converts without changing the program

A COFF file and a NOFF file each denote a memory image, the set of the bytes at their addresses.
`convert` keeps the image when three things hold of the sections, wherever their bytes are in the
file (`Convertible`): no code section is followed by another one, since the second takes the place
of the first in the header; no section of size -1, which is copied as nothing and moves
`inNoffFile` one byte back, comes before a section with bytes; and the sections of uninitialised
data fill the range from the first of them over the sum of their sizes. The last one is not what
the program tests: its comparison turns contiguous sections away and lets the others pass.

What an accepted run leaves is a matter of the sections alone: the output is the sections' bytes
one after the other, and each segment of the header is the last section of its kind
(`converted_of_convert`). A run that is accepted stays accepted when the sections are moved to other
places of another file (`convert_of_moved`), and that gives, for every other list of sections, a
file whose image changes.
-/

set_option autoImplicit false

namespace Nachos.Analysis

open Nachos.Library Nachos.Model Nachos.Model.Coff2noff

variable {l sections sections' : List Scnhdr} {kind : Scnhdr → Prop} {position : ℕ}
  {segment : Segment}

/-! ## Images -/

/-- Code. -/
abbrev IsText (s : Scnhdr) : Prop := s.sName = cString ".text"

/-- Initialised data. -/
abbrev IsData (s : Scnhdr) : Prop := s.sName = cString ".data" ∨ s.sName = cString ".rdata"

/-- Uninitialised data. -/
abbrev IsBss (s : Scnhdr) : Prop := s.sName = cString ".bss" ∨ s.sName = cString ".sbss"

/-- The section has its bytes in the file. -/
abbrev Copied (s : Scnhdr) : Prop := IsText s ∨ IsData s

/-- The bytes that a section has in the file are at a place of the file. -/
abbrev PlacedInFile (s : Scnhdr) : Prop := Copied s → 0 < s.sSize.toInt → 0 ≤ s.sScnptr.toInt

theorem not_isData_of_isText {s : Scnhdr} (h : IsText s) : ¬IsData s := by
  rw [IsData, h]
  decide

theorem not_isBss_of_copied {s : Scnhdr} (h : Copied s) : ¬IsBss s := by
  rw [IsBss]
  rcases h with h | h | h <;> rw [h] <;> decide

/-- The bytes of a file from `position` on, placed at `address`. -/
def placedBytes (contents : List Byte) (address position size : ℤ) : Set (ℤ × Byte) :=
  {p | ∃ k, 0 ≤ k ∧ k < size ∧ p.1 = address + k ∧ 0 ≤ position + k ∧
    contents[(position + k).toNat]? = some p.2}

/-- Zeros over a range. -/
def zeroBytes (address size : ℤ) : Set (ℤ × Byte) :=
  {p | address ≤ p.1 ∧ p.1 < address + size ∧ p.2 = 0#8}

/-- A section at its `s_paddr`. -/
def sectionImage (input : List Byte) (s : Scnhdr) : Set (ℤ × Byte) :=
  {p | (Copied s ∧ p ∈ placedBytes input s.sPaddr.toInt s.sScnptr.toInt s.sSize.toInt) ∨
    (IsBss s ∧ p ∈ zeroBytes s.sPaddr.toInt s.sSize.toInt)}

/-- The image that the sections of a COFF file denote. -/
def coffImage (input : List Byte) (sections : List Scnhdr) : Set (ℤ × Byte) :=
  {p | ∃ s ∈ sections, p ∈ sectionImage input s}

/-- The bytes of a segment of a NOFF file at its `virtualAddr`. -/
def segmentImage (contents : List Byte) (segment : Segment) : Set (ℤ × Byte) :=
  placedBytes contents segment.virtualAddr.toInt segment.inFileAddr.toInt segment.size.toInt

/-- The image that a NOFF file denotes. -/
def noffImage (executable : Executable) : Set (ℤ × Byte) :=
  {p | p ∈ segmentImage executable.contents executable.noffH.code ∨
    p ∈ segmentImage executable.contents executable.noffH.initData ∨
    p ∈ zeroBytes executable.noffH.uninitData.virtualAddr.toInt
      executable.noffH.uninitData.size.toInt}

/-- A segment lies behind the header, within the file. -/
def BehindHeader (executable : Executable) (segment : Segment) : Prop :=
  0 < segment.size.toInt → 40 ≤ segment.inFileAddr.toInt ∧
    segment.inFileAddr.toInt + segment.size.toInt ≤ executable.contents.length

/-- The output denotes the image of the input, with its segments behind the header and apart. -/
structure Faithful (input : List Byte) (sections : List Scnhdr) (executable : Executable) :
    Prop where
  image : noffImage executable = coffImage input sections
  code : BehindHeader executable executable.noffH.code
  initData : BehindHeader executable executable.noffH.initData
  apart : 0 < executable.noffH.code.size.toInt → 0 < executable.noffH.initData.size.toInt →
    executable.noffH.code.inFileAddr.toInt + executable.noffH.code.size.toInt ≤
        executable.noffH.initData.inFileAddr.toInt ∨
      executable.noffH.initData.inFileAddr.toInt + executable.noffH.initData.size.toInt ≤
        executable.noffH.code.inFileAddr.toInt

/-! ## One section -/

variable {host : Host} {input : List Byte} {c c' : Conversion} {s : Scnhdr}

/-- What a section adds to the output. -/
def sectionBytes (input : List Byte) (s : Scnhdr) : List Byte :=
  if Copied s then (input.drop s.sScnptr.toInt.toNat).take s.sSize.toInt.toNat else []

/-- What a section adds to `inNoffFile`. -/
def netSize (s : Scnhdr) : ℤ := if Copied s then s.sSize.toInt else 0

/-- The bytes of the section were all there, or its size is -1. -/
def FullyRead (input : List Byte) (s : Scnhdr) : Prop :=
  s.sSize.toInt = -1 ∨ ((sectionBytes input s).length : ℤ) = s.sSize.toInt

/-- The next value of `virtualAddr` and `size` of the uninitialised data. -/
def mergeBss (bss : BitVec 32 × BitVec 32) (s : Scnhdr) : BitVec 32 × BitVec 32 :=
  if IsBss s ∧ s.sSize ≠ 0#32 then
    if bss.2 ≠ 0#32 then (bss.1, bss.2 + s.sSize) else (s.sPaddr, s.sSize)
  else bss

/-- What an accepted round of the loop does, for a section at a place of the file. -/
structure RoundOf (input : List Byte) (s : Scnhdr) (c c' : Conversion) : Prop where
  output : c'.output = c.output ++ sectionBytes input s
  fully : Copied s → FullyRead input s
  fits : 40 + c.output.length < 2 ^ 31 → 40 + c'.output.length < 2 ^ 31
  offset : c'.inNoffFile = c.inNoffFile + BitVec.ofInt 32 (netSize s)
  code : c'.noffH.code =
    if IsText s ∧ s.sSize ≠ 0#32 then ⟨s.sPaddr, c.inNoffFile, s.sSize⟩ else c.noffH.code
  initData : c'.noffH.initData =
    if IsData s ∧ s.sSize ≠ 0#32 then ⟨s.sPaddr, c.inNoffFile, s.sSize⟩ else c.noffH.initData
  once : IsData s → s.sSize ≠ 0#32 → c.noffH.initData.size = 0#32
  bss : (c'.noffH.uninitData.virtualAddr, c'.noffH.uninitData.size) =
    mergeBss (c.noffH.uninitData.virtualAddr, c.noffH.uninitData.size) s

theorem lseek_of_nonneg {offset : ℤ} (h : 0 ≤ offset) : lseek position offset = offset.toNat := by
  rw [lseek, if_neg (by omega)]

theorem bind_eq_ok {α β : Type} {x : Except String α} {f : α → Except String β} {r : β} :
    (x >>= f) = .ok r ↔ ∃ a, x = .ok a ∧ f a = .ok r := by
  cases x with
  | error e => simp [bind, Except.bind]
  | ok a => simp [bind, Except.bind]

theorem foldlM_snoc {f : Conversion → Scnhdr → Except String Conversion} :
    (l ++ [s]).foldlM f c = .ok c' ↔ ∃ c₁, l.foldlM f c = .ok c₁ ∧ f c₁ s = .ok c' := by
  simp only [List.foldlM_append, List.foldlM_cons, List.foldlM_nil, bind_pure, bind_eq_ok]

theorem read_cases {nBytes : ℤ} {r : List Byte × ℕ}
    (h : Coff2noff.read input position nBytes = .ok r) :
    (nBytes = -1 ∧ r = ([], position)) ∨
      (0 ≤ nBytes ∧ r = ((input.drop position).take nBytes.toNat, position + nBytes.toNat) ∧
        (r.1.length : ℤ) = nBytes) := by
  unfold Coff2noff.read at h
  dsimp only at h
  split_ifs at h with hneg hone hlen
  · simp only [Except.ok.injEq] at h
    exact .inl ⟨hone, h.symm⟩
  · simp only [Except.ok.injEq] at h
    subst h
    refine .inr ⟨by omega, ?_, hlen⟩
    have hnat : ((input.drop position).take nBytes.toNat).length = nBytes.toNat := by omega
    rw [hnat]

theorem write_cases {buf : List Byte} {nBytes : ℤ} (h : write host c buf nBytes = .ok c') :
    (nBytes = -1 ∧ c' = c) ∨
      (0 ≤ nBytes ∧ 40 + c.output.length + nBytes < 2 ^ 31 ∧
        c' = { c with output := c.output ++ buf, writes := c.writes + 1 }) := by
  unfold write at h
  split_ifs at h with hneg hone hok
  · simp only [Except.ok.injEq] at h
    exact .inl ⟨hone, h.symm⟩
  · simp only [Except.ok.injEq] at h
    exact .inr ⟨by omega, hok.2, h.symm⟩

theorem copyIn_cases (h : copyIn host input c s = .ok c') :
    ((s.sSize.toInt = -1 ∧ c'.output = c.output) ∨
      (0 ≤ s.sSize.toInt ∧ 40 + c.output.length + s.sSize.toInt < 2 ^ 31 ∧
        ∃ buffer, c'.output = c.output ++ buffer ∧ (buffer.length : ℤ) = s.sSize.toInt ∧
          buffer = (input.drop (lseek c.position s.sScnptr.toInt)).take s.sSize.toInt.toNat)) ∧
      c'.inNoffFile = c.inNoffFile + s.sSize ∧ c'.noffH = c.noffH := by
  unfold copyIn at h
  obtain ⟨r, hread, h⟩ := bind_eq_ok.mp h
  obtain ⟨c₁, hwrite, h⟩ := bind_eq_ok.mp h
  simp only [pure, Except.pure, Except.ok.injEq] at h
  subst h
  rcases write_cases hwrite with ⟨hone, rfl⟩ | ⟨hnonneg, hfits, rfl⟩
  · exact ⟨.inl ⟨hone, rfl⟩, rfl, rfl⟩
  · rcases read_cases hread with ⟨hone, -⟩ | ⟨-, rfl, hlen⟩
    · omega
    · exact ⟨.inr ⟨hnonneg, hfits, _, rfl, hlen, rfl⟩, rfl, rfl⟩

theorem copyIn_spec (h : copyIn host input c s = .ok c') (hs : Copied s) (hpos : PlacedInFile s) :
    c'.output = c.output ++ sectionBytes input s ∧ FullyRead input s ∧
      (40 + c.output.length < 2 ^ 31 → 40 + c'.output.length < 2 ^ 31) ∧
      c'.inNoffFile = c.inNoffFile + s.sSize ∧ c'.noffH = c.noffH := by
  obtain ⟨hcases, hoffset, hnoff⟩ := copyIn_cases h
  unfold FullyRead sectionBytes
  rw [if_pos hs]
  rcases hcases with ⟨hone, hout⟩ | ⟨hnonneg, hfits, buffer, hout, hlen, hbuffer⟩
  · refine ⟨by simp [hout, hone], .inl hone, by simp [hout], hoffset, hnoff⟩
  · have hbytes : (input.drop s.sScnptr.toInt.toNat).take s.sSize.toInt.toNat = buffer := by
      rcases hnonneg.eq_or_lt with hzero | hsome
      · rw [hbuffer, ← hzero, Int.toNat_zero, List.take_zero, List.take_zero]
      · rw [hbuffer, lseek_of_nonneg (hpos hs hsome)]
    rw [hbytes]
    refine ⟨hout, .inr hlen, fun _ => ?_, hoffset, hnoff⟩
    rw [hout, List.length_append]
    omega

/-- INTERNAL: what one accepted round of the loop does. -/
theorem roundOf_of_copySection (h : copySection host input c s = .ok c') (hpos : PlacedInFile s) :
    RoundOf input s c c' := by
  unfold copySection at h
  split_ifs at h with hzero htext hdata hone hbss hmerge hnext
  · -- a section of size 0 is passed over
    simp only [Except.ok.injEq] at h
    subst h
    have hbytes : sectionBytes input s = [] := by simp [sectionBytes, hzero]
    refine ⟨by simp [hbytes], fun _ => .inr (by simp [hbytes, hzero]), id,
      by simp [netSize, hzero], by simp [hzero], by simp [hzero], fun _ hne => absurd hzero hne,
      by simp [mergeBss, hzero]⟩
  · have hcopied : Copied s := .inl htext
    obtain ⟨hout, hfully, hfits, hoffset, hnoff⟩ := copyIn_spec h hcopied hpos
    refine ⟨hout, fun _ => hfully, hfits, ?_, ?_, ?_, ?_, ?_⟩
    · rw [hoffset, netSize, if_pos hcopied, BitVec.ofInt_toInt]
    · rw [hnoff, if_pos ⟨htext, hzero⟩]
    · rw [hnoff, if_neg fun hd => not_isData_of_isText htext hd.1]
    · exact fun hd => absurd hd (not_isData_of_isText htext)
    · rw [hnoff, mergeBss, if_neg fun hb => not_isBss_of_copied hcopied hb.1]
  · have hcopied : Copied s := .inr hdata
    obtain ⟨hout, hfully, hfits, hoffset, hnoff⟩ := copyIn_spec h hcopied hpos
    refine ⟨hout, fun _ => hfully, hfits, ?_, ?_, ?_, ?_, ?_⟩
    · rw [hoffset, netSize, if_pos hcopied, BitVec.ofInt_toInt]
    · rw [hnoff, if_neg fun ht => htext ht.1]
    · rw [hnoff, if_pos ⟨hdata, hzero⟩]
    · exact fun _ _ => by simpa using hone
    · rw [hnoff, mergeBss, if_neg fun hb => not_isBss_of_copied hcopied hb.1]
  all_goals
    -- uninitialised data leaves everything but its own segment
    have hcopied : ¬Copied s := fun hc => hc.elim htext hdata
    simp only [Except.ok.injEq] at h
    subst h
    refine ⟨by simp [sectionBytes, hcopied], fun hc => absurd hc hcopied, id,
      by simp [netSize, hcopied], by simp [htext], by simp [hdata], fun hd => absurd hd hdata, ?_⟩
    rw [mergeBss, if_pos ⟨hbss, hzero⟩]
  · rw [if_pos hmerge]
  · rw [if_neg hmerge]

/-! ## All sections -/

/-- `inNoffFile` behind a list of sections. -/
def offsetAfter (l : List Scnhdr) : BitVec 32 := BitVec.ofInt 32 (40 + (l.map netSize).sum)

theorem offsetAfter_snoc (l : List Scnhdr) (s : Scnhdr) :
    offsetAfter (l ++ [s]) = offsetAfter l + BitVec.ofInt 32 (netSize s) := by
  rw [offsetAfter, offsetAfter, ← BitVec.ofInt_add]
  congr 1
  simp only [List.map_append, List.map_cons, List.map_nil, List.sum_append, List.sum_cons,
    List.sum_nil]
  omega

/-- A segment of the header: empty, or the last section of its kind, with the value of `inNoffFile`
before it. -/
inductive Recorded (kind : Scnhdr → Prop) (l : List Scnhdr) (segment : Segment) : Prop
  | none (hnone : ∀ s ∈ l, ¬kind s) (hsize : segment.size = 0#32)
  | last (l₁ : List Scnhdr) (t : Scnhdr) (l₂ : List Scnhdr) (hl : l = l₁ ++ t :: l₂) (ht : kind t)
      (hlast : ∀ s ∈ l₂, ¬kind s) (hsegment : segment = ⟨t.sPaddr, offsetAfter l₁, t.sSize⟩)

/-- INTERNAL: a round puts a section of the kind in the place of the one before, and leaves the
segment otherwise. -/
theorem Recorded.snoc [DecidablePred kind] {segment segment' : Segment}
    (h : Recorded kind l segment)
    (hs : segment' = if kind s then ⟨s.sPaddr, offsetAfter l, s.sSize⟩ else segment) :
    Recorded kind (l ++ [s]) segment' := by
  by_cases hkind : kind s
  · rw [if_pos hkind] at hs
    exact .last l s [] rfl hkind (by simp) hs
  · rw [if_neg hkind] at hs
    subst hs
    cases h with
    | none hnone hsize =>
      refine .none (fun x hx => ?_) hsize
      rcases List.mem_append.mp hx with hx | hx
      · exact hnone x hx
      · rwa [List.mem_singleton.mp hx]
    | last l₁ t l₂ hl ht hlast hsegment =>
      refine .last l₁ t (l₂ ++ [s]) (by simp [hl]) ht (fun x hx => ?_) hsegment
      rcases List.mem_append.mp hx with hx | hx
      · exact hlast x hx
      · rwa [List.mem_singleton.mp hx]

/-- A code section that the program takes up. -/
abbrev TextKept (s : Scnhdr) : Prop := IsText s ∧ s.sSize ≠ 0#32

/-- A section of initialised data that the program takes up. -/
abbrev DataKept (s : Scnhdr) : Prop := IsData s ∧ s.sSize ≠ 0#32

/-- What the loop has done with the sections of a list. -/
structure Converted (host : Host) (input : List Byte) (l : List Scnhdr) (c : Conversion) :
    Prop where
  output : c.output = l.flatMap (sectionBytes input)
  fully : ∀ s ∈ l, Copied s → FullyRead input s
  fits : 40 + c.output.length < 2 ^ 31
  offset : c.inNoffFile = offsetAfter l
  code : Recorded TextKept l c.noffH.code
  initData : Recorded DataKept l c.noffH.initData
  once : l.Pairwise fun s t => DataKept s → ¬DataKept t
  bss : (c.noffH.uninitData.virtualAddr, c.noffH.uninitData.size) =
    l.foldl mergeBss (host.stack.uninitData.virtualAddr, 0#32)

theorem converted_start (host : Host) (input : List Byte) (position : ℕ) :
    Converted host input [] (start host position) where
  output := rfl
  fully := by simp
  fits := by simp [start]
  offset := rfl
  code := .none (by simp) rfl
  initData := .none (by simp) rfl
  once := .nil
  bss := rfl

/-- INTERNAL: one more section. -/
theorem Converted.snoc (h : Converted host input l c) (hround : RoundOf input s c c') :
    Converted host input (l ++ [s]) c' where
  output := by simp [hround.output, h.output]
  fully := by
    intro x hx hcopied
    rcases List.mem_append.mp hx with hx | hx
    · exact h.fully x hx hcopied
    · rw [List.mem_singleton.mp hx] at hcopied ⊢
      exact hround.fully hcopied
  fits := hround.fits h.fits
  offset := by rw [hround.offset, h.offset, offsetAfter_snoc]
  code := h.code.snoc (by rw [hround.code, h.offset])
  initData := h.initData.snoc (by rw [hround.initData, h.offset])
  once := by
    refine List.pairwise_append.mpr ⟨h.once, List.pairwise_singleton _ _, fun x hx y hy hkept => ?_⟩
    rw [List.mem_singleton.mp hy]
    intro hdata
    -- the size of the data segment is zero, so no section has been taken up yet
    have hsize := hround.once hdata.1 hdata.2
    cases h.initData with
    | none hnone => exact hnone x hx hkept
    | last l₁ t l₂ hl ht hlast hsegment =>
      rw [hsegment] at hsize
      exact ht.2 hsize
  bss := by rw [hround.bss, h.bss, List.foldl_append, List.foldl_cons, List.foldl_nil]

theorem converted_of_foldlM (hpos : ∀ s ∈ sections, PlacedInFile s)
    (h : sections.foldlM (copySection host input) (start host position) = .ok c) :
    Converted host input sections c := by
  induction sections using List.reverseRecOn generalizing c with
  | nil =>
    simp only [List.foldlM_nil, pure, Except.pure, Except.ok.injEq] at h
    subst h
    exact converted_start host input position
  | append_singleton l s ih =>
    obtain ⟨c₁, hl, hstep⟩ := foldlM_snoc.mp h
    exact (ih (fun x hx => hpos x (List.mem_append_left _ hx)) hl).snoc
      (roundOf_of_copySection hstep (hpos s (by simp)))

theorem convert_cases {executable : Executable}
    (h : convert host input position sections = .ok executable) :
    ∃ c, sections.foldlM (copySection host input) (start host position) = .ok c ∧
      host.writes c.writes = true ∧ executable = ⟨c.noffH, c.noffH.bytes ++ c.output⟩ := by
  unfold convert at h
  obtain ⟨c, hloop, h⟩ := bind_eq_ok.mp h
  split_ifs at h with hwrite
  simp only [pure, Except.pure, Except.ok.injEq] at h
  exact ⟨c, hloop, hwrite, h.symm⟩

/-! ## Where the bytes of a section end up -/

/-- How many sections before this point have moved `inNoffFile` back. -/
def backward (l : List Scnhdr) : ℕ :=
  l.countP fun s => decide (Copied s ∧ s.sSize.toInt = -1)

theorem length_sectionBytes (h : Copied s → FullyRead input s) :
    ((sectionBytes input s).length : ℤ) =
      netSize s + if Copied s ∧ s.sSize.toInt = -1 then 1 else 0 := by
  unfold netSize
  by_cases hcopied : Copied s
  · by_cases hone : s.sSize.toInt = -1
    · rw [if_pos hcopied, if_pos ⟨hcopied, hone⟩, hone]
      simp [sectionBytes, hone]
    · rw [if_pos hcopied, if_neg fun h' => hone h'.2, Int.add_zero]
      exact (h hcopied).resolve_left hone
  · simp [sectionBytes, hcopied]

theorem sum_netSize (h : ∀ s ∈ l, Copied s → FullyRead input s) :
    (l.map netSize).sum = (l.flatMap (sectionBytes input)).length - backward l := by
  induction l with
  | nil => rfl
  | cons s l ih =>
    have hs := length_sectionBytes (h s List.mem_cons_self)
    have hl := ih fun x hx => h x (List.mem_cons_of_mem s hx)
    unfold backward at hl ⊢
    rw [List.map_cons, List.sum_cons, List.flatMap_cons, List.length_append, List.countP_cons, hl]
    push_cast
    simp only [decide_eq_true_eq]
    omega

theorem length_bytes (noffH : NoffHeader) : noffH.bytes.length = 40 := by
  simp [NoffHeader.bytes]

section Output

variable {l₁ l₂ : List Scnhdr} {t : Scnhdr}

theorem Converted.length_le (h : Converted host input (l₁ ++ t :: l₂) c) :
    (l₁.flatMap (sectionBytes input)).length + (sectionBytes input t).length ≤
      c.output.length := by
  rw [h.output, List.flatMap_append, List.flatMap_cons]
  simp only [List.length_append]
  omega

theorem Converted.fully_before (h : Converted host input (l₁ ++ t :: l₂) c) :
    ∀ s ∈ l₁, Copied s → FullyRead input s :=
  fun s hs => h.fully s (List.mem_append_left _ hs)

theorem Converted.toInt_offsetAfter (h : Converted host input (l₁ ++ t :: l₂) c)
    (hcount : (l₁ ++ t :: l₂).length < 65536) :
    (offsetAfter l₁).toInt =
      40 + (l₁.flatMap (sectionBytes input)).length - backward l₁ := by
  have hle := h.length_le
  have hfits := h.fits
  have hback : backward l₁ ≤ l₁.length := List.countP_le_length
  rw [List.length_append, List.length_cons] at hcount
  rw [offsetAfter, sum_netSize h.fully_before, toInt_ofInt_of_lt] <;> omega

theorem Converted.getElem?_output (h : Converted host input (l₁ ++ t :: l₂) c) (ht : Copied t)
    {k : ℕ} (hk : (k : ℤ) < t.sSize.toInt) :
    c.output[(l₁.flatMap (sectionBytes input)).length + k]? =
      input[t.sScnptr.toInt.toNat + k]? := by
  have hlen := (h.fully t (by simp) ht).resolve_left (by omega)
  have hlt : k < (sectionBytes input t).length := by omega
  rw [h.output, List.flatMap_append, List.flatMap_cons, List.getElem?_append_right (by omega),
    Nat.add_sub_cancel_left, List.getElem?_append_left hlt, sectionBytes, if_pos ht,
    List.getElem?_take_of_lt (by omega), List.getElem?_drop]

/-- INTERNAL: a segment whose offset has not moved back holds the bytes of its section. -/
theorem Converted.segmentImage_eq (h : Converted host input (l₁ ++ t :: l₂) c)
    (hcount : (l₁ ++ t :: l₂).length < 65536) (ht : Copied t) (hpos : PlacedInFile t)
    (hback : 0 < t.sSize.toInt → backward l₁ = 0) :
    segmentImage (c.noffH.bytes ++ c.output) ⟨t.sPaddr, offsetAfter l₁, t.sSize⟩ =
      placedBytes input t.sPaddr.toInt t.sScnptr.toInt t.sSize.toInt := by
  have hoffset := h.toInt_offsetAfter hcount
  have hheader := length_bytes c.noffH
  ext p
  unfold segmentImage placedBytes
  simp only [Set.mem_ofPred_eq]
  -- the same byte number on both sides
  refine exists_congr fun k => and_congr_right fun hk => and_congr_right fun hlt =>
    and_congr_right fun _ => ?_
  have hstart := hpos ht (by omega)
  rw [hback (by omega)] at hoffset
  have hindex : ((offsetAfter l₁).toInt + k).toNat =
      40 + ((l₁.flatMap (sectionBytes input)).length + k.toNat) := by omega
  have hinput : (t.sScnptr.toInt + k).toNat = t.sScnptr.toInt.toNat + k.toNat := by omega
  rw [hindex, hinput, List.getElem?_append_right (by omega), hheader, Nat.add_sub_cancel_left,
    h.getElem?_output ht (by omega)]
  exact and_congr_left fun _ => ⟨fun _ => by omega, fun _ => by omega⟩

end Output

/-! ## The sections that are converted faithfully -/

/-- `virtualAddr` and `size` of the uninitialised data of the output. Before the first section the
address is what was on the stack; that is put to 0 here, and no image shows it. -/
def mergedBss (sections : List Scnhdr) : BitVec 32 × BitVec 32 :=
  sections.foldl mergeBss (0#32, 0#32)

/-- No section of size -1 comes before one with bytes. -/
def Unshifted (sections : List Scnhdr) : Prop :=
  sections.Pairwise fun s t => Copied s → s.sSize.toInt = -1 → Copied t → ¬0 < t.sSize.toInt

/-- No code section is followed by another one, none of size -1 comes before one with bytes, and the
uninitialised data fills the range of the output's header. -/
structure Convertible (sections : List Scnhdr) : Prop where
  text : sections.Pairwise fun s t => IsText s → 0 < s.sSize.toInt → ¬TextKept t
  unshifted : Unshifted sections
  bss : ∀ x : ℤ,
    (∃ s ∈ sections, IsBss s ∧ s.sPaddr.toInt ≤ x ∧ x < s.sPaddr.toInt + s.sSize.toInt) ↔
      (mergedBss sections).1.toInt ≤ x ∧
        x < (mergedBss sections).1.toInt + (mergedBss sections).2.toInt

/-- The two have the same size, and the same address unless they are empty. -/
def SameBss (a b : BitVec 32 × BitVec 32) : Prop := a.2 = b.2 ∧ (a.2 ≠ 0#32 → a.1 = b.1)

theorem SameBss.merge {a b : BitVec 32 × BitVec 32} (h : SameBss a b) (s : Scnhdr) :
    SameBss (mergeBss a s) (mergeBss b s) := by
  unfold SameBss mergeBss at *
  split_ifs with hs ha hb hb
  · exact ⟨by rw [h.1], fun _ => h.2 ha⟩
  · exact absurd h.1 (by simp_all)
  · exact absurd h.1 (by simp_all)
  · exact ⟨rfl, fun _ => rfl⟩
  · exact h

theorem SameBss.foldl {a b : BitVec 32 × BitVec 32} (h : SameBss a b) (l : List Scnhdr) :
    SameBss (l.foldl mergeBss a) (l.foldl mergeBss b) := by
  induction l generalizing a b with
  | nil => exact h
  | cons s l ih => exact ih (h.merge s)

theorem Converted.zeroBytes_eq (h : Converted host input sections c) :
    zeroBytes c.noffH.uninitData.virtualAddr.toInt c.noffH.uninitData.size.toInt =
      zeroBytes (mergedBss sections).1.toInt (mergedBss sections).2.toInt := by
  have hstart : SameBss (host.stack.uninitData.virtualAddr, 0#32) (0#32, 0#32) :=
    ⟨rfl, fun hne => absurd rfl hne⟩
  obtain ⟨hsize, haddr⟩ := h.bss ▸ hstart.foldl sections
  change c.noffH.uninitData.size = (mergedBss sections).2 at hsize
  rw [← hsize]
  by_cases hzero : c.noffH.uninitData.size = 0#32
  · ext p
    simp only [zeroBytes, hzero, BitVec.toInt_zero, Set.mem_ofPred_eq]
    constructor <;> intro hp <;> omega
  · have haddr' : c.noffH.uninitData.virtualAddr = (mergedBss sections).1 := haddr hzero
    rw [haddr']

theorem Unshifted.backward_eq_zero {l₁ l₂ : List Scnhdr} {t : Scnhdr}
    (h : Unshifted (l₁ ++ t :: l₂))
    (ht : Copied t) (hsize : 0 < t.sSize.toInt) : backward l₁ = 0 := by
  rw [backward, List.countP_eq_zero]
  intro s hs
  simp only [decide_eq_true_eq]
  rintro ⟨hcopied, hone⟩
  exact (List.pairwise_append.mp h).2.2 s hs t List.mem_cons_self hcopied hone ht hsize

theorem Converted.segmentImage_cases (h : Converted host input sections c)
    (hcount : sections.length < 65536) (hpos : ∀ s ∈ sections, PlacedInFile s)
    (hunshifted : Unshifted sections) (hkind : ∀ s, kind s → Copied s)
    (hrecorded : Recorded kind sections segment) :
    ((∀ s ∈ sections, ¬kind s) ∧ ∀ p, p ∉ segmentImage (c.noffH.bytes ++ c.output) segment) ∨
      ∃ l₁ t l₂, sections = l₁ ++ t :: l₂ ∧ kind t ∧ (∀ s ∈ l₂, ¬kind s) ∧
        segmentImage (c.noffH.bytes ++ c.output) segment =
          placedBytes input t.sPaddr.toInt t.sScnptr.toInt t.sSize.toInt := by
  cases hrecorded with
  | none hnone hsize =>
    refine .inl ⟨hnone, fun p hp => ?_⟩
    obtain ⟨k, hk, hlt, -⟩ := hp
    rw [hsize, BitVec.toInt_zero] at hlt
    omega
  | last l₁ t l₂ hl ht hlast hsegment =>
    subst hl hsegment
    exact .inr ⟨l₁, t, l₂, rfl, ht, hlast, h.segmentImage_eq hcount (hkind t ht)
      (hpos t (by simp)) (hunshifted.backward_eq_zero (hkind t ht))⟩

/-- INTERNAL: where a segment of the output is in the file. -/
theorem Converted.position_cases (h : Converted host input sections c)
    (hcount : sections.length < 65536) (hunshifted : Unshifted sections)
    (hkind : ∀ s, kind s → Copied s) (hrecorded : Recorded kind sections segment)
    (hsize : 0 < segment.size.toInt) :
    ∃ l₁ t l₂, sections = l₁ ++ t :: l₂ ∧ kind t ∧
      segment.inFileAddr.toInt = 40 + (l₁.flatMap (sectionBytes input)).length ∧
      segment.size.toInt = (sectionBytes input t).length := by
  cases hrecorded with
  | none hnone hzero =>
    rw [hzero, BitVec.toInt_zero] at hsize
    omega
  | last l₁ t l₂ hl ht hlast hsegment =>
    subst hl hsegment
    have hback := hunshifted.backward_eq_zero (hkind t ht) hsize
    have hoffset := h.toInt_offsetAfter hcount
    have hlen := (h.fully t (by simp) (hkind t ht)).resolve_left (by
      simp only at hsize
      omega)
    rw [hback] at hoffset
    exact ⟨l₁, t, l₂, rfl, ht, by simpa using hoffset, hlen.symm⟩

theorem Converted.behindHeader (h : Converted host input sections c)
    (hcount : sections.length < 65536) (hunshifted : Unshifted sections)
    (hkind : ∀ s, kind s → Copied s) (hrecorded : Recorded kind sections segment) :
    BehindHeader ⟨c.noffH, c.noffH.bytes ++ c.output⟩ segment := by
  intro hsize
  obtain ⟨l₁, t, l₂, rfl, -, hoffset, hlen⟩ :=
    h.position_cases hcount hunshifted hkind hrecorded hsize
  have hle := h.length_le
  rw [hoffset, hlen, List.length_append, length_bytes]
  omega

/-- Two places in one list: the same one, or the one before the other. -/
theorem split_cases {l₁ l₂ m₁ m₂ : List Scnhdr} {t u : Scnhdr}
    (h : l₁ ++ t :: l₂ = m₁ ++ u :: m₂) :
    (l₁ = m₁ ∧ t = u ∧ l₂ = m₂) ∨ (∃ m, m₁ = l₁ ++ t :: m ∧ l₂ = m ++ u :: m₂) ∨
      ∃ m, l₁ = m₁ ++ u :: m ∧ m₂ = m ++ t :: l₂ := by
  rcases List.append_eq_append_iff.mp h with ⟨m, hm, hrest⟩ | ⟨m, hm, hrest⟩
  · rcases List.cons_eq_append_iff.mp hrest with ⟨rfl, hcons⟩ | ⟨m', rfl, hm'⟩
    · simp only [List.cons.injEq] at hcons
      exact .inl ⟨by simpa using hm.symm, hcons.1.symm, hcons.2.symm⟩
    · exact .inr (.inl ⟨m', hm, hm'⟩)
  · rcases List.cons_eq_append_iff.mp hrest with ⟨rfl, hcons⟩ | ⟨m', rfl, hm'⟩
    · simp only [List.cons.injEq] at hcons
      exact .inl ⟨by simpa using hm, hcons.1, hcons.2⟩
    · exact .inr (.inr ⟨m', hm, hm'⟩)

theorem eq_last {l₁ l₂ : List Scnhdr} {t : Scnhdr} (hs : s ∈ l₁ ++ t :: l₂) (hkind : kind s)
    (hbefore : s ∉ l₁) (hlast : ∀ x ∈ l₂, ¬kind x) : s = t := by
  rcases List.mem_append.mp hs with hs | hs
  · exact absurd hs hbefore
  · rcases List.mem_cons.mp hs with hs | hs
    · exact hs
    · exact absurd hkind (hlast s hs)

/-- INTERNAL: a conversion of such sections is faithful. -/
theorem Convertible.faithful (hgood : Convertible sections) (h : Converted host input sections c)
    (hcount : sections.length < 65536) (hpos : ∀ s ∈ sections, PlacedInFile s) :
    Faithful input sections ⟨c.noffH, c.noffH.bytes ++ c.output⟩ := by
  have hcode := h.segmentImage_cases hcount hpos hgood.unshifted (fun s hs => .inl hs.1) h.code
  have hdata := h.segmentImage_cases hcount hpos hgood.unshifted (fun s hs => .inr hs.1) h.initData
  refine ⟨?_, h.behindHeader hcount hgood.unshifted (fun s hs => .inl hs.1) h.code,
    h.behindHeader hcount hgood.unshifted (fun s hs => .inr hs.1) h.initData, ?_⟩
  · ext p
    simp only [noffImage, coffImage, sectionImage, Set.mem_ofPred_eq, h.zeroBytes_eq]
    constructor
    · rintro (hp | hp | hp)
      · rcases hcode with ⟨-, hnone⟩ | ⟨l₁, t, l₂, hl, ht, -, himage⟩
        · exact absurd hp (hnone p)
        · exact ⟨t, by simp [hl], .inl ⟨.inl ht.1, himage ▸ hp⟩⟩
      · rcases hdata with ⟨-, hnone⟩ | ⟨l₁, t, l₂, hl, ht, -, himage⟩
        · exact absurd hp (hnone p)
        · exact ⟨t, by simp [hl], .inl ⟨.inr ht.1, himage ▸ hp⟩⟩
      · obtain ⟨s, hs, hbss, hlo, hhi⟩ := (hgood.bss p.1).mpr ⟨hp.1, hp.2.1⟩
        exact ⟨s, hs, .inr ⟨hbss, hlo, hhi, hp.2.2⟩⟩
    · rintro ⟨s, hs, ⟨hcopied, hp⟩ | ⟨hbss, hlo, hhi, hzero⟩⟩
      · -- a section with a byte in the image is the last one of its kind
        have hsize : 0 < s.sSize.toInt := by
          obtain ⟨k, hk, hlt, -⟩ := hp
          omega
        have hne : s.sSize ≠ 0#32 := by
          rintro heq
          rw [heq, BitVec.toInt_zero] at hsize
          omega
        rcases hcopied with htext | hisdata
        · rcases hcode with ⟨hnone, -⟩ | ⟨l₁, t, l₂, rfl, ht, hlast, himage⟩
          · exact absurd ⟨htext, hne⟩ (hnone s hs)
          · have heq : s = t := eq_last hs ⟨htext, hne⟩ (fun hs =>
              (List.pairwise_append.mp hgood.text).2.2 s hs t List.mem_cons_self htext hsize ht)
              hlast
            subst heq
            exact .inl (himage ▸ hp)
        · rcases hdata with ⟨hnone, -⟩ | ⟨l₁, t, l₂, rfl, ht, hlast, himage⟩
          · exact absurd ⟨hisdata, hne⟩ (hnone s hs)
          · have heq : s = t := eq_last hs ⟨hisdata, hne⟩ (fun hs =>
              (List.pairwise_append.mp h.once).2.2 s hs t List.mem_cons_self ⟨hisdata, hne⟩ ht)
              hlast
            subst heq
            exact .inr (.inl (himage ▸ hp))
      · obtain ⟨hlo', hhi'⟩ := (hgood.bss p.1).mp ⟨s, hs, hbss, hlo, hhi⟩
        exact .inr (.inr ⟨hlo', hhi', hzero⟩)
  · intro hcodesize hdatasize
    obtain ⟨l₁, t, l₂, hl, ht, hoffset, hlen⟩ :=
      h.position_cases hcount hgood.unshifted (fun s hs => .inl hs.1) h.code hcodesize
    obtain ⟨m₁, d, m₂, hm, hd, hoffset', hlen'⟩ :=
      h.position_cases hcount hgood.unshifted (fun s hs => .inr hs.1) h.initData hdatasize
    simp only at hcodesize hdatasize ⊢
    rcases split_cases (hl.symm.trans hm) with ⟨-, rfl, -⟩ | ⟨m, rfl, -⟩ | ⟨m, rfl, -⟩
    · exact absurd hd.1 (not_isData_of_isText ht.1)
    · refine .inl ?_
      rw [hoffset, hlen, hoffset']
      simp only [List.flatMap_append, List.flatMap_cons, List.length_append]
      omega
    · refine .inr ?_
      rw [hoffset, hlen', hoffset']
      simp only [List.flatMap_append, List.flatMap_cons, List.length_append]
      omega

/-! ## Moving the sections to other places -/

/-- The section with its bytes at another place of the file. -/
def placedAt (position : BitVec 32) (s : Scnhdr) : Scnhdr := { s with sScnptr := position }

/-- The same sections, with their bytes at other places. -/
def Moved (sections sections' : List Scnhdr) : Prop :=
  sections'.map (placedAt 0#32) = sections.map (placedAt 0#32)

theorem Moved.pairwise (h : Moved sections sections') {R : Scnhdr → Scnhdr → Prop}
    (hR : ∀ s t, R (placedAt 0#32 s) (placedAt 0#32 t) ↔ R s t) (hsections : sections.Pairwise R) :
    sections'.Pairwise R := by
  have hmap : ∀ l : List Scnhdr, (l.map (placedAt 0#32)).Pairwise R ↔ l.Pairwise R := by
    intro l
    rw [List.pairwise_map]
    exact ⟨fun hl => hl.imp fun {s t} => (hR s t).mp, fun hl => hl.imp fun {s t} => (hR s t).mpr⟩
  rw [← hmap, h, hmap]
  exact hsections

theorem Moved.exists_mem_iff (h : Moved sections sections') {P : Scnhdr → Prop}
    (hP : ∀ s, P (placedAt 0#32 s) ↔ P s) : (∃ s ∈ sections', P s) ↔ ∃ s ∈ sections, P s := by
  have hmap : ∀ l : List Scnhdr, (∃ s ∈ l.map (placedAt 0#32), P s) ↔ ∃ s ∈ l, P s := by
    intro l
    simp only [List.mem_map, exists_exists_and_eq_and, hP]
  rw [← hmap, h, hmap]

theorem Moved.mergedBss_eq (h : Moved sections sections') :
    mergedBss sections' = mergedBss sections := by
  have hmap : ∀ l : List Scnhdr, mergedBss (l.map (placedAt 0#32)) = mergedBss l :=
    fun l => List.foldl_map
  rw [← hmap, h, hmap]

theorem Moved.unshifted (h : Moved sections sections') (hunshifted : Unshifted sections) :
    Unshifted sections' :=
  h.pairwise (fun _ _ => Iff.rfl) hunshifted

theorem Moved.convertible (h : Moved sections sections') (hgood : Convertible sections) :
    Convertible sections' where
  text := h.pairwise (fun _ _ => Iff.rfl) hgood.text
  unshifted := h.unshifted hgood.unshifted
  bss := by
    intro x
    rw [h.mergedBss_eq, ← hgood.bss x]
    exact h.exists_mem_iff fun _ => Iff.rfl

/-- The bytes of the section are in the file. -/
def HasRoom (input : List Byte) (s : Scnhdr) : Prop :=
  0 ≤ s.sScnptr.toInt ∧ s.sScnptr.toInt + s.sSize.toInt ≤ input.length

/-- Two conversions that differ in the bytes only. -/
structure Alike (c d : Conversion) : Prop where
  noffH : d.noffH = c.noffH
  inNoffFile : d.inNoffFile = c.inNoffFile
  length : d.output.length = c.output.length

section Moving

variable {host' : Host} {input' : List Byte} {d : Conversion} {s' : Scnhdr}

/-- INTERNAL: copying goes through for a section of the same size whose bytes are there. -/
theorem copyIn_alike (h : copyIn host input c s = .ok c') (halike : Alike c d)
    (hsize : s'.sSize = s.sSize) (hroom : HasRoom input' s') (hwrites : ∀ k, host'.writes k = true) :
    ∃ d', copyIn host' input' d s' = .ok d' ∧ Alike c' d' := by
  obtain ⟨hcases, hoffset, hnoff⟩ := copyIn_cases h
  obtain ⟨hpos, hin⟩ := hroom
  rw [hsize] at hin
  rcases hcases with ⟨hone, hout⟩ | ⟨hnonneg, hfits, buffer, hout, hlen, -⟩
  · have hrun : copyIn host' input' d s' = .ok
        { d with position := s'.sScnptr.toInt.toNat, inNoffFile := d.inNoffFile + s.sSize } := by
      simp [copyIn, Coff2noff.read, write, lseek_of_nonneg hpos, hsize, hone, bind, Except.bind,
        pure, Except.pure]
    refine ⟨_, hrun, ?_, ?_, ?_⟩
    · rw [hnoff, ← halike.noffH]
    · rw [hoffset, ← halike.inNoffFile]
    · rw [hout, ← halike.length]
  · have hneg : ¬s.sSize.toInt < 0 := by omega
    have hread : (((input'.drop s'.sScnptr.toInt.toNat).take s.sSize.toInt.toNat).length : ℤ) =
        s.sSize.toInt := by
      rw [List.length_take, List.length_drop]
      omega
    have hwrite : 40 + d.output.length + s.sSize.toInt < 2 ^ 31 := by
      rw [halike.length]
      exact hfits
    have hrun : copyIn host' input' d s' = .ok { d with
        position := s'.sScnptr.toInt.toNat +
          ((input'.drop s'.sScnptr.toInt.toNat).take s.sSize.toInt.toNat).length
        output := d.output ++ (input'.drop s'.sScnptr.toInt.toNat).take s.sSize.toInt.toNat
        writes := d.writes + 1
        inNoffFile := d.inNoffFile + s.sSize } := by
      simp only [copyIn, Coff2noff.read, write, lseek_of_nonneg hpos, hsize, hneg, if_false, hread,
        if_true, hwrites, hwrite, and_self, bind, Except.bind, pure, Except.pure]
    refine ⟨_, hrun, ?_, ?_, ?_⟩
    · rw [hnoff, ← halike.noffH]
    · rw [hoffset, ← halike.inNoffFile]
    · rw [List.length_append, hout, List.length_append, halike.length]
      omega

/-- INTERNAL: a round of the loop goes through for the same section at another place. -/
theorem copySection_alike (h : copySection host input c s = .ok c') (halike : Alike c d)
    (hmoved : placedAt 0#32 s' = placedAt 0#32 s) (hroom : HasRoom input' s')
    (hwrites : ∀ k, host'.writes k = true) :
    ∃ d', copySection host' input' d s' = .ok d' ∧ Alike c' d' := by
  simp only [placedAt, Scnhdr.mk.injEq, and_true] at hmoved
  obtain ⟨hname, hpaddr, hsize⟩ := hmoved
  obtain ⟨hnoff, hoffset, hlen⟩ := halike
  unfold copySection at h ⊢
  rw [hname, hpaddr, hsize, hnoff, hoffset]
  by_cases hzero : s.sSize = 0#32
  · rw [if_pos hzero, Except.ok.injEq] at h
    subst h
    rw [if_pos hzero]
    exact ⟨d, rfl, hnoff, hoffset, hlen⟩
  rw [if_neg hzero] at h ⊢
  by_cases htext : s.sName = cString ".text"
  · rw [if_pos htext] at h ⊢
    exact copyIn_alike h ⟨rfl, rfl, hlen⟩ hsize hroom hwrites
  rw [if_neg htext] at h ⊢
  by_cases hdata : s.sName = cString ".data" ∨ s.sName = cString ".rdata"
  · rw [if_pos hdata] at h ⊢
    by_cases hone : c.noffH.initData.size ≠ 0#32
    · rw [if_pos hone] at h
      cases h
    · rw [if_neg hone] at h ⊢
      exact copyIn_alike h ⟨rfl, rfl, hlen⟩ hsize hroom hwrites
  rw [if_neg hdata] at h ⊢
  by_cases hbss : s.sName = cString ".bss" ∨ s.sName = cString ".sbss"
  · rw [if_pos hbss] at h ⊢
    by_cases hmerge : c.noffH.uninitData.size ≠ 0#32
    · rw [if_pos hmerge] at h ⊢
      by_cases hnext : s.sPaddr = c.noffH.uninitData.virtualAddr + c.noffH.uninitData.size
      · rw [if_pos hnext] at h
        cases h
      · rw [if_neg hnext, Except.ok.injEq] at h
        subst h
        rw [if_neg hnext]
        exact ⟨_, rfl, rfl, rfl, hlen⟩
    · rw [if_neg hmerge, Except.ok.injEq] at h
      subst h
      rw [if_neg hmerge]
      exact ⟨_, rfl, rfl, rfl, hlen⟩
  · rw [if_neg hbss] at h
    cases h

/-- INTERNAL: the loop goes through for the same sections at other places. -/
theorem foldlM_alike (position' : ℕ)
    (h : sections.foldlM (copySection host input) (start host position) = .ok c)
    (hmoved : Moved sections sections') (hroom : ∀ s ∈ sections', HasRoom input' s)
    (hwrites : ∀ k, host'.writes k = true) (hstack : host'.stack = host.stack) :
    ∃ d, sections'.foldlM (copySection host' input') (start host' position') = .ok d ∧
      Alike c d := by
  induction sections using List.reverseRecOn generalizing c sections' with
  | nil =>
    have hnil : sections' = [] := List.map_eq_nil_iff.mp hmoved
    simp only [List.foldlM_nil, pure, Except.pure, Except.ok.injEq] at h
    subst hnil h
    exact ⟨_, rfl, by simp [start, hstack], rfl, rfl⟩
  | append_singleton l s ih =>
    rw [Moved, List.map_append] at hmoved
    obtain ⟨l', rest, rfl, hl', hrest⟩ := List.map_eq_append_iff.mp hmoved
    obtain ⟨s', rfl, hs'⟩ := List.map_eq_singleton_iff.mp hrest
    obtain ⟨c₁, hl, hstep⟩ := foldlM_snoc.mp h
    obtain ⟨d₁, hd₁, halike⟩ := ih hl hl' fun x hx => hroom x (List.mem_append_left _ hx)
    obtain ⟨d, hd, halike'⟩ := copySection_alike hstep halike hs' (hroom s' (by simp)) hwrites
    exact ⟨d, foldlM_snoc.mpr ⟨d₁, hd₁, hd⟩, halike'⟩

end Moving

/-- There is a file with these sections that `coff2noff` accepts. -/
def Accepted (sections : List Scnhdr) : Prop :=
  ∃ host input position sections' executable, Moved sections sections' ∧
    convert host input position sections' = .ok executable

/-- The conversion is faithful wherever in the file the sections have their bytes, and whatever
these are. -/
def AlwaysFaithful (sections : List Scnhdr) : Prop :=
  ∀ host input position sections' executable, Moved sections sections' →
    (∀ s ∈ sections', PlacedInFile s) →
    convert host input position sections' = .ok executable → Faithful input sections' executable

theorem Accepted.converted (haccepted : Accepted sections) (hmoved : Moved sections sections')
    (hroom : ∀ s ∈ sections', HasRoom input s) (hfaithful : AlwaysFaithful sections) :
    ∃ host c, Converted host input sections' c ∧
      Faithful input sections' ⟨c.noffH, c.noffH.bytes ++ c.output⟩ := by
  obtain ⟨host, input₀, position, sections₀, executable, hmoved₀, hconvert⟩ := haccepted
  obtain ⟨c₀, hloop, -, -⟩ := convert_cases hconvert
  have hmoved' : Moved sections₀ sections' := hmoved.trans hmoved₀.symm
  have hpos : ∀ s ∈ sections', PlacedInFile s := fun s hs _ _ => (hroom s hs).1
  let host' : Host := ⟨fun _ => true, host.stack⟩
  have hwrites : ∀ k, host'.writes k = true := fun _ => rfl
  have hstack : host'.stack = host.stack := rfl
  obtain ⟨c, hc, -⟩ := foldlM_alike 0 hloop hmoved' hroom hwrites hstack
  have hrun : convert host' input 0 sections' = .ok ⟨c.noffH, c.noffH.bytes ++ c.output⟩ := by
    simp only [convert, hc, hwrites, if_true, bind, Except.bind, pure, Except.pure]
  exact ⟨host', c, converted_of_foldlM hpos hc, hfaithful host' input 0 sections' _ hmoved hpos hrun⟩

/-- Two members in order that are not related, when not all are. -/
theorem exists_split_of_not_pairwise {R : Scnhdr → Scnhdr → Prop} (h : ¬l.Pairwise R) :
    ∃ l₁ s l₂ t l₃, l = l₁ ++ s :: (l₂ ++ t :: l₃) ∧ ¬R s t := by
  induction l with
  | nil => exact absurd List.Pairwise.nil h
  | cons x l ih =>
    by_cases hl : l.Pairwise R
    · have hx : ¬∀ y ∈ l, R x y := fun hx => h (List.pairwise_cons.mpr ⟨hx, hl⟩)
      simp only [not_forall] at hx
      obtain ⟨y, hy, hxy⟩ := hx
      obtain ⟨l₂, l₃, rfl⟩ := List.append_of_mem hy
      exact ⟨[], x, l₂, y, l₃, rfl, hxy⟩
    · obtain ⟨l₁, s, l₂, t, l₃, rfl, hst⟩ := ih hl
      exact ⟨x :: l₁, s, l₂, t, l₃, rfl, hst⟩

/-- The last member of a kind. -/
theorem exists_last (kind : Scnhdr → Prop) (h : ∃ s ∈ l, kind s) :
    ∃ l₁ t l₂, l = l₁ ++ t :: l₂ ∧ kind t ∧ ∀ s ∈ l₂, ¬kind s := by
  induction l with
  | nil => simp at h
  | cons x l ih =>
    by_cases hl : ∃ s ∈ l, kind s
    · obtain ⟨l₁, t, l₂, rfl, ht, hlast⟩ := ih hl
      exact ⟨x :: l₁, t, l₂, rfl, ht, hlast⟩
    · simp only [not_exists, not_and] at hl
      obtain ⟨s, hs, hkind⟩ := h
      rcases List.mem_cons.mp hs with rfl | hs
      · exact ⟨[], s, l, rfl, hkind, hl⟩
      · exact absurd hkind (hl s hs)

theorem hasRoom_placedAt_zero (s : Scnhdr) (hlen : 2 ^ 31 ≤ input.length) :
    HasRoom input (placedAt 0#32 s) := by
  have hsize := BitVec.toInt_lt (x := s.sSize)
  refine ⟨by simp [placedAt], ?_⟩
  simp only [placedAt, BitVec.toInt_zero]
  omega

/-- The sections at one place, but for one of them. -/
def spreadOut (l₁ : List Scnhdr) (s : Scnhdr) (l₂ : List Scnhdr) (own others : BitVec 32) :
    List Scnhdr :=
  l₁.map (placedAt others) ++ placedAt own s :: l₂.map (placedAt others)

theorem moved_spreadOut (l₁ : List Scnhdr) (s : Scnhdr) (l₂ : List Scnhdr)
    (own others : BitVec 32) : Moved (l₁ ++ s :: l₂) (spreadOut l₁ s l₂ own others) := by
  simp only [Moved, spreadOut, List.map_append, List.map_cons, List.map_map]
  rfl

/-- A file of twos with a one at its end. -/
def oneAtEnd (n : ℕ) : List Byte := List.replicate n 2#8 ++ [1#8]

theorem oneAtEnd_getElem? {n k : ℕ} (hk : k < n) : (oneAtEnd n)[k]? = some 2#8 := by
  rw [oneAtEnd, List.getElem?_append_left (by simpa using hk), List.getElem?_replicate_of_lt hk]

theorem eq_two_of_mem {n : ℕ} (hn : 2 ^ 31 ≤ n + 1) {b : Byte}
    (hb : b ∈ sectionBytes (oneAtEnd n) (placedAt 0#32 s)) : b = 2#8 := by
  have hsize := BitVec.toInt_lt (x := s.sSize)
  unfold sectionBytes at hb
  split_ifs at hb with hcopied
  · simp only [placedAt, BitVec.toInt_zero, Int.toNat_zero, List.drop_zero] at hb
    obtain ⟨k, hk⟩ := List.mem_iff_getElem?.mp hb
    rw [List.getElem?_take] at hk
    split_ifs at hk with hlt
    rw [oneAtEnd_getElem? (by omega), Option.some.injEq] at hk
    exact hk.symm
  · simp at hb

section SetBack

variable {n : ℕ} {l₁ l₂ : List Scnhdr} {t : Scnhdr} {own : BitVec 32}

theorem Converted.output_ne_one (hn : 2 ^ 31 ≤ n + 1)
    (hown : own.toInt + t.sSize.toInt = n + 1) (hpos : 0 ≤ own.toInt) (ht : Copied t)
    (h : Converted host (oneAtEnd n) (spreadOut l₁ t l₂ own 0#32) c) {j : ℕ}
    (hj : j + 1 < ((l₁.map (placedAt 0#32)).flatMap (sectionBytes (oneAtEnd n))).length +
      t.sSize.toInt) : c.output[j]? ≠ some 1#8 := by
  by_cases hbefore : j < ((l₁.map (placedAt 0#32)).flatMap (sectionBytes (oneAtEnd n))).length
  · rw [h.output, spreadOut, List.flatMap_append, List.getElem?_append_left hbefore]
    intro hone
    have hmem := List.mem_of_getElem? hone
    simp only [List.mem_flatMap, List.mem_map, exists_exists_and_eq_and] at hmem
    obtain ⟨s, -, hs⟩ := hmem
    exact absurd (eq_two_of_mem hn hs) (by decide)
  · obtain ⟨k, rfl⟩ := Nat.exists_eq_add_of_le (Nat.le_of_not_lt hbefore)
    have hk : (k : ℤ) + 1 < t.sSize.toInt := by omega
    rw [Converted.getElem?_output h ht (by simp only [placedAt]; omega)]
    simp only [placedAt]
    rw [oneAtEnd_getElem? (by omega)]
    simp

/-- INTERNAL: when that section comes after one of size -1 and is the last with bytes, no segment
reaches to the end of the output. -/
theorem Converted.segment_end_lt (h : Converted host input (spreadOut l₁ t l₂ own 0#32) c)
    (hcount : (spreadOut l₁ t l₂ own 0#32).length < 65536) (hsize : 0 < t.sSize.toInt)
    (hback : 0 < backward l₁) (hlast : ∀ s ∈ l₂, Copied s → ¬0 < s.sSize.toInt)
    (hkind : ∀ s, kind s → Copied s)
    (hrecorded : Recorded kind (spreadOut l₁ t l₂ own 0#32) segment)
    (hsegment : 0 < segment.size.toInt) :
    segment.inFileAddr.toInt + segment.size.toInt <
      40 + ((l₁.map (placedAt 0#32)).flatMap (sectionBytes input)).length + t.sSize.toInt := by
  cases hrecorded with
  | none hnone hzero =>
    rw [hzero, BitVec.toInt_zero] at hsegment
    omega
  | last m₁ u m₂ hl hu hlast' heq =>
    subst heq
    simp only at hsegment ⊢
    have hsplit : l₁.map (placedAt 0#32) ++ placedAt own t :: l₂.map (placedAt 0#32) =
        m₁ ++ u :: m₂ := hl
    have hlen := (h.fully u (by rw [hl]; simp) (hkind u hu)).resolve_left (by omega)
    rw [hl] at h hcount
    have hoffset := h.toInt_offsetAfter hcount
    rcases split_cases hsplit with ⟨rfl, rfl, -⟩ | ⟨m, -, hm⟩ | ⟨m, hm, -⟩
    · -- the section itself, recorded too low
      have hback' : backward (l₁.map (placedAt 0#32)) = backward l₁ := List.countP_map
      simp only [placedAt] at hsegment hoffset ⊢
      omega
    · -- a section with bytes after the last one
      have humem : u ∈ l₂.map (placedAt 0#32) := by
        rw [hm]
        simp
      obtain ⟨s, hs, rfl⟩ := List.mem_map.mp humem
      exact absurd hsegment (hlast s hs (hkind (placedAt 0#32 s) hu))
    · -- a section before it
      rw [hm, List.flatMap_append, List.flatMap_cons]
      simp only [List.length_append]
      omega

theorem Converted.one_not_mem (hn : 2 ^ 31 ≤ n + 1) (hown : own.toInt + t.sSize.toInt = n + 1)
    (hpos : 0 ≤ own.toInt) (ht : Copied t)
    (h : Converted host (oneAtEnd n) (spreadOut l₁ t l₂ own 0#32) c)
    (hcount : (spreadOut l₁ t l₂ own 0#32).length < 65536) (hsize : 0 < t.sSize.toInt)
    (hback : 0 < backward l₁) (hlast : ∀ s ∈ l₂, Copied s → ¬0 < s.sSize.toInt)
    (hkind : ∀ s, kind s → Copied s)
    (hrecorded : Recorded kind (spreadOut l₁ t l₂ own 0#32) segment)
    (hbehind : BehindHeader ⟨c.noffH, c.noffH.bytes ++ c.output⟩ segment) (x : ℤ) :
    (x, 1#8) ∉ segmentImage (c.noffH.bytes ++ c.output) segment := by
  rintro ⟨k, hk, hlt, -, hindex, hbyte⟩
  have hsegment : 0 < segment.size.toInt := by omega
  have hbehind' := (hbehind hsegment).1
  have hend := h.segment_end_lt hcount hsize hback hlast hkind hrecorded hsegment
  have hheader := length_bytes c.noffH
  rw [List.getElem?_append_right (by omega)] at hbyte
  exact h.output_ne_one hn hown hpos ht (by omega) hbyte

/-- INTERNAL: a section of size -1 before one with bytes can change the program. -/
theorem AlwaysFaithful.unshifted (hfaithful : AlwaysFaithful sections)
    (haccepted : Accepted sections) (hcount : sections.length < 65536) : Unshifted sections := by
  by_contra hnot
  obtain ⟨l₁, s, l₂, t, l₃, rfl, hst⟩ := exists_split_of_not_pairwise hnot
  simp only [not_forall, not_not] at hst
  obtain ⟨hs, hone, ht, htsize⟩ := hst
  -- the last section with bytes
  obtain ⟨m₁, z, m₂, hm, ⟨hz, hzsize⟩, hlast⟩ :=
    exists_last (fun x => Copied x ∧ 0 < x.sSize.toInt)
      ⟨t, List.mem_append_right l₂ List.mem_cons_self, ht, htsize⟩
  rw [hm] at hfaithful haccepted hcount
  have hassoc : l₁ ++ s :: (m₁ ++ z :: m₂) = (l₁ ++ s :: m₁) ++ z :: m₂ := by simp
  rw [hassoc] at hfaithful haccepted hcount
  have hback : 0 < backward (l₁ ++ s :: m₁) :=
    List.countP_pos_iff.mpr ⟨s, by simp, by simpa using ⟨hs, hone⟩⟩
  have hzlt := BitVec.toInt_lt (x := z.sSize)
  obtain ⟨n, hn⟩ : ∃ n : ℕ, n = 2 ^ 31 - 1 := ⟨_, rfl⟩
  obtain ⟨own, hown⟩ : ∃ own : BitVec 32, own.toInt + z.sSize.toInt = n + 1 :=
    ⟨BitVec.ofInt 32 (n + 1 - z.sSize.toInt), by rw [toInt_ofInt_of_lt] <;> omega⟩
  have hlen : (oneAtEnd n).length = n + 1 := by simp [oneAtEnd]
  have hroom : ∀ x ∈ spreadOut (l₁ ++ s :: m₁) z m₂ own 0#32, HasRoom (oneAtEnd n) x := by
    intro x hx
    rcases List.mem_append.mp hx with hx | hx
    · obtain ⟨y, -, rfl⟩ := List.mem_map.mp hx
      exact hasRoom_placedAt_zero y (by omega)
    · rcases List.mem_cons.mp hx with rfl | hx
      · exact ⟨by simp only [placedAt]; omega, by simp only [placedAt]; omega⟩
      · obtain ⟨y, -, rfl⟩ := List.mem_map.mp hx
        exact hasRoom_placedAt_zero y (by omega)
  obtain ⟨host, c, h, hfaith⟩ :=
    haccepted.converted (moved_spreadOut _ _ _ own 0#32) hroom hfaithful
  have hcount' : (spreadOut (l₁ ++ s :: m₁) z m₂ own 0#32).length < 65536 := by
    simpa [spreadOut] using hcount
  have hmem : (z.sPaddr.toInt + (z.sSize.toInt - 1), 1#8) ∈
      coffImage (oneAtEnd n) (spreadOut (l₁ ++ s :: m₁) z m₂ own 0#32) := by
    refine ⟨placedAt own z, by simp [spreadOut], .inl ⟨hz, z.sSize.toInt - 1, ?_⟩⟩
    simp only [placedAt]
    have hindex : (own.toInt + (z.sSize.toInt - 1)).toNat = n := by omega
    refine ⟨by omega, by omega, trivial, by omega, ?_⟩
    rw [hindex, oneAtEnd, List.getElem?_append_right (by simp)]
    simp
  rw [← hfaith.image] at hmem
  have hlast' : ∀ x ∈ m₂, Copied x → ¬0 < x.sSize.toInt := fun x hx hc hs => hlast x hx ⟨hc, hs⟩
  rcases hmem with hmem | hmem | ⟨-, -, hzero⟩
  · exact h.one_not_mem (by omega) hown (by omega) hz hcount' hzsize hback hlast'
      (fun x hx => .inl hx.1) h.code hfaith.code _ hmem
  · exact h.one_not_mem (by omega) hown (by omega) hz hcount' hzsize hback hlast'
      (fun x hx => .inr hx.1) h.initData hfaith.initData _ hmem
  · simp at hzero

end SetBack

/-- A file of twos behind a one. -/
def oneAtStart (n : ℕ) : List Byte := 1#8 :: List.replicate n 2#8

theorem one_not_mem_placedBytes (n : ℕ) (address x size : ℤ) :
    (x, 1#8) ∉ placedBytes (oneAtStart n) address 1 size := by
  rintro ⟨k, hk, -, -, -, hbyte⟩
  have hindex : (1 + k).toNat = k.toNat + 1 := by omega
  rw [hindex, oneAtStart, List.getElem?_cons_succ] at hbyte
  have htwo : (1#8 : Byte) = 2#8 := List.eq_of_mem_replicate (List.mem_of_getElem? hbyte)
  exact absurd htwo (by decide)

/-- INTERNAL: a second code section can change the program. -/
theorem AlwaysFaithful.text (hfaithful : AlwaysFaithful sections) (haccepted : Accepted sections)
    (hcount : sections.length < 65536) :
    sections.Pairwise fun s t => IsText s → 0 < s.sSize.toInt → ¬TextKept t := by
  have hunshifted := hfaithful.unshifted haccepted hcount
  by_contra hnot
  obtain ⟨l₁, s, l₂, t, l₃, rfl, hst⟩ := exists_split_of_not_pairwise hnot
  simp only [not_forall, not_not] at hst
  obtain ⟨hs, hsize, ht⟩ := hst
  obtain ⟨n, hn⟩ : ∃ n : ℕ, n = 2 ^ 31 := ⟨_, rfl⟩
  have hlen : (oneAtStart n).length = n + 1 := by simp [oneAtStart]
  -- the first of the two at the beginning of the file, everything else behind the one
  have hroom : ∀ x ∈ spreadOut l₁ s (l₂ ++ t :: l₃) 0#32 1#32, HasRoom (oneAtStart n) x := by
    have hone : ∀ y : Scnhdr, HasRoom (oneAtStart n) (placedAt 1#32 y) := by
      intro y
      have hysize := BitVec.toInt_lt (x := y.sSize)
      have hpos : (1#32 : BitVec 32).toInt = 1 := by decide
      constructor <;> simp only [placedAt, hpos] <;> omega
    intro x hx
    rcases List.mem_append.mp hx with hx | hx
    · obtain ⟨y, -, rfl⟩ := List.mem_map.mp hx
      exact hone y
    · rcases List.mem_cons.mp hx with rfl | hx
      · exact hasRoom_placedAt_zero s (by omega)
      · obtain ⟨y, -, rfl⟩ := List.mem_map.mp hx
        exact hone y
  have hmoved := moved_spreadOut l₁ s (l₂ ++ t :: l₃) 0#32 1#32
  obtain ⟨host, c, h, hfaith⟩ := haccepted.converted hmoved hroom hfaithful
  have hcount' : (spreadOut l₁ s (l₂ ++ t :: l₃) 0#32 1#32).length < 65536 := by
    simpa [spreadOut] using hcount
  have hunshifted' := hmoved.unshifted hunshifted
  have hpos := fun x hx (_ : Copied x) (_ : 0 < x.sSize.toInt) => (hroom x hx).1
  have hmem : (s.sPaddr.toInt, 1#8) ∈
      coffImage (oneAtStart n) (spreadOut l₁ s (l₂ ++ t :: l₃) 0#32 1#32) := by
    refine ⟨placedAt 0#32 s, by simp [spreadOut], .inl ⟨.inl hs, 0, ?_⟩⟩
    simp [placedAt, hsize, oneAtStart]
  rw [← hfaith.image] at hmem
  -- no segment is taken from the first of the two
  have hmoved_of : ∀ {u}, u ∈ l₁.map (placedAt 1#32) ∨ u ∈ (l₂ ++ t :: l₃).map (placedAt 1#32) →
      (s.sPaddr.toInt, 1#8) ∉
        placedBytes (oneAtStart n) u.sPaddr.toInt u.sScnptr.toInt u.sSize.toInt := by
    rintro u (hu | hu)
    all_goals
      obtain ⟨y, -, rfl⟩ := List.mem_map.mp hu
      exact one_not_mem_placedBytes n _ _ _
  have hkept : TextKept (placedAt 1#32 t) := ht
  rcases hmem with hmem | hmem | ⟨-, -, hzero⟩
  · rcases h.segmentImage_cases hcount' hpos hunshifted' (fun x hx => .inl hx.1) h.code with
      ⟨-, hnone⟩ | ⟨m₁, u, m₂, hm, hu, hlast, himage⟩
    · exact hnone _ hmem
    · rw [himage] at hmem
      rcases split_cases hm with ⟨-, -, rfl⟩ | ⟨m, -, hm₂⟩ | ⟨m, -, rfl⟩
      · exact hlast _ (by simp) hkept
      · exact hmoved_of (.inr (by rw [hm₂]; simp)) hmem
      · exact hlast _ (by simp) hkept
  · rcases h.segmentImage_cases hcount' hpos hunshifted' (fun x hx => .inr hx.1) h.initData with
      ⟨-, hnone⟩ | ⟨m₁, u, m₂, hm, hu, -, himage⟩
    · exact hnone _ hmem
    · rw [himage] at hmem
      rcases split_cases hm with ⟨-, rfl, -⟩ | ⟨m, -, hm₂⟩ | ⟨m, hm₁, -⟩
      · exact not_isData_of_isText hs hu.1
      · exact hmoved_of (.inr (by rw [hm₂]; simp)) hmem
      · exact hmoved_of (.inl (by rw [hm₁]; simp)) hmem
  · simp at hzero

/-- INTERNAL: uninitialised data with gaps can change the program. -/
theorem AlwaysFaithful.bss (hfaithful : AlwaysFaithful sections) (haccepted : Accepted sections)
    (hcount : sections.length < 65536) (x : ℤ) :
    (∃ s ∈ sections, IsBss s ∧ s.sPaddr.toInt ≤ x ∧ x < s.sPaddr.toInt + s.sSize.toInt) ↔
      (mergedBss sections).1.toInt ≤ x ∧
        x < (mergedBss sections).1.toInt + (mergedBss sections).2.toInt := by
  obtain ⟨n, hn⟩ : ∃ n : ℕ, n = 2 ^ 31 := ⟨_, rfl⟩
  -- a file of ones, so that the zeros of the image are those of the uninitialised data
  have hones : ∀ {address position size : ℤ},
      (x, 0#8) ∉ placedBytes (List.replicate n 1#8) address position size := by
    rintro address position size ⟨k, -, -, -, -, hbyte⟩
    have hone : (0#8 : Byte) = 1#8 := List.eq_of_mem_replicate (List.mem_of_getElem? hbyte)
    exact absurd hone (by decide)
  have hmoved : Moved sections (sections.map (placedAt 0#32)) := by
    rw [Moved, List.map_map]
    rfl
  have hroom : ∀ s ∈ sections.map (placedAt 0#32), HasRoom (List.replicate n 1#8) s := by
    intro s hs
    obtain ⟨y, -, rfl⟩ := List.mem_map.mp hs
    exact hasRoom_placedAt_zero y (by rw [List.length_replicate]; omega)
  obtain ⟨host, c, h, hfaith⟩ := haccepted.converted hmoved hroom hfaithful
  have hunshifted := hmoved.unshifted (hfaithful.unshifted haccepted hcount)
  have hcount' : (sections.map (placedAt 0#32)).length < 65536 := by simpa using hcount
  have hpos := fun s hs (_ : Copied s) (_ : 0 < s.sSize.toInt) => (hroom s hs).1
  have hsegment : ∀ {kind : Scnhdr → Prop} {segment : Segment}, (∀ s, kind s → Copied s) →
      Recorded kind (sections.map (placedAt 0#32)) segment →
        (x, 0#8) ∉ segmentImage (c.noffH.bytes ++ c.output) segment := by
    intro kind segment hkind hrecorded hmem
    rcases h.segmentImage_cases hcount' hpos hunshifted hkind hrecorded with
      ⟨-, hnone⟩ | ⟨m₁, u, m₂, -, -, -, himage⟩
    · exact hnone _ hmem
    · rw [himage] at hmem
      exact hones hmem
  have hcode := hsegment (fun s hs => .inl hs.1) h.code
  have hdata := hsegment (fun s hs => .inr hs.1) h.initData
  have himage := Set.ext_iff.mp hfaith.image (x, 0#8)
  simp only [noffImage, coffImage, sectionImage, Set.mem_ofPred_eq, hcode, hdata, hones, false_or,
    and_false, h.zeroBytes_eq, hmoved.mergedBss_eq] at himage
  simp only [zeroBytes, Set.mem_ofPred_eq, and_true] at himage
  rw [himage]
  exact (hmoved.exists_mem_iff fun _ => Iff.rfl).symm

/-! ## The program -/

/-- The section headers of a COFF file. -/
def sectionTable (input : List Byte) : List Scnhdr :=
  scnhdrs (shortAt input 2) ((input.drop 76).take (shortAt input 2 * 40))

theorem shortAt_take {bytes : List Byte} {n i : ℕ} (hi : i + 1 < n) :
    shortAt (bytes.take n) i = shortAt bytes i := by
  rw [shortAt, shortAt, List.getElem?_take_of_lt (by omega), List.getElem?_take_of_lt hi]

/-- INTERNAL: what `main` accepts, it converts from its section table. -/
theorem main_cases {executable : Executable} (h : main host (.ok input) = .ok executable) :
    ∃ position, convert host input position (sectionTable input) = .ok executable := by
  unfold main at h
  obtain ⟨_, ⟨rfl⟩, h⟩ := bind_eq_ok.mp h
  obtain ⟨fileh, hfile, h⟩ := bind_eq_ok.mp h
  dsimp only at h
  split_ifs at h with hmagic
  · simp [throw, throwThe, MonadExceptOf.throw, bind, Except.bind] at h
  obtain ⟨systemh, hsystem, h⟩ := bind_eq_ok.mp h
  split_ifs at h with homagic
  · simp [throw, throwThe, MonadExceptOf.throw, bind, Except.bind] at h
  obtain ⟨table, htable, h⟩ := bind_eq_ok.mp h
  rcases read_cases hfile with ⟨hone, -⟩ | ⟨-, rfl, -⟩
  · omega
  rcases read_cases hsystem with ⟨hone, -⟩ | ⟨-, rfl, -⟩
  · omega
  rcases read_cases htable with ⟨hone, -⟩ | ⟨-, rfl, -⟩
  · omega
  rw [List.drop_zero, shortAt_take (by decide)] at h
  exact ⟨_, h⟩

/-- SOURCE: bin/coff2noff.c:92-227, bin/noff.h:12-25, bin/coff.h:37-48 — of the sections that
`coff2noff` accepts, the convertible ones are exactly those that are converted faithfully wherever
their bytes are in the file and whatever these are; and a file with a section table of convertible
sections, with their bytes in the file, is converted faithfully when it is accepted. -/
theorem output_faithful_iff_convertible (sections : List Scnhdr) (hcount : sections.length < 65536)
    (haccepted : Accepted sections) :
    (AlwaysFaithful sections ↔ Convertible sections) ∧
      ∀ host input executable, sectionTable input = sections →
        (∀ s ∈ sections, PlacedInFile s) → main host (.ok input) = .ok executable →
          Convertible sections → Faithful input sections executable := by
  have hfaithful : Convertible sections → AlwaysFaithful sections := by
    intro hgood host input position sections' executable hmoved hpos hconvert
    obtain ⟨c, hloop, -, rfl⟩ := convert_cases hconvert
    have hlength : sections'.length = sections.length := by
      simpa using congrArg List.length hmoved
    exact (hmoved.convertible hgood).faithful (converted_of_foldlM hpos hloop) (by omega) hpos
  refine ⟨⟨fun halways => ?_, hfaithful⟩, ?_⟩
  · exact ⟨halways.text haccepted hcount, halways.unshifted haccepted hcount,
      halways.bss haccepted hcount⟩
  · rintro host input executable rfl hpos hmain hgood
    obtain ⟨position, hconvert⟩ := main_cases hmain
    exact hfaithful hgood host input position _ executable rfl hpos hconvert

/-- A file of two sections, .bss at 0 and .sbss at 100, of four bytes each. -/
def gapFile : List Byte :=
  [0x62#8, 0x01#8, 2#8, 0#8] ++ List.replicate 16 0#8 ++ [0x07#8, 0x01#8] ++
    List.replicate 54 0#8 ++
    (cString ".bss" ++ List.replicate 12 0#8 ++ [4#8] ++ List.replicate 23 0#8) ++
    (cString ".sbss" ++ List.replicate 3 0#8 ++ [100#8] ++ List.replicate 7 0#8 ++ [4#8] ++
      List.replicate 23 0#8)

theorem sectionTable_gapFile : sectionTable gapFile =
    [⟨cString ".bss", 0#32, 4#32, 0#32⟩, ⟨cString ".sbss", 100#32, 4#32, 0#32⟩] := by
  decide +kernel

/-- The two sections are not contiguous and are accepted all the same: the output has zeros from 0
to 8 and none from 100 to 104. -/
theorem gap_in_bss_is_converted :
    ∃ executable, main ⟨fun _ => true, ⟨0#32, ⟨0#32, 0#32, 0#32⟩, ⟨0#32, 0#32, 0#32⟩,
        ⟨0#32, 0#32, 0#32⟩⟩⟩ (.ok gapFile) = .ok executable ∧
      ¬Faithful gapFile (sectionTable gapFile) executable := by
  let noffH : NoffHeader :=
    ⟨noffMagicNumber, ⟨0#32, 0#32, 0#32⟩, ⟨0#32, 0#32, 0#32⟩, ⟨0#32, 0#32, 8#32⟩⟩
  refine ⟨⟨noffH, noffH.bytes⟩, rfl, fun hfaithful => ?_⟩
  have himage := Set.ext_iff.mp hfaithful.image (100, 0#8)
  rw [sectionTable_gapFile] at himage
  have hmem : ((100 : ℤ), 0#8) ∈ coffImage gapFile
      [⟨cString ".bss", 0#32, 4#32, 0#32⟩, ⟨cString ".sbss", 100#32, 4#32, 0#32⟩] :=
    ⟨⟨cString ".sbss", 100#32, 4#32, 0#32⟩, by simp, .inr ⟨.inr rfl, by decide, by decide, rfl⟩⟩
  have hempty : (0#32 : BitVec 32).toInt = 0 := rfl
  rcases himage.mpr hmem with ⟨k, hk, hlt, -⟩ | ⟨k, hk, hlt, -⟩ | ⟨-, hlt, -⟩
  · simp only [noffH, hempty] at hlt
    omega
  · simp only [noffH, hempty] at hlt
    omega
  · exact absurd hlt (by decide)

/-- Code, data and uninitialised data behind each other. -/
def ordinarySections : List Scnhdr :=
  [⟨cString ".text", 0#32, 4#32, 0#32⟩, ⟨cString ".data", 4#32, 4#32, 4#32⟩,
    ⟨cString ".bss", 8#32, 12#32, 0#32⟩]

/-- They are converted faithfully, wherever the code and the data are in the file. -/
theorem ordinary_sections_are_faithful : AlwaysFaithful ordinarySections := by
  refine (output_faithful_iff_convertible _ (by decide) ?_).1.mpr ⟨by decide, ?_, ?_⟩
  · exact ⟨⟨fun _ => true, ⟨0#32, ⟨0#32, 0#32, 0#32⟩, ⟨0#32, 0#32, 0#32⟩, ⟨0#32, 0#32, 0#32⟩⟩⟩,
      List.replicate 4 7#8 ++ List.replicate 4 9#8, 0, _, _, rfl, rfl⟩
  · unfold Unshifted
    decide
  · intro x
    have hmerged : mergedBss ordinarySections = (8#32, 12#32) := by decide
    rw [hmerged]
    constructor
    · rintro ⟨s, hs, hbss, hrange⟩
      simp only [ordinarySections, List.mem_cons, List.not_mem_nil, or_false] at hs
      rcases hs with rfl | rfl | rfl
      · exact absurd hbss (by decide)
      · exact absurd hbss (by decide)
      · exact hrange
    · intro hrange
      exact ⟨⟨cString ".bss", 8#32, 12#32, 0#32⟩, by simp [ordinarySections], .inl rfl, hrange⟩

end Nachos.Analysis
