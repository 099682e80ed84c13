import Nachos.Analysis.WordArithmetic
import Nachos.Model.AddrSpace

/-!
# The pieces in which `AddrSpace(char*)` copies an image

The constructor reads the image in pieces, each of them into one page: the pages of the code, the
beginning of the data on the last page of the code, and the remaining pages of the data. `pieces`
lists them as the header gives them, and copying the segments is copying these pieces one after
the other (`copySegments_eq`).

When the two sizes are not negative the pieces are what they should be: every one stays on its
page, the code lies at 0 and the data right behind it (`PieceOf`), and together they cover both
segments and nothing else (`covers_iff`). So the pages read as the image does, wherever their
frames are (`copyPieces_spec`).
-/

set_option autoImplicit false

namespace Nachos.Analysis

open Nachos.Model

variable {noffH : NoffHeader} {k : ℤ} {executable : Executable} {table : List TranslationEntry}

/-! ## Pieces -/

/-- One `ReadAt` of the constructor: `numBytes` bytes of the file at `position`, to page `index`
from `offset` on. -/
structure Piece where
  index : ℕ
  offset : ℤ
  numBytes : ℤ
  position : ℤ

/-- One round of the copying loops. -/
def copyPiece (executable : Executable) (table : List TranslationEntry) (mem : Memory)
    (p : Piece) : Option Memory := do
  let entry ← table[p.index]?
  executable.readAt mem (executable.noffH.code.virtualAddr.toInt +
    (entry.physicalPage * pageSize + p.offset)) p.numBytes p.position

/-- The pieces of `n` pages from page `i` on; the last one has `lastPageSize` bytes. -/
def pagePieces (i : ℕ) (lastPageSize position : ℤ) (n : ℕ) : List Piece :=
  (List.range n).map fun j =>
    ⟨i + j, 0, if j + 1 = n then lastPageSize else pageSize, toInt32 (position + j * pageSize)⟩

/-- `numCodePage` for a code segment of `size` bytes. -/
def numCodePage (size : ℤ) : ℤ := toUInt32 (divRoundUpInt size pageSize)

/-- `lastCodePageSize` for a code segment of `size` bytes. -/
def lastCodePageSize (size : ℤ) : ℤ := toInt32 (size - (numCodePage size - 1) * pageSize)

/-- The beginning of the data on the last page of the code. -/
def sharedPieces (noffH : NoffHeader) (last first : ℤ) : List Piece :=
  if last < pageSize ∧ first > 0 then
    [⟨(toUInt32 (numCodePage noffH.code.size.toInt - 1)).toNat, last, first,
      noffH.initData.inFileAddr.toInt⟩]
  else []

/-- All pieces, in the order in which they are copied. -/
def pieces (noffH : NoffHeader) : List Piece :=
  let last := lastCodePageSize noffH.code.size.toInt
  let data := AddrSpace.dataPages noffH last
  pagePieces 0 last noffH.code.inFileAddr.toInt (numCodePage noffH.code.size.toInt).toNat ++
    sharedPieces noffH last data.2.2 ++
    pagePieces (numCodePage noffH.code.size.toInt).toNat data.2.1
      (noffH.initData.inFileAddr.toInt + data.2.2) data.1.toNat

/-- INTERNAL: a copying loop copies its pieces. -/
theorem copyPages_eq (executable : Executable) (table : List TranslationEntry) (i : ℕ)
    (lastPageSize position : ℤ) (n : ℕ) : ∀ (k : ℕ) (mem : Memory),
    AddrSpace.copyPages executable table executable.noffH.code.virtualAddr.toInt i lastPageSize
      position k n mem =
    ((List.range n).map fun j => (⟨i + (k + j), 0, if j + 1 = n then lastPageSize else pageSize,
      toInt32 (position + (k + j : ℕ) * pageSize)⟩ : Piece)).foldlM (copyPiece executable table)
        mem := by
  induction n with
  | zero => exact fun k mem => rfl
  | succ n ih =>
    intro k mem
    have hrest : ((List.range n).map fun j => (⟨i + (k + (j + 1)), 0,
        if j + 1 + 1 = n + 1 then lastPageSize else pageSize,
        toInt32 (position + (k + (j + 1) : ℕ) * pageSize)⟩ : Piece)) =
        (List.range n).map fun j => ⟨i + (k + 1 + j), 0,
          if j + 1 = n then lastPageSize else pageSize,
          toInt32 (position + (k + 1 + j : ℕ) * pageSize)⟩ := by
      refine List.map_congr_left fun j _ => ?_
      rw [show k + (j + 1) = k + 1 + j by omega]
      simp only [Nat.add_right_cancel_iff]
    have hsize : (if n = 0 then lastPageSize else (pageSize : ℤ)) =
        if 0 + 1 = n + 1 then lastPageSize else pageSize := by
      simp only [Nat.add_right_cancel_iff, eq_comm]
    rw [List.range_succ_eq_map, List.map_cons, List.map_map, List.foldlM_cons]
    simp only [Function.comp_def, Nat.succ_eq_add_one, hrest, ← ih (k + 1)]
    simp only [AddrSpace.copyPages, copyPiece, Option.bind_eq_bind, Option.bind_assoc, hsize,
      add_zero]

/-- INTERNAL: **copying the segments is copying the pieces.**
SRCLINE: userprog/addrspace.cc:173-206 -/
theorem copySegments_eq (executable : Executable) (table : List TranslationEntry) (mem : Memory) :
    AddrSpace.copySegments executable table mem =
      (pieces executable.noffH).foldlM (copyPiece executable table) mem := by
  have hpages : ∀ (i : ℕ) (last position : ℤ) (n : ℕ) (mem : Memory),
      AddrSpace.copyPages executable table executable.noffH.code.virtualAddr.toInt i last position
        0 n mem = (pagePieces i last position n).foldlM (copyPiece executable table) mem := by
    intro i last position n mem
    rw [copyPages_eq]
    simp only [pagePieces, Nat.zero_add]
  have hshared : ∀ (last first : ℤ) (mem : Memory),
      AddrSpace.copyShared executable table (numCodePage executable.noffH.code.size.toInt) last
        first mem =
      (sharedPieces executable.noffH last first).foldlM (copyPiece executable table) mem := by
    intro last first mem
    unfold AddrSpace.copyShared sharedPieces
    split
    · simp only [List.foldlM_cons, List.foldlM_nil, copyPiece, Option.bind_eq_bind,
        Option.pure_def, Option.bind_fun_some]
    · rfl
  unfold AddrSpace.copySegments pieces
  simp only [List.foldlM_append, ← hpages, ← hshared, Option.bind_eq_bind, Option.bind_assoc]
  rfl

/-! ## Where the pieces of an image lie -/

/-- The sizes of the two segments are not negative. -/
structure Segments (noffH : NoffHeader) : Prop where
  code : 0 ≤ noffH.code.size.toInt
  initData : 0 ≤ noffH.initData.size.toInt

/-- The address of a piece in an image of consecutive pages. -/
def Piece.start (p : Piece) : ℤ := p.index * pageSize + p.offset

/-- The piece is not empty, stays on its page, and is a stretch of the code at 0 or of the data
right behind the code. -/
structure PieceOf (noffH : NoffHeader) (p : Piece) : Prop where
  numBytes : 0 < p.numBytes
  offset : 0 ≤ p.offset
  page : p.offset + p.numBytes ≤ pageSize
  part : (p.start + p.numBytes ≤ noffH.code.size.toInt ∧
      p.position = toInt32 (noffH.code.inFileAddr.toInt + p.start)) ∨
    (noffH.code.size.toInt ≤ p.start ∧
      p.start + p.numBytes ≤ noffH.code.size.toInt + noffH.initData.size.toInt ∧
      p.position = toInt32 (noffH.initData.inFileAddr.toInt + (p.start - noffH.code.size.toInt)))

theorem PieceOf.start_nonneg {p : Piece} (h : PieceOf noffH p) : 0 ≤ p.start := by
  have hoffset := h.offset
  simp only [Piece.start, pageSize, sectorSize]
  omega

theorem PieceOf.index_lt {p : Piece} (h : PieceOf noffH p) {n : ℕ}
    (hdata : 0 ≤ noffH.initData.size.toInt)
    (hn : noffH.code.size.toInt + noffH.initData.size.toInt ≤ n * pageSize) : p.index < n := by
  have hpage : (pageSize : ℤ) = 128 := rfl
  have hbytes := h.numBytes
  have hoffset := h.offset
  have hpart := h.part
  simp only [Piece.start, hpage] at hn hpart
  rcases hpart with ⟨hend, -⟩ | ⟨-, hend, -⟩ <;> omega

theorem codePages_spec {size : ℤ} (h : 0 ≤ size) (h' : size < 2 ^ 31) :
    numCodePage size = (size + 127) / 128 ∧
      lastCodePageSize size = size - ((size + 127) / 128 - 1) * 128 := by
  have hpages : numCodePage size = (size + 127) / 128 := by
    unfold numCodePage
    rw [pageSize, divRoundUpInt_sectorSize h, toUInt32_of_lt (by omega) (by omega)]
  refine ⟨hpages, ?_⟩
  unfold lastCodePageSize
  rw [hpages]
  exact toInt32_of_lt (by simp only [pageSize, sectorSize]; omega)
    (by simp only [pageSize, sectorSize]; omega)

theorem dataPages_of_temp (noffH : NoffHeader) (last : ℤ) {temp : ℤ} (hpos : 0 < last) (hle : last ≤ 128)
    (htemp : toInt32 (noffH.initData.size.toInt - (128 - last)) = temp) :
    (temp < 0 ∧ AddrSpace.dataPages noffH last = (0, 0, noffH.initData.size.toInt)) ∨
      (0 ≤ temp ∧ AddrSpace.dataPages noffH last =
        ((temp + 127) / 128, temp - ((temp + 127) / 128 - 1) * 128, 128 - last)) := by
  have hlt : temp < 2 ^ 31 := htemp ▸ toInt32_lt _
  have hpage : (pageSize : ℤ) = 128 := rfl
  unfold AddrSpace.dataPages
  simp only [hpage, htemp]
  split
  · next hneg => exact Or.inl ⟨hneg, rfl⟩
  · next hge =>
    rw [not_lt] at hge
    refine Or.inr ⟨hge, ?_⟩
    have hpages : divRoundUpInt temp 128 = (temp + 127) / 128 := divRoundUpInt_sectorSize hge
    rw [hpages, toUInt32_of_lt (by omega) (by omega), toInt32_of_lt (by omega) (by omega),
      toInt32_of_lt (by omega) (by omega)]

theorem dataPages_spec (noffH : NoffHeader) (h : 0 ≤ noffH.initData.size.toInt) {last : ℤ}
    (hpos : 0 < last) (hle : last ≤ 128) :
    (noffH.initData.size.toInt < 128 - last ∧
        AddrSpace.dataPages noffH last = (0, 0, noffH.initData.size.toInt)) ∨
      (128 - last ≤ noffH.initData.size.toInt ∧ AddrSpace.dataPages noffH last =
        ((noffH.initData.size.toInt - (128 - last) + 127) / 128,
          noffH.initData.size.toInt - (128 - last) -
            ((noffH.initData.size.toInt - (128 - last) + 127) / 128 - 1) * 128,
          128 - last)) := by
  have hlt : noffH.initData.size.toInt < 2 ^ 31 := BitVec.toInt_lt
  rcases dataPages_of_temp noffH last hpos hle (toInt32_of_lt (by omega) (by omega)) with
    ⟨htemp, heq⟩ | ⟨htemp, heq⟩
  · exact Or.inl ⟨by omega, heq⟩
  · exact Or.inr ⟨by omega, heq⟩

/-- The numbers the constructor computes for `c` bytes of code and `d` bytes of data: the pages of
the code, the bytes on the last of them, the data pages of their own, the bytes on the last of
them, and the bytes of the data that share the last code page. -/
structure Layout (c d : ℤ) (numCode : ℕ) (last : ℤ) (numData : ℕ) (lastData first : ℤ) : Prop where
  codePages : (numCode : ℤ) = (c + 127) / 128
  codeLast : last = c - (numCode - 1) * 128
  data : (d < 128 - last ∧ numData = 0 ∧ first = d) ∨
    (128 - last ≤ d ∧ (numData : ℤ) = (d - (128 - last) + 127) / 128 ∧ first = 128 - last ∧
      lastData = d - (128 - last) - (numData - 1) * 128)

/-- INTERNAL: the pieces of an image, with the numbers worked out. -/
theorem pieces_eq (h : Segments noffH) :
    ∃ numCode last numData lastData first,
      Layout noffH.code.size.toInt noffH.initData.size.toInt numCode last numData lastData first ∧
      pieces noffH = pagePieces 0 last noffH.code.inFileAddr.toInt numCode ++
        (if last < pageSize ∧ first > 0 then
          [⟨numCode - 1, last, first, noffH.initData.inFileAddr.toInt⟩] else []) ++
        pagePieces numCode lastData (noffH.initData.inFileAddr.toInt + first) numData := by
  have hcode := h.code
  have hdata := h.initData
  have hword : noffH.code.size.toInt < 2 ^ 31 := BitVec.toInt_lt
  obtain ⟨hnum, hlast⟩ := codePages_spec h.code hword
  have hpos : 0 < lastCodePageSize noffH.code.size.toInt := by omega
  have hspec := dataPages_spec noffH h.initData hpos (by omega)
  have hshared : lastCodePageSize noffH.code.size.toInt < 128 →
      (toUInt32 (numCodePage noffH.code.size.toInt - 1)).toNat =
        (numCodePage noffH.code.size.toInt).toNat - 1 := by
    intro hlt
    rw [toUInt32_of_lt (by omega) (by omega)]
    omega
  refine ⟨(numCodePage noffH.code.size.toInt).toNat, lastCodePageSize noffH.code.size.toInt,
    (AddrSpace.dataPages noffH (lastCodePageSize noffH.code.size.toInt)).1.toNat,
    (AddrSpace.dataPages noffH (lastCodePageSize noffH.code.size.toInt)).2.1,
    (AddrSpace.dataPages noffH (lastCodePageSize noffH.code.size.toInt)).2.2, ⟨?_, ?_, ?_⟩, ?_⟩
  · omega
  · omega
  · rcases hspec with ⟨hlt, heq⟩ | ⟨hge, heq⟩
    · exact Or.inl ⟨hlt, by rw [heq]; rfl, by rw [heq]⟩
    · refine Or.inr ⟨hge, ?_, by rw [heq], ?_⟩
      · rw [heq]
        dsimp only
        omega
      · rw [heq]
        dsimp only
        omega
  · unfold pieces sharedPieces
    dsimp only
    congr 2
    split
    · next hif => rw [hshared hif.1]
    · rfl

theorem mem_pagePieces {i n : ℕ} {last position : ℤ} {p : Piece} :
    p ∈ pagePieces i last position n ↔ ∃ j < n, p = ⟨i + j, 0,
      if j + 1 = n then last else pageSize, toInt32 (position + j * pageSize)⟩ := by
  simp only [pagePieces, List.mem_map, List.mem_range, eq_comm]

/-- INTERNAL: **every piece of an image lies where it should.** -/
theorem pieceOf_of_mem (h : Segments noffH) {p : Piece} (hp : p ∈ pieces noffH) :
    PieceOf noffH p := by
  obtain ⟨numCode, last, numData, lastData, first, hlayout, heq⟩ := pieces_eq h
  obtain ⟨hcode, hdata⟩ := h
  obtain ⟨hnum, hlast, hcases⟩ := hlayout
  have hpage : (pageSize : ℤ) = 128 := rfl
  rw [heq] at hp
  rcases List.mem_append.mp hp with hp | hp
  · rcases List.mem_append.mp hp with hp | hp
    · -- a page of the code
      obtain ⟨j, hj, rfl⟩ := mem_pagePieces.mp hp
      have hsize : 0 < (if j + 1 = numCode then last else (pageSize : ℤ)) ∧
          (if j + 1 = numCode then last else (pageSize : ℤ)) ≤ 128 ∧
          j * 128 + (if j + 1 = numCode then last else (pageSize : ℤ)) ≤ noffH.code.size.toInt := by
        split <;> omega
      refine ⟨hsize.1, le_rfl, by dsimp only; omega, Or.inl ?_⟩
      simp only [Piece.start, hpage, Nat.zero_add, add_zero, and_true]
      omega
    · -- the data behind the code
      split at hp
      · next hshared =>
        rw [List.mem_singleton.mp hp]
        rw [hpage] at hshared
        have hlastPage : ((numCode - 1 : ℕ) : ℤ) = numCode - 1 := by omega
        have hstart : (numCode - 1 : ℤ) * 128 + last - noffH.code.size.toInt = 0 := by omega
        refine ⟨hshared.2, by dsimp only; omega, by dsimp only; omega, Or.inr ?_⟩
        simp only [Piece.start, hpage, hlastPage, hstart, add_zero]
        rw [toInt32_of_lt (BitVec.le_toInt _) BitVec.toInt_lt]
        exact ⟨by omega, by omega, rfl⟩
      · exact absurd hp List.not_mem_nil
  · -- a page of the data
    obtain ⟨j, hj, rfl⟩ := mem_pagePieces.mp hp
    rcases hcases with ⟨-, hnone, -⟩ | ⟨hge, hnd, hfirst, hld⟩
    · omega
    · have hsize : 0 < (if j + 1 = numData then lastData else (pageSize : ℤ)) ∧
          (if j + 1 = numData then lastData else (pageSize : ℤ)) ≤ 128 ∧
          first + j * 128 + (if j + 1 = numData then lastData else (pageSize : ℤ)) ≤
            noffH.initData.size.toInt := by
        split <;> omega
      have hstart : ((numCode + j : ℕ) : ℤ) * 128 - noffH.code.size.toInt = first + j * 128 := by
        push_cast
        omega
      refine ⟨hsize.1, le_rfl, by dsimp only; omega, Or.inr ?_⟩
      simp only [Piece.start, hpage, add_zero, hstart, add_assoc, and_true]
      omega

/-- The byte at address `k` of the image is in one of the pieces. -/
def Covers (ps : List Piece) (k : ℤ) : Prop := ∃ p ∈ ps, p.start ≤ k ∧ k < p.start + p.numBytes

theorem Covers.append_left {ps qs : List Piece} (h : Covers ps k) : Covers (ps ++ qs) k := by
  obtain ⟨p, hp, hk⟩ := h
  exact ⟨p, List.mem_append_left qs hp, hk⟩

theorem Covers.append_right {ps qs : List Piece} (h : Covers qs k) : Covers (ps ++ qs) k := by
  obtain ⟨p, hp, hk⟩ := h
  exact ⟨p, List.mem_append_right ps hp, hk⟩

theorem covers_pagePieces {i n : ℕ} {last position k : ℤ} (hlast : last ≤ 128)
    (hle : i * 128 ≤ k) (hlt : k < i * 128 + (n - 1) * 128 + last) :
    Covers (pagePieces i last position n) k := by
  obtain ⟨j, hj⟩ := Int.eq_ofNat_of_zero_le (show 0 ≤ (k - i * 128) / 128 by omega)
  refine ⟨_, mem_pagePieces.mpr ⟨j, by omega, rfl⟩, ?_⟩
  have hpage : (pageSize : ℤ) = 128 := rfl
  simp only [Piece.start, hpage]
  push_cast
  refine ⟨by omega, ?_⟩
  split <;> omega

/-- INTERNAL: **the pieces cover both segments and nothing else.** -/
theorem covers_iff (h : Segments noffH) (hk : 0 ≤ k) :
    Covers (pieces noffH) k ↔ k < noffH.code.size.toInt + noffH.initData.size.toInt := by
  constructor
  · rintro ⟨p, hp, -, hlt⟩
    have hdata := h.initData
    rcases (pieceOf_of_mem h hp).part with ⟨hend, -⟩ | ⟨-, hend, -⟩ <;> omega
  · intro hlt
    obtain ⟨numCode, last, numData, lastData, first, hlayout, heq⟩ := pieces_eq h
    have hcode := h.code
    obtain ⟨hnum, hlast, hcases⟩ := hlayout
    have hpage : (pageSize : ℤ) = 128 := rfl
    rw [heq]
    rcases lt_or_ge k noffH.code.size.toInt with hin | hin
    · exact (covers_pagePieces (by omega) (by omega) (by push_cast; omega)).append_left.append_left
    · rcases lt_or_ge k (noffH.code.size.toInt + first) with hfirst | hfirst
      · refine Covers.append_left (Covers.append_right ?_)
        rw [if_pos (by omega)]
        have hlastPage : ((numCode - 1 : ℕ) : ℤ) = numCode - 1 := by omega
        refine ⟨_, List.mem_singleton_self _, ?_⟩
        simp only [Piece.start, hpage, hlastPage]
        omega
      · exact (covers_pagePieces (by omega) (by omega) (by omega)).append_right

/-! ## What the pieces leave in memory -/

/-- The address in `mainMemory` at which a piece is written. -/
def Piece.into (p : Piece) (noffH : NoffHeader) (entry : TranslationEntry) : ℤ :=
  noffH.code.virtualAddr.toInt + (entry.physicalPage * pageSize + p.offset)

/-- A piece of the list is written over address `x`. -/
def Written (noffH : NoffHeader) (table : List TranslationEntry) (ps : List Piece) (x : ℤ) : Prop :=
  ∃ p ∈ ps, ∃ entry, table[p.index]? = some entry ∧
    p.into noffH entry ≤ x ∧ x < p.into noffH entry + p.numBytes

theorem copyPieces_total (ps : List Piece) : (∀ p ∈ ps, p.index < table.length ∧ 0 ≤ p.position) →
    ∀ mem : Memory, ∃ mem', ps.foldlM (copyPiece executable table) mem = some mem' := by
  induction ps with
  | nil => exact fun _ mem => ⟨mem, rfl⟩
  | cons p ps ih =>
    intro h mem
    obtain ⟨hindex, hposition⟩ := h p List.mem_cons_self
    have hone : ∃ mem₁, copyPiece executable table mem p = some mem₁ := by
      simp only [copyPiece, List.getElem?_eq_getElem hindex, Option.bind_eq_bind, Option.bind_some,
        Executable.readAt, if_neg (not_lt.mpr hposition)]
      exact ⟨_, rfl⟩
    obtain ⟨mem₁, hone⟩ := hone
    obtain ⟨mem', hrest⟩ := ih (fun q hq => h q (List.mem_cons_of_mem p hq)) mem₁
    exact ⟨mem', by rw [List.foldlM_cons, hone]; exact hrest⟩

/-- The piece can be read, and puts `value` where it is written. -/
structure Puts (executable : Executable) (table : List TranslationEntry) (value : ℤ → Byte)
    (p : Piece) : Prop where
  position : 0 ≤ p.position
  entry : ∃ entry, table[p.index]? = some entry ∧ ∀ x, p.into executable.noffH entry ≤ x →
    x < p.into executable.noffH entry + p.numBytes →
    executable.contents[(p.position + (x - p.into executable.noffH entry)).toNat]? = some (value x)

/-- INTERNAL: one piece. -/
theorem copyPiece_spec {value : ℤ → Byte} {p : Piece} (h : Puts executable table value p)
    (mem : Memory) :
    ∃ mem', copyPiece executable table mem p = some mem' ∧
      ∀ x, (Written executable.noffH table [p] x → mem' x = value x) ∧
        (¬ Written executable.noffH table [p] x → mem' x = mem x) := by
  obtain ⟨hposition, entry, hentry, hvalue⟩ := h
  have hwritten : ∀ x, Written executable.noffH table [p] x ↔
      p.into executable.noffH entry ≤ x ∧ x < p.into executable.noffH entry + p.numBytes := by
    intro x
    simp only [Written, List.mem_singleton, exists_eq_left, hentry, Option.some.injEq]
    constructor
    · rintro ⟨_, rfl, hx⟩
      exact hx
    · exact fun hx => ⟨entry, rfl, hx⟩
  unfold copyPiece
  rw [hentry]
  simp only [Option.bind_eq_bind, Option.bind_some, Executable.readAt, if_neg (not_lt.mpr hposition)]
  refine ⟨_, rfl, fun x => ?_⟩
  rw [hwritten]
  refine ⟨fun hx => ?_, fun hx => if_neg hx⟩
  exact (if_pos hx).trans (by rw [← Piece.into, hvalue x hx.1 hx.2]; rfl)

/-- INTERNAL: **copying pieces that put one image in memory leaves that image, and the rest of the
memory as it was.** The pieces may overlap: they agree on what they put. -/
theorem copyPieces_spec {value : ℤ → Byte} (ps : List Piece) :
    (∀ p ∈ ps, Puts executable table value p) →
    ∀ mem : Memory, ∃ mem', ps.foldlM (copyPiece executable table) mem = some mem' ∧
      ∀ x, (Written executable.noffH table ps x → mem' x = value x) ∧
        (¬ Written executable.noffH table ps x → mem' x = mem x) := by
  induction ps with
  | nil => exact fun _ mem => ⟨mem, rfl, fun x => ⟨by simp [Written], fun _ => rfl⟩⟩
  | cons p ps ih =>
    intro h mem
    obtain ⟨mem₁, hone, hx₁⟩ := copyPiece_spec (h p List.mem_cons_self) mem
    obtain ⟨mem', hrest, hx'⟩ := ih (fun q hq => h q (List.mem_cons_of_mem p hq)) mem₁
    have hcons : ∀ x, Written executable.noffH table (p :: ps) x ↔
        Written executable.noffH table [p] x ∨ Written executable.noffH table ps x := by
      simp [Written]
    refine ⟨mem', by rw [List.foldlM_cons, hone]; exact hrest, fun x => ?_⟩
    rw [hcons]
    by_cases hps : Written executable.noffH table ps x
    · exact ⟨fun _ => (hx' x).1 hps, fun hn => absurd (Or.inr hps) hn⟩
    · rw [(hx' x).2 hps]
      exact ⟨fun hw => (hx₁ x).1 (hw.resolve_right hps), fun hn => (hx₁ x).2 fun hp => hn (Or.inl hp)⟩

end Nachos.Analysis
