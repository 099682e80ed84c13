import Nachos.Analysis.LoaderAgreement

/-!
# Which headers keep the copying inside the program's own frames

`AddrSpace(char*)` tests one number against the free pages, the wrapped sum of the three sizes and
the stack, and then copies by the sizes themselves and from `code.virtualAddr` on. `CopySafe` says
of the pieces of an image that each has its page in the table and is written over frames of the
table, up to a piece at a negative position, where `Lseek` aborts.

Which headers are safe, whatever the file, the positions in it and the page map, is a matter of
the two sizes, the address of the code and the number of pages (`Confined`). A negative size
counts as zero as long as it does not wrap around (`pieces_clipped`), so the safe headers are
those of ordinary images. For the others there is a page map and a file that show it: a page past
the end of the table (`pages_le_of_copySafe`), or a byte of a frame that is not the program's
(`frameBytes_of_copySafe`).
-/

set_option autoImplicit false

namespace Nachos.Analysis

open Nachos.Library Nachos.Model

variable {noffH : NoffHeader} {contents : List Byte} {k : ℤ}

/-! ## Safe copying -/

/-- The bytes of memory that the `ReadAt` of a piece writes: as many as the file has. -/
def Piece.bytes (p : Piece) (executable : Executable) (entry : TranslationEntry) : Set ℤ :=
  {x | p.into executable.noffH entry ≤ x ∧ x < p.into executable.noffH entry + p.numBytes ∧
    (p.position + (x - p.into executable.noffH entry)).toNat < executable.contents.length}

/-- Every piece has its page in the table and is written over frames of the table. At a negative
position `Lseek` aborts: that piece is not written, and none comes after it. -/
def CopySafe (executable : Executable) (table : List TranslationEntry) : List Piece → Prop
  | [] => True
  | p :: rest => ∃ entry, table[p.index]? = some entry ∧
      (0 ≤ p.position → p.bytes executable entry ⊆
        frameBytes (table.map TranslationEntry.physicalPage) ∧ CopySafe executable table rest)

variable {executable : Executable} {table : List TranslationEntry}

theorem copySafe_of_forall {ps : List Piece} (h : ∀ p ∈ ps, ∃ entry, table[p.index]? = some entry ∧
      p.bytes executable entry ⊆ frameBytes (table.map TranslationEntry.physicalPage)) :
    CopySafe executable table ps := by
  induction ps with
  | nil => trivial
  | cons p ps ih =>
    obtain ⟨entry, hentry, hbytes⟩ := h p List.mem_cons_self
    exact ⟨entry, hentry, fun _ => ⟨hbytes, ih fun q hq => h q (List.mem_cons_of_mem p hq)⟩⟩

theorem CopySafe.piece {l₁ l₂ : List Piece} {p : Piece}
    (h : CopySafe executable table (l₁ ++ p :: l₂)) (hpos : ∀ q ∈ l₁, 0 ≤ q.position) :
    ∃ entry, table[p.index]? = some entry ∧ (0 ≤ p.position → p.bytes executable entry ⊆
      frameBytes (table.map TranslationEntry.physicalPage)) := by
  induction l₁ with
  | nil =>
    obtain ⟨entry, hentry, hbytes⟩ := h
    exact ⟨entry, hentry, fun hp => (hbytes hp).1⟩
  | cons q l₁ ih =>
    obtain ⟨entry, -, hrest⟩ := h
    exact ih (hrest (hpos q List.mem_cons_self)).2 fun q' hq' => hpos q' (List.mem_cons_of_mem q hq')

/-! ## Headers with negative sizes -/

/-- A negative size counts as zero. -/
def clipSize (size : BitVec 32) : BitVec 32 := if size.toInt < 0 then 0#32 else size

theorem toInt_clipSize (size : BitVec 32) : (clipSize size).toInt = size.toInt.toNat := by
  unfold clipSize
  split
  · next h =>
    rw [BitVec.toInt_zero]
    omega
  · omega

def clipped (noffH : NoffHeader) : NoffHeader :=
  { noffH with
    code := { noffH.code with size := clipSize noffH.code.size }
    initData := { noffH.initData with size := clipSize noffH.initData.size } }

theorem segments_clipped (noffH : NoffHeader) : Segments (clipped noffH) := by
  refine ⟨?_, ?_⟩
  · show 0 ≤ (clipSize noffH.code.size).toInt
    rw [toInt_clipSize]
    omega
  · show 0 ≤ (clipSize noffH.initData.size).toInt
    rw [toInt_clipSize]
    omega

/-- The bytes of the two segments together. -/
def imageSize (noffH : NoffHeader) : ℕ :=
  noffH.code.size.toInt.toNat + noffH.initData.size.toInt.toNat

theorem size_clipped (noffH : NoffHeader) :
    (clipped noffH).code.size.toInt + (clipped noffH).initData.size.toInt = imageSize noffH := by
  show (clipSize noffH.code.size).toInt + (clipSize noffH.initData.size).toInt = imageSize noffH
  rw [toInt_clipSize, toInt_clipSize, imageSize]
  push_cast
  rfl

theorem codePages_of_neg {size : ℤ} (h : -128 < size) (h' : size < 0) :
    numCodePage size = 0 ∧ lastCodePageSize size = size + 128 := by
  have hpages : numCodePage size = 0 := by
    unfold numCodePage
    rw [pageSize, divRoundUpInt_of_neg h', toUInt32_of_lt (by omega) (by omega)]
    omega
  refine ⟨hpages, ?_⟩
  have hpage : (pageSize : ℤ) = 128 := rfl
  rw [lastCodePageSize, hpages, hpage, toInt32_of_lt (by omega) (by omega)]
  omega

theorem numCodePage_of_wrap {size : ℤ} (h : -2 ^ 31 ≤ size) (h' : size ≤ -128) :
    numCodePage size = 2 ^ 32 - -size / 128 := by
  unfold numCodePage toUInt32
  rw [pageSize, divRoundUpInt_of_neg (by omega)]
  omega

theorem lastCodePageSize_eq (size : BitVec 32) :
    0 < lastCodePageSize size.toInt ∧ lastCodePageSize size.toInt ≤ 128 ∧
      128 - lastCodePageSize size.toInt = -size.toInt % 128 := by
  have hword : -2 ^ 31 ≤ size.toInt := BitVec.le_toInt size
  have hword' : size.toInt < 2 ^ 31 := BitVec.toInt_lt
  rcases lt_or_ge size.toInt 0 with hneg | hpos
  · rcases lt_or_ge (-128) size.toInt with hgt | hle
    · rw [(codePages_of_neg hgt hneg).2]
      omega
    · have hlast : lastCodePageSize size.toInt = 128 - -size.toInt % 128 := by
        have hpage : (pageSize : ℤ) = 128 := rfl
        rw [lastCodePageSize, numCodePage_of_wrap hword hle, hpage, toInt32, Int.bmod_def]
        omega
      omega
  · rw [(codePages_spec hpos hword').2]
    omega

theorem pieces_of_no_data {first lastData : ℤ}
    (hdata : AddrSpace.dataPages noffH (lastCodePageSize noffH.code.size.toInt) =
      (0, lastData, first)) (hfirst : first ≤ 0) :
    pieces noffH = pagePieces 0 (lastCodePageSize noffH.code.size.toInt)
      noffH.code.inFileAddr.toInt (numCodePage noffH.code.size.toInt).toNat := by
  have hshared : sharedPieces noffH (lastCodePageSize noffH.code.size.toInt) first = [] :=
    if_neg fun h => absurd h.2 (not_lt.mpr hfirst)
  have hnone : ∀ (i : ℕ) (last position : ℤ), pagePieces i last position (0 : ℤ).toNat = [] :=
    fun _ _ _ => rfl
  simp only [pieces, hdata, hshared, hnone, List.append_nil]

theorem dataPages_of_nonpos (noffH : NoffHeader) (h : noffH.initData.size.toInt ≤ 0) {last : ℤ}
    (hpos : 0 < last) (hle : last ≤ 128)
    (hwrap : -2 ^ 31 ≤ noffH.initData.size.toInt - (128 - last)) :
    ∃ lastData first, AddrSpace.dataPages noffH last = (0, lastData, first) ∧ first ≤ 0 := by
  rcases dataPages_of_temp noffH last hpos hle (toInt32_of_lt hwrap (by omega)) with
    ⟨-, heq⟩ | ⟨htemp, heq⟩
  · exact ⟨_, _, heq, h⟩
  · have hpages : (noffH.initData.size.toInt - (128 - last) + 127) / 128 = 0 := by omega
    rw [hpages] at heq
    exact ⟨_, _, heq, by omega⟩

/-- INTERNAL: **a negative size counts as zero** while the arithmetic on it does not wrap around.
SRCLINE: userprog/addrspace.cc:173-206 -/
theorem pieces_clipped (hcode : -128 < noffH.code.size.toInt)
    (hdata : noffH.code.size.toInt < 0 → noffH.initData.size.toInt ≤ 0)
    (hwrap : -2 ^ 31 ≤ noffH.initData.size.toInt - -noffH.code.size.toInt % 128) :
    pieces noffH = pieces (clipped noffH) := by
  rcases le_or_gt noffH.initData.size.toInt 0 with hd | hd
  · -- no data: both have the pages of the code
    obtain ⟨hpos, hle, hgap⟩ := lastCodePageSize_eq noffH.code.size
    obtain ⟨lastData, first, heq, hfirst⟩ := dataPages_of_nonpos noffH hd hpos hle (by omega)
    have hcode' : (clipped noffH).code.size.toInt = noffH.code.size.toInt.toNat :=
      toInt_clipSize noffH.code.size
    have hdata' : (clipped noffH).initData.size.toInt = noffH.initData.size.toInt.toNat :=
      toInt_clipSize noffH.initData.size
    obtain ⟨hpos', hle', -⟩ := lastCodePageSize_eq (clipped noffH).code.size
    obtain ⟨lastData', first', heq', hfirst'⟩ := dataPages_of_nonpos (clipped noffH)
      (by omega) hpos' hle' (by omega)
    rw [pieces_of_no_data heq hfirst, pieces_of_no_data heq' hfirst', hcode']
    rcases lt_or_ge noffH.code.size.toInt 0 with hc | hc
    · have hzero : ((noffH.code.size.toInt.toNat : ℕ) : ℤ) = 0 := by omega
      rw [(codePages_of_neg hcode hc).1, hzero, (codePages_spec le_rfl (by omega)).1]
      rfl
    · rw [Int.toNat_of_nonneg hc]
      rfl
  · -- no negative size
    have hc : ¬ noffH.code.size.toInt < 0 := fun h => absurd (hdata h) (not_le.mpr hd)
    have hsame : clipped noffH = noffH := by
      unfold clipped clipSize
      rw [if_neg hc, if_neg (by omega)]
    rw [hsame]

/-! ## Safe headers -/

/-- The pages that the constructor asks for. -/
def pagesOf (noffH : NoffHeader) : ℕ := divRoundUp (AddrSpace.headerSize noffH) pageSize

/-- The header of an image that stays in the program's frames: no size is so far below zero that
the arithmetic wraps around, the pages have room for both segments, and the address of the code
does not move them out of the frames. -/
structure Confined (noffH : NoffHeader) : Prop where
  code : -128 < noffH.code.size.toInt
  data : noffH.code.size.toInt < 0 → noffH.initData.size.toInt ≤ 0
  wrap : -2 ^ 31 ≤ noffH.initData.size.toInt - -noffH.code.size.toInt % 128
  room : imageSize noffH ≤ pagesOf noffH * pageSize
  place : noffH.code.virtualAddr.toInt = 0 ∨ imageSize noffH = 0 ∨
    (0 ≤ noffH.code.virtualAddr.toInt ∧
      noffH.code.virtualAddr.toInt + imageSize noffH ≤ pageSize) ∨
    (pagesOf noffH = numPhysPages ∧ 0 ≤ noffH.code.virtualAddr.toInt ∧
      noffH.code.virtualAddr.toInt + imageSize noffH ≤ memorySize)

theorem allClear_of_card {b : BitMap} (hbits : b.numBits = numPhysPages)
    (hcard : numPhysPages ≤ (clearSet b).card) : AllClear b := by
  have hall : clearSet b = Finset.range b.numBits :=
    Finset.eq_of_subset_of_card_le (Finset.filter_subset _ _)
      (by rw [Finset.card_range, hbits]; exact hcard)
  refine ⟨hbits, fun f hf => ?_⟩
  obtain ⟨i, hi, hset, -⟩ := test_eq_some_true_iff.mp hf
  have hclear := (mem_clearSet.mp (hall ▸ Finset.mem_range.mpr hi)).2
  rw [hset] at hclear
  cases hclear

theorem PieceOf.end_le {p : Piece} (h : PieceOf (clipped noffH) p) :
    p.start + p.numBytes ≤ imageSize noffH := by
  have hsize := size_clipped noffH
  have hdata := (segments_clipped noffH).initData
  rcases h.part with ⟨hend, -⟩ | ⟨-, hend, -⟩ <;> omega

/-- INTERNAL: **a confined image is copied into the program's own frames.**
SRCLINE: userprog/addrspace.cc:136-206 -/
theorem copySafe_of_confined {clearPage : ℤ → Memory → Memory} {b b' : BitMap} {mem mem' : Memory}
    (h : Confined executable.noffH) (hbits : b.numBits = numPhysPages)
    (hfit : pagesOf executable.noffH ≤ (clearSet b).card)
    (halloc : AddrSpace.allocPages clearPage 0 (pagesOf executable.noffH) b mem =
      some (table, b', mem')) :
    CopySafe executable table (pieces executable.noffH) := by
  have hpage : (pageSize : ℤ) = 128 := rfl
  have hlen := (valid_of_allocPages _ halloc).1
  have hroom := h.room
  refine copySafe_of_forall fun p hp => ?_
  rw [pieces_clipped h.code h.data h.wrap] at hp
  have hpiece := pieceOf_of_mem (segments_clipped executable.noffH) hp
  have hend := hpiece.end_le
  have hstart := hpiece.start_nonneg
  have hbytes := hpiece.numBytes
  have hoffset := hpiece.offset
  have hpageEnd := hpiece.page
  have hindex : p.index < table.length := by
    refine hpiece.index_lt (segments_clipped executable.noffH).initData ?_
    rw [size_clipped, hlen]
    exact_mod_cast hroom
  have hentry := List.getElem?_eq_getElem hindex
  generalize table[p.index] = entry at hentry
  have hmem : entry.physicalPage ∈ table.map TranslationEntry.physicalPage :=
    List.mem_map_of_mem (List.mem_of_getElem? hentry)
  refine ⟨entry, hentry, fun x hx => ?_⟩
  obtain ⟨hle, hlt, -⟩ := hx
  rw [Piece.into, hpage] at hle hlt
  rw [Piece.start, hpage] at hend hstart
  rw [hpage] at hpageEnd
  -- the byte is on the page of the piece unless the page table has all frames
  have hown : ∀ f, f * 128 ≤ x → x < f * 128 + 128 → f ∈ table.map TranslationEntry.physicalPage →
      x ∈ frameBytes (table.map TranslationEntry.physicalPage) := by
    intro f hf hf' hfmem
    rw [frameBytes, Set.mem_ofPred_eq, hpage, show x / 128 = f by omega]
    exact hfmem
  rcases h.place with hzero | hempty | ⟨hva, hone⟩ | ⟨hfull, hva, hinside⟩
  · exact hown entry.physicalPage (by omega) (by omega) hmem
  · omega
  · exact hown entry.physicalPage (by omega) (by omega) hmem
  · rw [hfull] at hfit halloc
    have hb := allClear_of_card hbits hfit
    obtain ⟨b₁, halloc₁⟩ := allocPages_identity clearPage numPhysPages 0 b mem (by simp)
      (fun j _ hj => hb.isSet_eq_false (by omega)) (by rw [hb.1]; omega)
    rw [halloc, Option.some.injEq, Prod.mk.injEq] at halloc₁
    obtain ⟨rfl, -⟩ := halloc₁
    have hnum : p.index < numPhysPages := by
      rw [hlen, hfull] at hindex
      exact hindex
    rw [getElem?_identityEntries hnum, Option.some.injEq] at hentry
    subst hentry
    dsimp only at hle hlt
    have hmemory : (memorySize : ℤ) = 40960 := rfl
    obtain ⟨k, hk⟩ := Int.eq_ofNat_of_zero_le (show 0 ≤ x / 128 by omega)
    have hk' : k < numPhysPages := by
      simp only [numPhysPages]
      omega
    refine hown k (by omega) (by omega) (List.mem_map.mpr ⟨_, List.mem_of_getElem?
      (getElem?_identityEntries hk'), rfl⟩)

/-! ## Pages past the end of the table -/

theorem pagePieces_split (i : ℕ) (last position : ℤ) {n j : ℕ} (hj : j < n) :
    ∃ p l₁ l₂, pagePieces i last position n = l₁ ++ p :: l₂ ∧ p.index = i + j ∧
      ∀ q ∈ l₁, ∃ k < j, q.position = toInt32 (position + k * pageSize) := by
  have hlen : j < (pagePieces i last position n).length := by
    rw [pagePieces, List.length_map, List.length_range]
    exact hj
  refine ⟨(pagePieces i last position n).get ⟨j, hlen⟩, (pagePieces i last position n).take j,
    (pagePieces i last position n).drop (j + 1), ?_, ?_, fun q hq => ?_⟩
  · rw [List.get_eq_getElem, List.getElem_cons_drop, List.take_append_drop]
  · simp [pagePieces]
  · rw [pagePieces, ← List.map_take, List.take_range, List.mem_map] at hq
    obtain ⟨k, hk, rfl⟩ := hq
    rw [List.mem_range, Nat.lt_min] at hk
    exact ⟨k, hk.1, rfl⟩

/-- INTERNAL: **safe copying uses no page past the table.** The file positions are 0 here, so that
none of the pieces before that page is at a negative position.
SRCLINE: userprog/addrspace.cc:188-206 -/
theorem pages_le_of_copySafe {numData lastData first : ℤ}
    (hcodeAt : noffH.code.inFileAddr = 0#32) (hdataAt : noffH.initData.inFileAddr = 0#32)
    (hdata : AddrSpace.dataPages noffH (lastCodePageSize noffH.code.size.toInt) =
      (numData, lastData, first)) (hfirst : 0 < numData → 0 ≤ first ∧ first ≤ 128)
    (hlen : table.length ≤ numPhysPages)
    (h : CopySafe ⟨noffH, contents⟩ table (pieces noffH)) :
    (numCodePage noffH.code.size.toInt).toNat + numData.toNat ≤ table.length := by
  by_contra hcon
  rw [not_le] at hcon
  have hpage : (pageSize : ℤ) = 128 := rfl
  have hpages : numPhysPages = 320 := rfl
  have hpieces : pieces noffH = pagePieces 0 (lastCodePageSize noffH.code.size.toInt) 0
        (numCodePage noffH.code.size.toInt).toNat ++
      sharedPieces noffH (lastCodePageSize noffH.code.size.toInt) first ++
      pagePieces (numCodePage noffH.code.size.toInt).toNat lastData first numData.toNat := by
    simp only [pieces, hdata, hcodeAt, hdataAt, BitVec.toInt_zero, zero_add]
  rw [hpieces] at h
  rcases lt_or_ge table.length (numCodePage noffH.code.size.toInt).toNat with hlt | hge
  · -- the page is one of the code
    obtain ⟨p, l₁, l₂, heq, hindex, hpos⟩ :=
      pagePieces_split 0 (lastCodePageSize noffH.code.size.toInt) 0 hlt
    rw [heq, List.append_assoc, List.append_assoc, List.cons_append] at h
    obtain ⟨entry, hentry, -⟩ := h.piece fun q hq => by
      obtain ⟨k, hk, hposition⟩ := hpos q hq
      rw [hposition, hpage, toInt32_of_lt (by omega) (by omega)]
      omega
    rw [hindex, Nat.zero_add, List.getElem?_eq_none le_rfl] at hentry
    cases hentry
  · -- the page is one of the data
    obtain ⟨p, l₁, l₂, heq, hindex, hpos⟩ := pagePieces_split
      (numCodePage noffH.code.size.toInt).toNat lastData first
      (show table.length - (numCodePage noffH.code.size.toInt).toNat < numData.toNat by omega)
    obtain ⟨hfirst, hfirst'⟩ := hfirst (by omega)
    rw [heq, ← List.append_assoc] at h
    obtain ⟨entry, hentry, -⟩ := h.piece fun q hq => by
      rcases List.mem_append.mp hq with hq | hq
      · rcases List.mem_append.mp hq with hq | hq
        · obtain ⟨k, hk, rfl⟩ := mem_pagePieces.mp hq
          dsimp only
          rw [hpage, toInt32_of_lt (by omega) (by omega)]
          omega
        · unfold sharedPieces at hq
          split at hq
          · rw [List.mem_singleton.mp hq, hdataAt]
            exact le_rfl
          · exact absurd hq List.not_mem_nil
      · obtain ⟨k, hk, hposition⟩ := hpos q hq
        rw [hposition, hpage, toInt32_of_lt (by omega) (by omega)]
        omega
    rw [hindex, Nat.add_sub_cancel' hge, List.getElem?_eq_none le_rfl] at hentry
    cases hentry

/-- INTERNAL: with data behind a code size below zero the first piece is on page `2 ^ 32 - 1`. -/
theorem data_nonpos_of_copySafe (hcode : -128 < noffH.code.size.toInt)
    (hneg : noffH.code.size.toInt < 0) (hlen : table.length ≤ numPhysPages)
    (h : CopySafe ⟨noffH, contents⟩ table (pieces noffH)) : noffH.initData.size.toInt ≤ 0 := by
  by_contra hcon
  obtain ⟨hpages, hlast⟩ := codePages_of_neg hcode hneg
  have hword : noffH.initData.size.toInt < 2 ^ 31 := BitVec.toInt_lt
  have hfirst : 0 < (AddrSpace.dataPages noffH (noffH.code.size.toInt + 128)).2.2 := by
    rcases dataPages_of_temp noffH (noffH.code.size.toInt + 128) (by omega) (by omega)
      (toInt32_of_lt (by omega) (by omega)) with ⟨-, heq⟩ | ⟨-, heq⟩
    · rw [heq]
      dsimp only
      omega
    · rw [heq]
      dsimp only
      omega
  have hshared : sharedPieces noffH (noffH.code.size.toInt + 128)
      (AddrSpace.dataPages noffH (noffH.code.size.toInt + 128)).2.2 =
      [⟨(toUInt32 (0 - 1)).toNat, noffH.code.size.toInt + 128,
        (AddrSpace.dataPages noffH (noffH.code.size.toInt + 128)).2.2,
        noffH.initData.inFileAddr.toInt⟩] := by
    have hpage : (pageSize : ℤ) = 128 := rfl
    rw [sharedPieces, if_pos ⟨by omega, hfirst⟩, hpages]
  unfold pieces at h
  simp only [hpages, hlast, hshared] at h
  obtain ⟨entry, hentry, -⟩ := h
  have hpast : table[(toUInt32 (0 - 1)).toNat]? = none := by
    refine List.getElem?_eq_none (hlen.trans ?_)
    decide
  rw [hpast] at hentry
  cases hentry

/-- INTERNAL: **safe copying keeps the sizes in bounds.** -/
theorem sizes_of_copySafe (hcodeAt : noffH.code.inFileAddr = 0#32)
    (hdataAt : noffH.initData.inFileAddr = 0#32) (hlen : table.length ≤ numPhysPages)
    (h : CopySafe ⟨noffH, contents⟩ table (pieces noffH)) :
    -128 < noffH.code.size.toInt ∧
      (noffH.code.size.toInt < 0 → noffH.initData.size.toInt ≤ 0) ∧
      -2 ^ 31 ≤ noffH.initData.size.toInt - -noffH.code.size.toInt % 128 ∧
      imageSize noffH ≤ table.length * pageSize := by
  have hpages : numPhysPages = 320 := rfl
  have hcodeWord : -2 ^ 31 ≤ noffH.code.size.toInt := BitVec.le_toInt _
  have hcodeWord' : noffH.code.size.toInt < 2 ^ 31 := BitVec.toInt_lt
  have hdataWord : -2 ^ 31 ≤ noffH.initData.size.toInt := BitVec.le_toInt _
  have hdataWord' : noffH.initData.size.toInt < 2 ^ 31 := BitVec.toInt_lt
  obtain ⟨hpos, hle, hgap⟩ := lastCodePageSize_eq noffH.code.size
  -- the pages of the code, and those of the data for what is left of it
  have hcodePages : (numCodePage noffH.code.size.toInt).toNat ≤ table.length := by
    rcases dataPages_of_temp noffH _ hpos hle rfl with ⟨-, heq⟩ | ⟨-, heq⟩
    · have := pages_le_of_copySafe hcodeAt hdataAt heq (by simp) hlen h
      omega
    · have := pages_le_of_copySafe hcodeAt hdataAt heq (by omega) hlen h
      omega
  have hdataPages : ∀ temp, 0 ≤ temp →
      toInt32 (noffH.initData.size.toInt - (128 - lastCodePageSize noffH.code.size.toInt)) = temp →
      (numCodePage noffH.code.size.toInt).toNat + ((temp + 127) / 128).toNat ≤ table.length := by
    intro temp htemp hwrap
    rcases dataPages_of_temp noffH _ hpos hle hwrap with ⟨hneg, -⟩ | ⟨-, heq⟩
    · omega
    · exact pages_le_of_copySafe hcodeAt hdataAt heq (by omega) hlen h
  have hcode : -128 < noffH.code.size.toInt := by
    by_contra hcon
    rw [numCodePage_of_wrap hcodeWord (by omega)] at hcodePages
    omega
  have hdata : noffH.code.size.toInt < 0 → noffH.initData.size.toInt ≤ 0 :=
    fun hneg => data_nonpos_of_copySafe hcode hneg hlen h
  have hwrap : -2 ^ 31 ≤ noffH.initData.size.toInt - -noffH.code.size.toInt % 128 := by
    by_contra hcon
    have htemp : toInt32 (noffH.initData.size.toInt -
        (128 - lastCodePageSize noffH.code.size.toInt)) =
        noffH.initData.size.toInt - -noffH.code.size.toInt % 128 + 2 ^ 32 := by
      rw [hgap, toInt32, Int.bmod_def]
      omega
    have := hdataPages _ (by omega) htemp
    omega
  refine ⟨hcode, hdata, hwrap, ?_⟩
  simp only [imageSize, pageSize, sectorSize]
  rcases lt_or_ge noffH.code.size.toInt 0 with hneg | hnonneg
  · have := hdata hneg
    omega
  · rw [(codePages_spec hnonneg hcodeWord').1] at hcodePages hdataPages
    rcases lt_or_ge noffH.initData.size.toInt (-noffH.code.size.toInt % 128) with hsmall | hlarge
    · omega
    · have := hdataPages _ (by omega) (toInt32_of_lt (by omega) (by omega))
      omega

/-! ## Bytes of other frames -/

/-- INTERNAL: **every byte of the image is written over a frame of the table.** The file positions
are 0 and the file is long enough for both segments. -/
theorem frameBytes_of_copySafe (hcodeAt : noffH.code.inFileAddr = 0#32)
    (hdataAt : noffH.initData.inFileAddr = 0#32) (hlen : table.length ≤ numPhysPages)
    (hlong : numPhysPages * pageSize ≤ contents.length)
    (h : CopySafe ⟨noffH, contents⟩ table (pieces noffH)) (hk : 0 ≤ k) (hk' : k < imageSize noffH) :
    ∃ entry, table[(k / 128).toNat]? = some entry ∧
      noffH.code.virtualAddr.toInt + (entry.physicalPage * 128 + k % 128) ∈
        frameBytes (table.map TranslationEntry.physicalPage) := by
  obtain ⟨hcode, hdata, hwrap, hroom⟩ := sizes_of_copySafe hcodeAt hdataAt hlen h
  have hpage : (pageSize : ℤ) = 128 := rfl
  have hsize : imageSize noffH ≤ 40960 ∧ imageSize noffH ≤ contents.length := by
    simp only [numPhysPages, pageSize, sectorSize] at hlen hlong hroom
    omega
  rw [pieces_clipped hcode hdata hwrap] at h
  have hpieces : ∀ p ∈ pieces (clipped noffH), PieceOf (clipped noffH) p :=
    fun p hp => pieceOf_of_mem (segments_clipped noffH) hp
  have hpositions : ∀ p ∈ pieces (clipped noffH), 0 ≤ p.position ∧ p.position ≤ p.start := by
    intro p hp
    have hstart := (hpieces p hp).start_nonneg
    have hend := (hpieces p hp).end_le
    have hbytes := (hpieces p hp).numBytes
    have hclip := (segments_clipped noffH).code
    have hcodeAt' : (clipped noffH).code.inFileAddr = 0#32 := hcodeAt
    have hdataAt' : (clipped noffH).initData.inFileAddr = 0#32 := hdataAt
    rcases (hpieces p hp).part with ⟨-, hposition⟩ | ⟨hle, -, hposition⟩
    · rw [hposition, hcodeAt', BitVec.toInt_zero, toInt32_of_lt (by omega) (by omega)]
      omega
    · rw [hposition, hdataAt', BitVec.toInt_zero, toInt32_of_lt (by omega) (by omega)]
      omega
  obtain ⟨p, hp, hle, hlt⟩ := (covers_iff (segments_clipped noffH) hk).mpr
    (by rw [size_clipped]; exact hk')
  obtain ⟨l₁, l₂, hsplit⟩ := List.append_of_mem hp
  rw [hsplit] at h
  obtain ⟨entry, hentry, hbytes⟩ := h.piece fun q hq =>
    (hpositions q (by rw [hsplit]; exact List.mem_append_left _ hq)).1
  obtain ⟨hposition, hposition'⟩ := hpositions p hp
  have hoffset := (hpieces p hp).offset
  have hpageEnd := (hpieces p hp).page
  rw [hpage] at hpageEnd
  rw [Piece.start, hpage] at hle hlt hposition'
  have hindex : (k / 128).toNat = p.index := by omega
  refine ⟨entry, by rw [hindex]; exact hentry, hbytes hposition ?_⟩
  rw [Piece.bytes, Set.mem_ofPred_eq, Piece.into, hpage]
  dsimp only
  refine ⟨by omega, by omega, ?_⟩
  omega

theorem first_frame {clearPage : ℤ → Memory → Memory} {n : ℕ} {b b' : BitMap} {mem mem' : Memory}
    (hclear : isSet b 0 = false) (hbits : 0 < b.numBits) {entry : TranslationEntry}
    (halloc : AddrSpace.allocPages clearPage 0 n b mem = some (table, b', mem'))
    (hentry : table[0]? = some entry) : entry.physicalPage = 0 := by
  have hfind : b.find = some (((0 : ℕ) : ℤ), setBit b 0) :=
    findFrom_eq_of_clear b.numBits 0 0 (by omega) le_rfl (by omega) hclear (by omega)
  cases n with
  | zero =>
    cases halloc
    cases hentry
  | succ n =>
    simp only [AddrSpace.allocPages, hfind, Option.bind_eq_bind, Option.bind_some] at halloc
    obtain ⟨b₂, -, halloc⟩ := Option.bind_eq_some_iff.mp halloc
    obtain ⟨⟨rest, b₃, mem₁⟩, -, halloc⟩ := Option.bind_eq_some_iff.mp halloc
    cases halloc
    cases hentry
    rfl

/-! ## Exactly the confined headers -/

/-- The same header for segments at other positions of the file. -/
def placeInFile (noffH : NoffHeader) (codeAt dataAt : BitVec 32) : NoffHeader :=
  { noffH with
    code := { noffH.code with inFileAddr := codeAt }
    initData := { noffH.initData with inFileAddr := dataAt } }

/-- Wherever its segments are in the file, whatever the file holds, and on every page map that
passes the test for free pages, an image with this header is copied safely. -/
def CopiesInside (noffH : NoffHeader) : Prop :=
  ∀ (codeAt dataAt : BitVec 32) (contents : List Byte) (b b' : BitMap) (mem mem' : Memory)
    (table : List TranslationEntry) (free : ℕ),
    b.numBits = numPhysPages → b.numClear = some free →
    divRoundUp (AddrSpace.headerSize noffH) pageSize ≤ free →
    AddrSpace.allocPages (fun page mem => mem.bzero (page * pageSize) pageSize) 0
      (divRoundUp (AddrSpace.headerSize noffH) pageSize) b mem = some (table, b', mem') →
    CopySafe ⟨placeInFile noffH codeAt dataAt, contents⟩ table
      (pieces (placeInFile noffH codeAt dataAt))

theorem card_setBit {m : ℕ} (hm : m < numPhysPages) :
    (clearSet (setBit ⟨numPhysPages, fun _ => 0#32⟩ m)).card = numPhysPages - 1 := by
  have hclear : m ∈ clearSet ⟨numPhysPages, fun _ => 0#32⟩ :=
    mem_clearSet.mpr ⟨hm, allClear_zero.isSet_eq_false hm⟩
  rw [clearSet_setBit, Finset.card_erase_of_mem hclear, allClear_zero.card]

theorem CopiesInside.at_zero (h : CopiesInside noffH) {b : BitMap}
    (hbits : b.numBits = numPhysPages) (hfit : pagesOf noffH ≤ (clearSet b).card) :
    ∃ table b' mem', AddrSpace.allocPages (fun page mem => mem.bzero (page * pageSize) pageSize) 0
        (pagesOf noffH) b (fun _ => 0#8) = some (table, b', mem') ∧
      table.length = pagesOf noffH ∧ TakesFrames b ⟨table⟩ b' ∧
      CopySafe ⟨placeInFile noffH 0#32 0#32, List.replicate (numPhysPages * pageSize) 0#8⟩ table
        (pieces (placeInFile noffH 0#32 0#32)) := by
  obtain ⟨l, b', table, -, halloc, -⟩ := allocPages_eq
    (fun page mem => mem.bzero (page * pageSize) pageSize) (pagesOf noffH) b 0 (fun _ => 0#8) hfit
  exact ⟨table, b', _, halloc, (valid_of_allocPages _ halloc).1,
    (takesFrames_of_allocPages hfit halloc).1,
    h 0#32 0#32 _ b b' _ _ table _ hbits (numClear_eq b) hfit halloc⟩

/-- INTERNAL: with one frame taken, an image that begins outside its first frame, or crosses its
end, is written over a frame that is not its own. -/
theorem CopiesInside.one_page (h : CopiesInside noffH) (hpages : pagesOf noffH < numPhysPages)
    (hk : 0 ≤ k) (hk' : k < imageSize noffH) (hk128 : k < 128) :
    0 ≤ noffH.code.virtualAddr.toInt + k ∧ noffH.code.virtualAddr.toInt + k < 128 := by
  by_contra hcon
  -- the frame that would be written, or any other, is taken
  obtain ⟨m, hm, hm0, hout⟩ : ∃ m : ℕ, m < numPhysPages ∧ m ≠ 0 ∧
      ((noffH.code.virtualAddr.toInt + k) / 128 = m ∨
        ∀ f : ℕ, f < numPhysPages → (noffH.code.virtualAddr.toInt + k) / 128 ≠ f) := by
    by_cases hin : 0 ≤ noffH.code.virtualAddr.toInt + k ∧
        (noffH.code.virtualAddr.toInt + k) / 128 < numPhysPages
    · refine ⟨((noffH.code.virtualAddr.toInt + k) / 128).toNat, ?_, ?_, Or.inl ?_⟩ <;> omega
    · refine ⟨1, by decide, by decide, Or.inr fun f hf => ?_⟩
      omega
  have hbit : isSet (setBit ⟨numPhysPages, fun _ => 0#32⟩ m) 0 = false := by
    rw [isSet_setBit, allClear_zero.isSet_eq_false (by decide), Bool.or_false,
      decide_eq_false_iff_not]
    omega
  obtain ⟨table, b', mem', halloc, hlen, htakes, hsafe⟩ := h.at_zero
    (b := setBit ⟨numPhysPages, fun _ => 0#32⟩ m) rfl (by rw [card_setBit hm]; omega)
  obtain ⟨entry, hentry, hbytes⟩ := frameBytes_of_copySafe rfl rfl (by omega)
    (by rw [List.length_replicate]) hsafe hk hk'
  have hindex : (k / 128).toNat = 0 := by omega
  rw [hindex] at hentry
  have hframe := first_frame hbit (show 0 < numPhysPages by decide) halloc hentry
  have haddr : (noffH.code.virtualAddr.toInt + (entry.physicalPage * 128 + k % 128)) / pageSize =
      (noffH.code.virtualAddr.toInt + k) / 128 := by
    rw [hframe]
    simp only [pageSize, sectorSize]
    omega
  have hmem : (noffH.code.virtualAddr.toInt + k) / 128 ∈ table.map TranslationEntry.physicalPage :=
    haddr ▸ hbytes
  rcases hout with heq | hnone
  · rw [heq] at hmem
    refine htakes.free _ hmem (natCast_mem_markedSet.mpr ⟨hm, ?_⟩)
    rw [isSet_setBit, decide_eq_true rfl, Bool.true_or]
  · obtain ⟨e, he, hpage⟩ := List.mem_map.mp hmem
    obtain ⟨f, hf, hframe'⟩ := htakes.frame rfl he
    exact hnone f hf (hpage.symm.trans hframe')

/-- INTERNAL: with all frames in one table the image lies inside the memory. -/
theorem CopiesInside.all_pages (h : CopiesInside noffH) (hpages : pagesOf noffH = numPhysPages)
    (hk : 0 ≤ k) (hk' : k < imageSize noffH) :
    0 ≤ noffH.code.virtualAddr.toInt + k ∧ noffH.code.virtualAddr.toInt + k < memorySize := by
  obtain ⟨table, b', mem', halloc, hlen, htakes, hsafe⟩ := h.at_zero
    (b := ⟨numPhysPages, fun _ => 0#32⟩) rfl (by rw [allClear_zero.card, hpages])
  obtain ⟨b₁, halloc₁⟩ := allocPages_identity
    (fun page mem => mem.bzero (page * pageSize) pageSize) numPhysPages 0
    ⟨numPhysPages, fun _ => 0#32⟩ (fun _ => 0#8) (by simp)
    (fun j _ hj => allClear_zero.isSet_eq_false (by omega)) (by simp)
  rw [hpages] at halloc
  rw [halloc, Option.some.injEq, Prod.mk.injEq] at halloc₁
  obtain ⟨entry, hentry, hbytes⟩ := frameBytes_of_copySafe rfl rfl (by omega)
    (by rw [List.length_replicate]) hsafe hk hk'
  have hindex : (k / 128).toNat < numPhysPages := by
    rw [← hpages, ← hlen]
    exact (List.getElem?_eq_some_iff.mp hentry).1
  rw [halloc₁.1, getElem?_identityEntries hindex, Option.some.injEq] at hentry
  subst hentry
  obtain ⟨e, he, hpage⟩ := List.mem_map.mp hbytes
  obtain ⟨f, hf, hframe⟩ := htakes.frame rfl he
  rw [hframe] at hpage
  have hva : (placeInFile noffH 0#32 0#32).code.virtualAddr = noffH.code.virtualAddr := rfl
  simp only [hva, memorySize, numPhysPages, pageSize, sectorSize] at *
  omega

/-- SOURCE: userprog/addrspace.cc:136-206 — the copying of an image uses pages below `numPages` and
writes frames just allocated, for every file and every page map on which it gets past the test for
free pages, exactly when the header is confined. An image with more pages than the machine never
gets past the test. -/
theorem copies_stay_in_frames_exactly_when_confined (noffH : NoffHeader) :
    CopiesInside noffH ↔
      numPhysPages < divRoundUp (AddrSpace.headerSize noffH) pageSize ∨ Confined noffH := by
  constructor
  · intro h
    rcases Nat.lt_or_ge numPhysPages (pagesOf noffH) with hlarge | hfit
    · exact Or.inl hlarge
    · obtain ⟨table, b', mem', -, hlen, -, hsafe⟩ := h.at_zero
        (b := ⟨numPhysPages, fun _ => 0#32⟩) rfl (by rw [allClear_zero.card]; exact hfit)
      obtain ⟨hcode, hdata, hwrap, hroom⟩ := sizes_of_copySafe rfl rfl (by omega) hsafe
      rw [hlen] at hroom
      refine Or.inr ⟨hcode, hdata, hwrap, hroom, ?_⟩
      rcases Nat.eq_zero_or_pos (imageSize noffH) with hempty | hpos
      · exact Or.inr (Or.inl hempty)
      · rcases hfit.lt_or_eq with hlt | heq
        · obtain ⟨hfirst, -⟩ := h.one_page hlt le_rfl (by omega) (by omega)
          -- the last byte of the first page
          have hlast := (h.one_page hlt (k := (min (imageSize noffH) 128 : ℕ) - 1)
            (by omega) (by omega) (by omega)).2
          have hpage : (pageSize : ℤ) = 128 := rfl
          by_cases hone : imageSize noffH ≤ 128
          · exact Or.inr (Or.inr (Or.inl (by omega)))
          · exact Or.inl (by omega)
        · obtain ⟨hfirst, -⟩ := h.all_pages heq le_rfl (by omega)
          have hlast := (h.all_pages heq (k := (imageSize noffH : ℤ) - 1) (by omega) (by omega)).2
          exact Or.inr (Or.inr (Or.inr ⟨heq, by omega, by omega⟩))
  · rintro (hlarge | hconf) codeAt dataAt contents b b' mem mem' table free hbits hfree hfit halloc
    · rw [numClear_eq, Option.some.injEq] at hfree
      have hcard : (clearSet b).card ≤ b.numBits := by
        rw [← Finset.card_range b.numBits]
        exact Finset.card_filter_le _ _
      omega
    · rw [numClear_eq, Option.some.injEq] at hfree
      subst hfree
      exact copySafe_of_confined ⟨hconf.code, hconf.data, hconf.wrap, hconf.room, hconf.place⟩
        hbits hfit halloc

/-- A page of code that asks for address 128. -/
def secondPageHeader : NoffHeader := ⟨noffMagicNumber, ⟨128, 40, 128⟩, ⟨256, 168, 0⟩, ⟨256, 0, 0⟩⟩

/-- SOURCE: userprog/addrspace.cc:188-192 — a page of ones for address 128, loaded while frame 1 is
taken. The program gets the frames 0 and 2 to 9, and its code is written over frame 1. -/
theorem loader_overwrites_taken_frame :
    (⟨numPhysPages, fun w => if w = 0 then 2#32 else 0#32⟩ : BitMap).test 1 = some true ∧
      (AddrSpace.newFilename ⟨[]⟩ (some ⟨secondPageHeader, List.replicate 168 1#8⟩)
        ⟨numPhysPages, fun w => if w = 0 then 2#32 else 0#32⟩ (fun _ => 7#8)).map
        (fun r => (r.1.frames, r.2.2 128)) = some ([0, 2, 3, 4, 5, 6, 7, 8, 9], 1#8) ∧
      ¬ CopiesInside secondPageHeader := by
  refine ⟨by decide +kernel, by decide +kernel, fun h => ?_⟩
  have hfirst := h.one_page (by decide +kernel) le_rfl (by decide +kernel) (by decide)
  exact absurd hfirst.2 (by decide)

end Nachos.Analysis
