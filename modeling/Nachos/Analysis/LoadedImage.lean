import Nachos.Analysis.MemoryIsolation

/-!
# The image a loaded program sees

`AddrSpace(char*)` loads a well-formed image whenever its pages are free (`newFilename_fits`). What
the program then reads through `Translate` is the image, wherever `Find` found the frames: the
pieces put it there page by page (`puts_of_mem`), the bytes they are written over are those of the
two segments (`written_iff`), and the page loop has zeroed all others.
-/

set_option autoImplicit false

namespace Nachos.Analysis

open Nachos.Library Nachos.Model

variable {executable : Executable} {entry : TranslationEntry} {table : List TranslationEntry}

/-! ## The loader runs through -/

/-- The positions at which the loader reads the segments that are not empty are not negative. -/
structure InFile (noffH : NoffHeader) : Prop where
  code : 0 < noffH.code.size.toInt → 0 ≤ noffH.code.inFileAddr.toInt ∧
    noffH.code.inFileAddr.toInt + noffH.code.size.toInt < 2 ^ 31
  initData : 0 < noffH.initData.size.toInt → 0 ≤ noffH.initData.inFileAddr.toInt ∧
    noffH.initData.inFileAddr.toInt + noffH.initData.size.toInt < 2 ^ 31

theorem headerSize_of_wellFormed {noffH : NoffHeader} (h : WellFormed noffH) :
    (AddrSpace.headerSize noffH : ℤ) = noffH.code.size.toInt + noffH.initData.size.toInt +
      noffH.uninitData.size.toInt + 1024 := by
  have hcode := toNat_of_nonneg h.code
  have hdata := toNat_of_nonneg h.initData
  have huninit := toNat_of_nonneg h.uninitData
  have hfits := h.fits
  simp only [AddrSpace.headerSize, BitVec.toNat_add, BitVec.toNat_ofNat, userStackSize] at *
  omega

theorem divRoundUp_pageSize (n : ℕ) : divRoundUp n pageSize = (n + 127) / 128 := by
  unfold divRoundUp pageSize sectorSize
  by_cases h : n % 128 > 0
  · rw [if_pos h]
    omega
  · rw [if_neg h]
    omega

theorem WellFormed.room {noffH : NoffHeader} (h : WellFormed noffH) :
    noffH.code.size.toInt + noffH.initData.size.toInt ≤
      (divRoundUp (AddrSpace.headerSize noffH) pageSize : ℕ) * pageSize := by
  have hsize := headerSize_of_wellFormed h
  have huninit := h.uninitData
  rw [divRoundUp_pageSize]
  simp only [pageSize, sectorSize]
  omega

/-- INTERNAL: **the segments of a well-formed image can be copied** once the pages are there.
SRCLINE: userprog/addrspace.cc:173-206 -/
theorem copySegments_total (hwf : WellFormed executable.noffH) (hin : InFile executable.noffH)
    (hlen : table.length = divRoundUp (AddrSpace.headerSize executable.noffH) pageSize)
    (mem : Memory) : ∃ mem', AddrSpace.copySegments executable table mem = some mem' := by
  rw [copySegments_eq]
  refine copyPieces_total _ (fun p hp => ?_) mem
  have hpiece := pieceOf_of_mem hwf.segments hp
  have hstart := hpiece.start_nonneg
  have hbytes := hpiece.numBytes
  refine ⟨hpiece.index_lt hwf.initData (by rw [hlen]; exact hwf.room), ?_⟩
  rcases hpiece.part with ⟨hend, hposition⟩ | ⟨hle, hend, hposition⟩
  · obtain ⟨hc, hcEnd⟩ := hin.code (by omega)
    rw [hposition, toInt32_of_lt (by omega) (by omega)]
    omega
  · obtain ⟨hd, hdEnd⟩ := hin.initData (by omega)
    rw [hposition, toInt32_of_lt (by omega) (by omega)]
    omega

/-- INTERNAL: the page loop fills a table of valid entries. -/
theorem valid_of_allocPages {clearPage : ℤ → Memory → Memory} (n : ℕ) :
    ∀ {i : ℕ} {b b' : BitMap} {mem mem' : Memory} {table : List TranslationEntry},
    AddrSpace.allocPages clearPage i n b mem = some (table, b', mem') →
    table.length = n ∧ ∀ e ∈ table, e.valid = true := by
  induction n with
  | zero =>
    intro i b b' mem mem' table h
    cases h
    exact ⟨rfl, by simp⟩
  | succ n ih =>
    intro i b b' mem mem' table h
    obtain ⟨⟨page, b₁⟩, -, h⟩ := Option.bind_eq_some_iff.mp h
    obtain ⟨b₂, -, h⟩ := Option.bind_eq_some_iff.mp h
    obtain ⟨⟨rest, b₃, mem₁⟩, hrest, h⟩ := Option.bind_eq_some_iff.mp h
    cases h
    obtain ⟨hlen, hvalid⟩ := ih hrest
    refine ⟨by rw [List.length_cons, hlen], ?_⟩
    rintro e (_ | ⟨_, he⟩)
    · rfl
    · exact hvalid e he

/-- INTERNAL: with enough free pages the constructor builds a page table on free frames, zeroes
them, and is left with the copying. -/
theorem newFilename_eq {b : BitMap} (uninit : AddrSpace) (mem : Memory)
    (hmagic : executable.noffH.noffMagic = noffMagicNumber)
    (hfit : divRoundUp (AddrSpace.headerSize executable.noffH) pageSize ≤ (clearSet b).card) :
    ∃ table b', TakesFrames b ⟨table⟩ b' ∧
      table.length = divRoundUp (AddrSpace.headerSize executable.noffH) pageSize ∧
      (∀ e ∈ table, e.valid = true) ∧
      AddrSpace.newFilename uninit (some executable) b mem =
        (AddrSpace.copySegments executable table (table.foldl
          (fun mem e => mem.bzero (e.physicalPage * pageSize) pageSize) mem)).map
            fun mem' => (⟨table⟩, b', mem') := by
  obtain ⟨l, b', table, -, halloc, -⟩ := allocPages_eq
    (fun page mem => mem.bzero (page * pageSize) pageSize)
    (divRoundUp (AddrSpace.headerSize executable.noffH) pageSize) b 0 mem hfit
  obtain ⟨hlen, hvalid⟩ := valid_of_allocPages _ halloc
  obtain ⟨htakes, hmem⟩ := takesFrames_of_allocPages hfit halloc
  refine ⟨table, b', htakes, hlen, hvalid, ?_⟩
  rw [hmem] at halloc
  simp only [AddrSpace.newFilename, hmagic, ne_eq, not_true_eq_false, if_false, numClear_eq,
    Option.bind_eq_bind, Option.bind_some, gt_iff_lt, Nat.not_lt.mpr hfit, halloc,
    Option.pure_def, Option.map_eq_bind, Function.comp_def]

/-- INTERNAL: **the constructor loads a well-formed image whose pages are free.** -/
theorem newFilename_fits {b : BitMap} (uninit : AddrSpace) (mem : Memory)
    (hmagic : executable.noffH.noffMagic = noffMagicNumber)
    (hfit : divRoundUp (AddrSpace.headerSize executable.noffH) pageSize ≤ (clearSet b).card)
    (hwf : WellFormed executable.noffH) (hin : InFile executable.noffH) :
    ∃ a b' mem', AddrSpace.newFilename uninit (some executable) b mem = some (a, b', mem') ∧
      a.numPages = divRoundUp (AddrSpace.headerSize executable.noffH) pageSize ∧
      ∀ e ∈ a.pageTable, e.valid = true := by
  obtain ⟨table, b', -, hlen, hvalid, heq⟩ := newFilename_eq uninit mem hmagic hfit
  obtain ⟨mem', hcopy⟩ := copySegments_total hwf hin hlen (table.foldl
    (fun mem e => mem.bzero (e.physicalPage * pageSize) pageSize) mem)
  exact ⟨⟨table⟩, b', mem', by rw [heq, hcopy]; rfl, hlen, hvalid⟩

/-! ## Reading through the page table -/

/-- INTERNAL: an aligned read of a valid page goes to the frame of the page. -/
theorem translate_of_entry (mem : Memory) (virtAddr : BitVec 32) {size f : ℕ}
    (hsize : size = 1 ∨ size = 2 ∨ size = 4) (halign : Machine.misaligned virtAddr size = false)
    (hentry : table[virtAddr.toNat / pageSize]? = some entry) (hvalid : entry.valid = true)
    (hframe : entry.physicalPage = f) (hf : f < numPhysPages) :
    ∃ table', Machine.translate ⟨mem, none, some table⟩ virtAddr size false =
      some (.ok (f * pageSize + virtAddr.toNat % pageSize, ⟨mem, none, some table'⟩)) := by
  have hoff := offset_add_size_le hsize halign
  have hmod : ((f : ℤ) % 2 ^ 32).toNat = f := by
    unfold numPhysPages at hf
    omega
  have huse : Machine.useEntry entry (virtAddr.toNat % pageSize) size false =
      some (.ok (f * pageSize + virtAddr.toNat % pageSize, { entry with use := true })) := by
    unfold Machine.useEntry
    rw [hframe, hmod]
    simp only [Bool.and_false, Bool.false_eq_true, if_false, ge_iff_le, Nat.not_le.mpr hf,
      Bool.or_false]
    rw [if_pos]
    simp only [memorySize, numPhysPages, pageSize, sectorSize] at *
    omega
  refine ⟨table.set (virtAddr.toNat / pageSize) { entry with use := true }, ?_⟩
  unfold Machine.translate
  rw [halign]
  simp [hentry, hvalid, huse]

/-- The byte at virtual address `k`, as `Translate` finds it with the page table of `a`
installed. -/
def userByte (mem : Memory) (a : AddrSpace) (k : ℕ) : Option Byte :=
  match Machine.translate ⟨mem, none, some a.pageTable⟩ (BitVec.ofNat 32 k) 1 false with
  | some (.ok (physAddr, _)) => some (mem physAddr)
  | _ => none

theorem TakesFrames.frame {b b' : BitMap} {a : AddrSpace} (h : TakesFrames b a b')
    (hbits : b.numBits = numPhysPages) (he : entry ∈ a.pageTable) :
    ∃ f : ℕ, f < numPhysPages ∧ entry.physicalPage = f := by
  obtain ⟨f, hf, -, hframe⟩ := (h.marked _).mpr (Or.inr (List.mem_map_of_mem he))
  exact ⟨f, by rw [← hbits, ← h.bits]; exact hf, hframe⟩

/-- INTERNAL: **the byte at `k` is in the frame of its page.** -/
theorem userByte_eq {b b' : BitMap} {a : AddrSpace} (htakes : TakesFrames b a b')
    (hbits : b.numBits = numPhysPages) (hvalid : ∀ e ∈ a.pageTable, e.valid = true) {k : ℕ}
    (hentry : a.pageTable[k / pageSize]? = some entry) (hk : k < 2 ^ 32) (mem : Memory) :
    userByte mem a k = some (mem (entry.physicalPage * pageSize + (k % pageSize : ℕ))) := by
  obtain ⟨f, hf, hframe⟩ := htakes.frame hbits (List.mem_of_getElem? hentry)
  have hk' : (BitVec.ofNat 32 k).toNat = k := by
    rw [BitVec.toNat_ofNat]
    exact Nat.mod_eq_of_lt hk
  obtain ⟨table', htr⟩ := translate_of_entry mem (BitVec.ofNat 32 k) (Or.inl rfl) rfl
    (by rw [hk']; exact hentry) (hvalid entry (List.mem_of_getElem? hentry))
    hframe hf
  unfold userByte
  rw [htr, hk', hframe]
  push_cast
  rfl

/-! ## The image in the pages -/

/-- The file has both segments. Its length is an `int`. -/
structure HasSegments (executable : Executable) : Prop where
  code : 0 < executable.noffH.code.size.toInt → 0 ≤ executable.noffH.code.inFileAddr.toInt ∧
    executable.noffH.code.inFileAddr.toInt + executable.noffH.code.size.toInt ≤
      executable.contents.length
  initData : 0 < executable.noffH.initData.size.toInt →
    0 ≤ executable.noffH.initData.inFileAddr.toInt ∧
    executable.noffH.initData.inFileAddr.toInt + executable.noffH.initData.size.toInt ≤
      executable.contents.length
  length : executable.contents.length < 2 ^ 31

/-- The byte of the file at `position`. -/
def fileByte (executable : Executable) (position : ℤ) : Byte :=
  (executable.contents[position.toNat]?).getD 0#8

/-- Byte `k` of the image: the code, and behind it the data. -/
def imageByte (executable : Executable) (k : ℤ) : Byte :=
  if k < executable.noffH.code.size.toInt then
    fileByte executable (executable.noffH.code.inFileAddr.toInt + k)
  else fileByte executable
    (executable.noffH.initData.inFileAddr.toInt + (k - executable.noffH.code.size.toInt))

theorem getElem?_eq_fileByte {position : ℤ} (h : 0 ≤ position)
    (h' : position < executable.contents.length) :
    executable.contents[position.toNat]? = some (fileByte executable position) := by
  have hlt : position.toNat < executable.contents.length := by omega
  rw [fileByte, List.getElem?_eq_getElem hlt, Option.getD_some]

theorem PieceOf.contents {p : Piece} (h : PieceOf executable.noffH p)
    (hfile : HasSegments executable) :
    0 ≤ p.position ∧ ∀ j, 0 ≤ j → j < p.numBytes →
      executable.contents[(p.position + j).toNat]? = some (imageByte executable (p.start + j)) := by
  have hstart := h.start_nonneg
  have hbytes := h.numBytes
  have hlength := hfile.length
  unfold imageByte
  rcases h.part with ⟨hend, hposition⟩ | ⟨hle, hend, hposition⟩
  · obtain ⟨hc, hcEnd⟩ := hfile.code (by omega)
    rw [toInt32_of_lt (by omega) (by omega)] at hposition
    refine ⟨by omega, fun j hj hlt => ?_⟩
    rw [if_pos (by omega), ← getElem?_eq_fileByte (by omega) (by omega), hposition, add_assoc]
  · obtain ⟨hd, hdEnd⟩ := hfile.initData (by omega)
    rw [toInt32_of_lt (by omega) (by omega)] at hposition
    refine ⟨by omega, fun j hj hlt => ?_⟩
    rw [if_neg (by omega), ← getElem?_eq_fileByte (by omega) (by omega), hposition, add_assoc,
      sub_add_eq_add_sub]

theorem index_unique (hnodup : (table.map TranslationEntry.physicalPage).Nodup) {i j : ℕ}
    {entry entry' : TranslationEntry} (hi : table[i]? = some entry) (hj : table[j]? = some entry')
    (h : entry.physicalPage = entry'.physicalPage) : i = j := by
  have hlt : i < (table.map TranslationEntry.physicalPage).length := by
    rw [List.length_map]
    exact (List.getElem?_eq_some_iff.mp hi).1
  refine (List.getElem?_inj hlt hnodup).mp ?_
  rw [List.getElem?_map, List.getElem?_map, hi, hj, Option.map_some, Option.map_some, h]

section

variable (haddr : executable.noffH.code.virtualAddr = 0#32)
  (hnodup : (table.map TranslationEntry.physicalPage).Nodup)

include haddr

theorem into_eq (p : Piece) (entry : TranslationEntry) :
    p.into executable.noffH entry = entry.physicalPage * pageSize + p.offset := by
  rw [Piece.into, haddr, BitVec.toInt_zero, zero_add]

include hnodup

/-- INTERNAL: with the code at 0 the pieces are written over the frames of the pages they belong
to. -/
theorem written_iff {ps : List Piece} (hps : ∀ p ∈ ps, PieceOf executable.noffH p) {i : ℕ}
    (hi : table[i]? = some entry) {o : ℤ} (ho : 0 ≤ o) (ho' : o < pageSize) :
    Written executable.noffH table ps (entry.physicalPage * pageSize + o) ↔
      Covers ps (i * pageSize + o) := by
  have hpage : (pageSize : ℤ) = 128 := rfl
  rw [hpage] at ho' ⊢
  constructor
  · rintro ⟨p, hp, entry', hentry, hle, hlt⟩
    rw [into_eq haddr, hpage] at hle hlt
    have hoffset := (hps p hp).offset
    have hend := (hps p hp).page
    rw [hpage] at hend
    have hindex : i = p.index := index_unique hnodup hi hentry (by omega)
    refine ⟨p, hp, ?_⟩
    rw [Piece.start, hpage, ← hindex]
    omega
  · rintro ⟨p, hp, hle, hlt⟩
    have hoffset := (hps p hp).offset
    have hend := (hps p hp).page
    rw [Piece.start, hpage] at hle hlt
    rw [hpage] at hend
    have hindex : p.index = i := by omega
    refine ⟨p, hp, entry, by rw [hindex]; exact hi, ?_⟩
    rw [into_eq haddr, hpage]
    omega

/-- The byte of the image that belongs at address `x` of memory. -/
def pageByte (executable : Executable) (table : List TranslationEntry) (x : ℤ) : Byte :=
  imageByte executable
    ((table.map TranslationEntry.physicalPage).idxOf (x / pageSize) * pageSize + x % pageSize)

omit haddr in
theorem pageByte_eq {i : ℕ} (hi : table[i]? = some entry) {o : ℤ} (ho : 0 ≤ o) (ho' : o < pageSize) :
    pageByte executable table (entry.physicalPage * pageSize + o) =
      imageByte executable (i * pageSize + o) := by
  obtain ⟨hlt, hget⟩ := List.getElem?_eq_some_iff.mp hi
  have hlt' : i < (table.map TranslationEntry.physicalPage).length := by
    rw [List.length_map]
    exact hlt
  have hindex := hnodup.idxOf_getElem i hlt'
  rw [List.getElem_map, hget] at hindex
  have hdiv : (entry.physicalPage * pageSize + o) / pageSize = entry.physicalPage := by
    simp only [pageSize, sectorSize] at *
    omega
  have hmod : (entry.physicalPage * pageSize + o) % pageSize = o := by
    simp only [pageSize, sectorSize] at *
    omega
  rw [pageByte, hdiv, hmod, hindex]

theorem puts_of_mem {p : Piece} (hp : PieceOf executable.noffH p) (hfile : HasSegments executable)
    (hindex : p.index < table.length) :
    Puts executable table (pageByte executable table) p := by
  obtain ⟨hposition, hcontents⟩ := hp.contents hfile
  obtain ⟨entry, hentry⟩ : ∃ entry, table[p.index]? = some entry :=
    ⟨_, List.getElem?_eq_getElem hindex⟩
  have hoffset := hp.offset
  have hend := hp.page
  refine ⟨hposition, entry, hentry, fun x hle hlt => ?_⟩
  obtain ⟨o, rfl⟩ : ∃ o, x = entry.physicalPage * pageSize + o :=
    ⟨x - entry.physicalPage * pageSize, by omega⟩
  rw [into_eq haddr] at hle hlt ⊢
  rw [hcontents _ (by omega) (by omega), pageByte_eq hnodup hentry (by omega) (by omega),
    Piece.start]
  congr 2
  omega

/-- INTERNAL: **copying the segments leaves the image in the pages**, and what it does not cover
as it was. -/
theorem copySegments_image (hsegments : Segments executable.noffH) (hfile : HasSegments executable)
    (hroom : executable.noffH.code.size.toInt + executable.noffH.initData.size.toInt ≤
      table.length * pageSize) (mem : Memory) :
    ∃ mem', AddrSpace.copySegments executable table mem = some mem' ∧
      ∀ (i : ℕ) (entry : TranslationEntry), table[i]? = some entry → ∀ o : ℤ, 0 ≤ o → o < pageSize →
        mem' (entry.physicalPage * pageSize + o) =
          if i * pageSize + o <
              executable.noffH.code.size.toInt + executable.noffH.initData.size.toInt then
            imageByte executable (i * pageSize + o)
          else mem (entry.physicalPage * pageSize + o) := by
  have hpieces : ∀ p ∈ pieces executable.noffH, PieceOf executable.noffH p :=
    fun p hp => pieceOf_of_mem hsegments hp
  obtain ⟨mem', hcopy, hmem⟩ := copyPieces_spec (pieces executable.noffH) (fun p hp =>
    puts_of_mem haddr hnodup (hpieces p hp) hfile
      ((hpieces p hp).index_lt hsegments.initData hroom)) mem
  refine ⟨mem', by rw [copySegments_eq]; exact hcopy, fun i entry hi o ho ho' => ?_⟩
  have hwritten := written_iff haddr hnodup hpieces hi ho ho'
  have hk : 0 ≤ i * (pageSize : ℤ) + o := by
    simp only [pageSize, sectorSize]
    omega
  rw [covers_iff hsegments hk] at hwritten
  split
  · next hlt =>
    rw [(hmem _).1 (hwritten.mpr hlt), pageByte_eq hnodup hi ho ho']
  · next hge => exact (hmem _).2 fun hw => hge (hwritten.mp hw)

end

/-- INTERNAL: the page loop leaves zeros in every frame it takes. -/
theorem zeroPages_of_mem (table : List TranslationEntry) {x : ℤ} : ∀ mem : Memory,
    x ∈ frameBytes (table.map TranslationEntry.physicalPage) →
    table.foldl (fun (mem : Memory) e => mem.bzero (e.physicalPage * pageSize) pageSize) mem x =
      0#8 := by
  induction table with
  | nil => exact fun mem hx => absurd hx List.not_mem_nil
  | cons e rest ih =>
    intro mem hx
    rw [List.foldl_cons]
    by_cases hrest : x ∈ frameBytes (rest.map TranslationEntry.physicalPage)
    · exact ih _ hrest
    · have hpage : x / pageSize = e.physicalPage := by
        rcases List.mem_cons.mp hx with h | h
        · exact h
        · exact absurd h hrest
      have hkeep := eqOn_zeroPages rest (mem.bzero (e.physicalPage * pageSize) pageSize)
        (fun e' he' => List.mem_map_of_mem he') hrest
      rw [hkeep, Memory.bzero, if_pos]
      simp only [pageSize, sectorSize] at *
      omega

/-- SOURCE: userprog/addrspace.cc:123-210 — a well-formed image that the file contains is loaded
on any page map with enough clear bits, and the program reads it through `Translate`: the code
from 0 on, the data behind it, and zeros in the rest of its pages. -/
theorem program_reads_its_image (executable : Executable) (uninit : AddrSpace) (b : BitMap)
    (mem : Memory) (free : ℕ) (hmagic : executable.noffH.noffMagic = noffMagicNumber)
    (hwf : WellFormed executable.noffH) (hfile : HasSegments executable)
    (hbits : b.numBits = numPhysPages) (hfree : b.numClear = some free)
    (hfit : divRoundUp (AddrSpace.headerSize executable.noffH) pageSize ≤ free) :
    ∃ a b' mem', AddrSpace.newFilename uninit (some executable) b mem = some (a, b', mem') ∧
      a.numPages = divRoundUp (AddrSpace.headerSize executable.noffH) pageSize ∧
      (∀ k : ℕ, k < executable.noffH.code.size.toInt → userByte mem' a k =
        some (fileByte executable (executable.noffH.code.inFileAddr.toInt + k))) ∧
      (∀ k : ℕ, k < executable.noffH.initData.size.toInt →
        userByte mem' a (executable.noffH.code.size.toNat + k) =
          some (fileByte executable (executable.noffH.initData.inFileAddr.toInt + k))) ∧
      ∀ k : ℕ, executable.noffH.code.size.toInt + executable.noffH.initData.size.toInt ≤ k →
        k < a.numPages * pageSize → userByte mem' a k = some 0#8 := by
  rw [numClear_eq, Option.some.injEq] at hfree
  subst hfree
  obtain ⟨table, b', htakes, hlen, hvalid, heq⟩ := newFilename_eq uninit mem hmagic hfit
  have hroom := hwf.room
  rw [← hlen] at hroom
  obtain ⟨mem', hcopy, hmem⟩ := copySegments_image hwf.codeAddr htakes.nodup hwf.segments hfile
    hroom (table.foldl (fun mem e => mem.bzero (e.physicalPage * pageSize) pageSize) mem)
  have hpages : table.length ≤ numPhysPages := by
    rw [hlen, ← hbits]
    refine hfit.trans ?_
    rw [← Finset.card_range b.numBits]
    exact Finset.card_filter_le _ _
  -- what is at address `k`, page by page
  have hread : ∀ k : ℕ, k < table.length * pageSize → userByte mem' ⟨table⟩ k =
      some (if (k : ℤ) < executable.noffH.code.size.toInt + executable.noffH.initData.size.toInt
        then imageByte executable k else 0#8) := by
    intro k hk
    have hlt : k / pageSize < table.length := Nat.div_lt_of_lt_mul (by rw [mul_comm]; exact hk)
    obtain ⟨entry, hentry⟩ : ∃ entry, table[k / pageSize]? = some entry :=
      ⟨_, List.getElem?_eq_getElem hlt⟩
    have hkey : ((k / pageSize : ℕ) : ℤ) * pageSize + (k % pageSize : ℕ) = k := by
      simp only [pageSize, sectorSize]
      omega
    have hbound : k < 2 ^ 32 := by
      simp only [numPhysPages, pageSize, sectorSize] at *
      omega
    have hoff : ((k % pageSize : ℕ) : ℤ) < pageSize := by
      simp only [pageSize, sectorSize]
      omega
    have hframe : entry.physicalPage * pageSize + (k % pageSize : ℕ) ∈
        frameBytes (table.map TranslationEntry.physicalPage) := by
      rw [frameBytes, Set.mem_ofPred_eq, ediv_pageSize (f := entry.physicalPage) (by omega) (by omega)]
      exact List.mem_map_of_mem (List.mem_of_getElem? hentry)
    rw [userByte_eq htakes hbits hvalid hentry hbound mem',
      hmem _ entry hentry _ (Int.natCast_nonneg _) hoff, hkey, zeroPages_of_mem table mem hframe]
  have hcode := hwf.code
  have hdata := hwf.initData
  have hnat := toNat_of_nonneg hwf.code
  refine ⟨⟨table⟩, b', mem', by rw [heq, hcopy]; rfl, hlen, fun k hk => ?_, fun k hk => ?_,
    fun k hk hlt => ?_⟩
  · rw [hread k (by omega), if_pos (by omega), imageByte, if_pos hk]
  · rw [hread _ (by omega), if_pos (by omega), imageByte, if_neg (by omega)]
    congr 3
    omega
  · rw [hread k hlt, if_neg (by omega)]

/-- 130 bytes of code and 200 of data, on a page map with every second frame taken: the code ends
on page 1, the data begins there and ends on page 2. -/
theorem program_reads_its_image_fragmented :
    ∃ a b' mem', AddrSpace.newFilename ⟨[]⟩ (some
      ⟨⟨noffMagicNumber, ⟨0, 40, 130⟩, ⟨130, 170, 200⟩, ⟨330, 0, 0⟩⟩,
        List.replicate 170 1#8 ++ List.replicate 200 2#8⟩) ⟨numPhysPages, fun _ => 0x55555555#32⟩
        (fun _ => 7#8) = some (a, b', mem') ∧
      userByte mem' a 129 = some 1#8 ∧ userByte mem' a 130 = some 2#8 ∧
      userByte mem' a 329 = some 2#8 ∧ userByte mem' a 330 = some 0#8 := by
  obtain ⟨a, b', mem', hnew, hpages, hcode, hdata, hzero⟩ := program_reads_its_image
    ⟨⟨noffMagicNumber, ⟨0, 40, 130⟩, ⟨130, 170, 200⟩, ⟨330, 0, 0⟩⟩,
      List.replicate 170 1#8 ++ List.replicate 200 2#8⟩ ⟨[]⟩ ⟨numPhysPages, fun _ => 0x55555555#32⟩
    (fun _ => 7#8) 160 rfl ⟨by decide, by decide, by decide, by decide, rfl⟩
    ⟨by decide +kernel, by decide +kernel, by decide +kernel⟩ rfl (by decide +kernel) (by decide)
  exact ⟨a, b', mem', hnew, hcode 129 (by decide), hdata 0 (by decide), hdata 199 (by decide),
    hzero 330 (by decide) (by rw [hpages]; decide)⟩

end Nachos.Analysis
