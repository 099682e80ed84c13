import Nachos.Analysis.LoadedImage
import Nachos.Library.LittleEndian

/-!
# Where the two loaders put a program

`AddrSpace(OpenFile*)` copies each segment in one piece to its own `virtualAddr`, as if page `i`
were in frame `i`. `AddrSpace(char*)` copies the pieces of `ImagePieces`, which lie one behind the
other from `code.virtualAddr` on; it never looks at `initData.virtualAddr`.

On an all-clear page map `Find` hands out the frames in order (`allocPages_identity`), so both
build the same page table and both write where they think they do: the first one the code and the
data at their own addresses (`newOpenFile_spec`), the second one the image from
`code.virtualAddr` on (`newFilename_spec`). The two memories are the same whatever the file holds
exactly when the data belongs right behind the code.
-/

set_option autoImplicit false

namespace Nachos.Analysis

open Nachos.Library Nachos.Model

variable {b : BitMap} {executable : Executable} {noffH : NoffHeader}

/-! ## An all-clear page map -/

/-- The entries of `n` pages from page `i` on, each in the frame with its own number. -/
def identityEntries (i n : ℕ) : List TranslationEntry :=
  (List.range' i n).map fun j : ℕ => ⟨(j : ℤ), (j : ℤ), true, false, false, false⟩

/-- INTERNAL: when the frames below `i` are taken and the next `n` are not, `Find` returns the
next `n` in order. -/
theorem allocPages_identity (clearPage : ℤ → Memory → Memory) (n : ℕ) :
    ∀ (i : ℕ) (b : BitMap) (mem : Memory), (∀ j < i, isSet b j = true) →
    (∀ j, i ≤ j → j < i + n → isSet b j = false) → i + n ≤ b.numBits →
    ∃ b', AddrSpace.allocPages clearPage i n b mem = some (identityEntries i n, b',
      (identityEntries i n).foldl (fun mem e => clearPage e.physicalPage mem) mem) := by
  induction n with
  | zero => exact fun i b mem _ _ _ => ⟨b, rfl⟩
  | succ n ih =>
    intro i b mem hset hclear hbits
    have hfind : b.find = some ((i : ℤ), setBit b i) :=
      findFrom_eq_of_clear b.numBits 0 i (by omega) (by omega) (by omega)
        (hclear i le_rfl (by omega)) fun j _ hj => hset j hj
    have hmark : (setBit b i).mark (i : ℤ) = some (setBit b i) := by
      rw [mark_eq (show i < (setBit b i).numBits by rw [numBits_setBit]; omega), setBit_of_isSet]
      simp
    obtain ⟨b', hrest⟩ := ih (i + 1) (setBit b i) (clearPage i mem)
      (fun j hj => by
        rw [isSet_setBit, Bool.or_eq_true, decide_eq_true_eq]
        rcases Nat.lt_succ_iff_lt_or_eq.mp hj with hlt | heq
        · exact Or.inr (hset j hlt)
        · exact Or.inl heq)
      (fun j hj hj' => by
        rw [isSet_setBit, hclear j (by omega) (by omega), Bool.or_false, decide_eq_false_iff_not]
        omega)
      (by rw [numBits_setBit]; omega)
    refine ⟨b', ?_⟩
    simp [AddrSpace.allocPages, hfind, hmark, hrest, identityEntries, List.range'_succ]

theorem getElem?_identityEntries {n i : ℕ} (h : i < n) :
    (identityEntries 0 n)[i]? = some ⟨i, i, true, false, false, false⟩ := by
  rw [identityEntries, List.getElem?_map, List.getElem?_range' h, Option.map_some, Nat.zero_add,
    Nat.one_mul]

theorem AllClear.isSet_eq_false (hb : AllClear b) {j : ℕ} (hj : j < numPhysPages) :
    isSet b j = false := by
  have hlt : j < b.numBits := by rw [hb.1]; exact hj
  have htest := hb.2 j
  rw [test_eq hlt, ne_eq, Option.some.injEq, Bool.not_eq_true] at htest
  exact htest

theorem AllClear.card (hb : AllClear b) : (clearSet b).card = numPhysPages := by
  have hall : clearSet b = Finset.range numPhysPages := by
    ext j
    rw [mem_clearSet, hb.1, Finset.mem_range]
    exact ⟨fun h => h.1, fun h => ⟨h, hb.isSet_eq_false h⟩⟩
  rw [hall, Finset.card_range]

theorem userByte_identity {n k : ℕ} (hn : n ≤ numPhysPages) (hk : k < n * pageSize) (mem : Memory) :
    userByte mem ⟨identityEntries 0 n⟩ k = some (mem k) := by
  have hlt : k / pageSize < n := Nat.div_lt_of_lt_mul (by rw [mul_comm]; exact hk)
  have hk' : (BitVec.ofNat 32 k).toNat = k := by
    rw [BitVec.toNat_ofNat]
    simp only [numPhysPages, pageSize, sectorSize] at *
    omega
  obtain ⟨table', htr⟩ := translate_of_entry mem (BitVec.ofNat 32 k) (Or.inl rfl) rfl
    (by rw [hk']; exact getElem?_identityEntries hlt) rfl rfl (lt_of_lt_of_le hlt hn)
  have hkey : k / pageSize * pageSize + k % pageSize = k := Nat.div_add_mod' k pageSize
  unfold userByte
  rw [htr, hk', hkey]

/-! ## The boot loader -/

/-- INTERNAL: one segment in one piece. -/
theorem copySegment_spec {segment : Segment}
    (hfile : 0 < segment.size.toInt → 0 ≤ segment.inFileAddr.toInt ∧
      segment.inFileAddr.toInt + segment.size.toInt ≤ executable.contents.length) (mem : Memory) :
    AddrSpace.copySegment executable segment mem = some fun x =>
      if segment.virtualAddr.toInt ≤ x ∧ x < segment.virtualAddr.toInt + segment.size.toInt then
        fileByte executable (segment.inFileAddr.toInt + (x - segment.virtualAddr.toInt))
      else mem x := by
  unfold AddrSpace.copySegment
  split
  · next hsize =>
    obtain ⟨hpos, hend⟩ := hfile hsize
    rw [Executable.readAt, if_neg (by omega), Option.some.injEq]
    funext x
    split
    · next hx => rw [getElem?_eq_fileByte (by omega) (by omega), Option.getD_some]
    · rfl
  · next hsize =>
    rw [Option.some.injEq]
    funext x
    rw [if_neg (by omega)]

/-- INTERNAL: **the boot loader** puts both segments at their own addresses, over zeros.
SRCLINE: userprog/addrspace.cc:63-121 -/
theorem newOpenFile_spec (hb : AllClear b) (mem : Memory)
    (hmagic : executable.noffH.noffMagic = noffMagicNumber) (hfile : HasSegments executable)
    (hfit : divRoundUp (AddrSpace.headerSize executable.noffH) pageSize ≤ numPhysPages) :
    ∃ b' mem', AddrSpace.newOpenFile executable b mem = some (⟨identityEntries 0
        (divRoundUp (AddrSpace.headerSize executable.noffH) pageSize)⟩, b', mem') ∧
      ∀ x : ℤ, 0 ≤ x → x < divRoundUp (AddrSpace.headerSize executable.noffH) pageSize * pageSize →
        mem' x =
          if executable.noffH.initData.virtualAddr.toInt ≤ x ∧
              x < executable.noffH.initData.virtualAddr.toInt +
                executable.noffH.initData.size.toInt then
            fileByte executable (executable.noffH.initData.inFileAddr.toInt +
              (x - executable.noffH.initData.virtualAddr.toInt))
          else if executable.noffH.code.virtualAddr.toInt ≤ x ∧
              x < executable.noffH.code.virtualAddr.toInt + executable.noffH.code.size.toInt then
            fileByte executable (executable.noffH.code.inFileAddr.toInt +
              (x - executable.noffH.code.virtualAddr.toInt))
          else 0#8 := by
  obtain ⟨b', halloc⟩ := allocPages_identity (fun _ mem => mem)
    (divRoundUp (AddrSpace.headerSize executable.noffH) pageSize) 0 b mem (by simp)
    (fun j _ hj => hb.isSet_eq_false (by omega)) (by rw [hb.1]; omega)
  have hnew : AddrSpace.newOpenFile executable b mem = some (⟨identityEntries 0
      (divRoundUp (AddrSpace.headerSize executable.noffH) pageSize)⟩, b', fun x =>
        if executable.noffH.initData.virtualAddr.toInt ≤ x ∧
            x < executable.noffH.initData.virtualAddr.toInt +
              executable.noffH.initData.size.toInt then
          fileByte executable (executable.noffH.initData.inFileAddr.toInt +
            (x - executable.noffH.initData.virtualAddr.toInt))
        else if executable.noffH.code.virtualAddr.toInt ≤ x ∧
            x < executable.noffH.code.virtualAddr.toInt + executable.noffH.code.size.toInt then
          fileByte executable (executable.noffH.code.inFileAddr.toInt +
            (x - executable.noffH.code.virtualAddr.toInt))
        else ((identityEntries 0 (divRoundUp (AddrSpace.headerSize executable.noffH)
          pageSize)).foldl (fun mem _ => mem) mem).bzero 0
            (toUInt32 ((divRoundUp (AddrSpace.headerSize executable.noffH) pageSize : ℕ) *
              pageSize)) x) := by
    simp only [AddrSpace.newOpenFile, hmagic, ne_eq, not_true_eq_false, if_false, numClear_eq,
      hb.card, Option.bind_eq_bind, Option.bind_some, hfit, if_true, halloc,
      copySegment_spec hfile.code, copySegment_spec hfile.initData, Option.pure_def]
  refine ⟨b', _, hnew, fun x hx hlt => ?_⟩
  have hwrap : toUInt32 ((divRoundUp (AddrSpace.headerSize executable.noffH) pageSize : ℕ) *
      pageSize) = (divRoundUp (AddrSpace.headerSize executable.noffH) pageSize : ℕ) *
      (pageSize : ℤ) := by
    simp only [numPhysPages, pageSize, sectorSize] at hfit ⊢
    exact toUInt32_of_lt (by omega) (by omega)
  rw [hwrap, Memory.bzero, if_pos (show 0 ≤ x ∧ x < 0 + _ by omega)]

/-! ## The loader of `Exec` -/

/-- INTERNAL: with the frames in order the pieces lie one behind the other. -/
theorem copySegments_identity {n : ℕ}
    (hsegments : Segments executable.noffH) (hfile : HasSegments executable)
    (hroom : executable.noffH.code.size.toInt + executable.noffH.initData.size.toInt ≤
      n * pageSize) (mem : Memory) :
    ∃ mem', AddrSpace.copySegments executable (identityEntries 0 n) mem = some mem' ∧
      ∀ x, mem' x = if executable.noffH.code.virtualAddr.toInt ≤ x ∧
          x < executable.noffH.code.virtualAddr.toInt +
            (executable.noffH.code.size.toInt + executable.noffH.initData.size.toInt) then
        imageByte executable (x - executable.noffH.code.virtualAddr.toInt) else mem x := by
  have hpieces : ∀ p ∈ pieces executable.noffH, PieceOf executable.noffH p :=
    fun p hp => pieceOf_of_mem hsegments hp
  have hentry : ∀ p ∈ pieces executable.noffH, (identityEntries 0 n)[p.index]? =
      some ⟨p.index, p.index, true, false, false, false⟩ :=
    fun p hp => getElem?_identityEntries ((hpieces p hp).index_lt hsegments.initData hroom)
  have hinto : ∀ p : Piece, p.into executable.noffH ⟨p.index, p.index, true, false, false, false⟩ =
      executable.noffH.code.virtualAddr.toInt + p.start := fun p => rfl
  have hputs : ∀ p ∈ pieces executable.noffH, Puts executable (identityEntries 0 n)
      (fun x => imageByte executable (x - executable.noffH.code.virtualAddr.toInt)) p := by
    intro p hp
    obtain ⟨hposition, hcontents⟩ := (hpieces p hp).contents hfile
    refine ⟨hposition, _, hentry p hp, fun x hle hlt => ?_⟩
    rw [hinto] at hle hlt ⊢
    rw [hcontents _ (by omega) (by omega)]
    congr 2
    omega
  have hwritten : ∀ x, Written executable.noffH (identityEntries 0 n) (pieces executable.noffH) x ↔
      executable.noffH.code.virtualAddr.toInt ≤ x ∧ x < executable.noffH.code.virtualAddr.toInt +
        (executable.noffH.code.size.toInt + executable.noffH.initData.size.toInt) := by
    intro x
    constructor
    · rintro ⟨p, hp, entry, he, hle, hlt⟩
      rw [hentry p hp] at he
      cases he
      rw [hinto] at hle hlt
      have hstart := (hpieces p hp).start_nonneg
      have hcovers : Covers (pieces executable.noffH)
          (x - executable.noffH.code.virtualAddr.toInt) := ⟨p, hp, by omega, by omega⟩
      have := (covers_iff hsegments (by omega)).mp hcovers
      omega
    · rintro ⟨hle, hlt⟩
      obtain ⟨p, hp, hstart, hend⟩ := (covers_iff hsegments
        (show 0 ≤ x - executable.noffH.code.virtualAddr.toInt by omega)).mpr (by omega)
      refine ⟨p, hp, _, hentry p hp, ?_⟩
      rw [hinto]
      omega
  obtain ⟨mem', hcopy, hmem⟩ := copyPieces_spec _ hputs mem
  refine ⟨mem', by rw [copySegments_eq]; exact hcopy, fun x => ?_⟩
  split
  · next hx => exact (hmem x).1 ((hwritten x).mpr hx)
  · next hx => exact (hmem x).2 fun hw => hx ((hwritten x).mp hw)

/-- INTERNAL: **the loader of `Exec`** puts the data behind the code, over zeros.
SRCLINE: userprog/addrspace.cc:123-210 -/
theorem newFilename_spec (hb : AllClear b)
    (uninit : AddrSpace) (mem : Memory) (hmagic : executable.noffH.noffMagic = noffMagicNumber)
    (hsegments : Segments executable.noffH) (hfile : HasSegments executable)
    (hfit : divRoundUp (AddrSpace.headerSize executable.noffH) pageSize ≤ numPhysPages)
    (hroom : executable.noffH.code.size.toInt + executable.noffH.initData.size.toInt ≤
      divRoundUp (AddrSpace.headerSize executable.noffH) pageSize * pageSize) :
    ∃ b' mem', AddrSpace.newFilename uninit (some executable) b mem = some (⟨identityEntries 0
        (divRoundUp (AddrSpace.headerSize executable.noffH) pageSize)⟩, b', mem') ∧
      ∀ x : ℤ, 0 ≤ x → x < divRoundUp (AddrSpace.headerSize executable.noffH) pageSize * pageSize →
        mem' x = if executable.noffH.code.virtualAddr.toInt ≤ x ∧
            x < executable.noffH.code.virtualAddr.toInt +
              (executable.noffH.code.size.toInt + executable.noffH.initData.size.toInt) then
          imageByte executable (x - executable.noffH.code.virtualAddr.toInt) else 0#8 := by
  obtain ⟨b', halloc⟩ := allocPages_identity (fun page mem => mem.bzero (page * pageSize) pageSize)
    (divRoundUp (AddrSpace.headerSize executable.noffH) pageSize) 0 b mem (by simp)
    (fun j _ hj => hb.isSet_eq_false (by omega)) (by rw [hb.1]; omega)
  obtain ⟨mem', hcopy, hmem⟩ := copySegments_identity hsegments hfile hroom ((identityEntries 0
    (divRoundUp (AddrSpace.headerSize executable.noffH) pageSize)).foldl
      (fun mem e => mem.bzero (e.physicalPage * pageSize) pageSize) mem)
  refine ⟨b', mem', ?_, fun x hx hlt => ?_⟩
  · simp only [AddrSpace.newFilename, hmagic, ne_eq, not_true_eq_false, if_false, numClear_eq,
      hb.card, Option.bind_eq_bind, Option.bind_some, gt_iff_lt, Nat.not_lt.mpr hfit, halloc, hcopy,
      Option.pure_def]
  · obtain ⟨k, rfl⟩ := Int.eq_ofNat_of_zero_le hx
    have hpage : k / pageSize < divRoundUp (AddrSpace.headerSize executable.noffH) pageSize := by
      simp only [pageSize, sectorSize] at hlt ⊢
      omega
    have hframe : (k : ℤ) ∈ frameBytes ((identityEntries 0 (divRoundUp
        (AddrSpace.headerSize executable.noffH) pageSize)).map TranslationEntry.physicalPage) :=
      List.mem_map.mpr ⟨_, List.mem_of_getElem? (getElem?_identityEntries hpage),
        Int.natCast_ediv k pageSize⟩
    rw [hmem, zeroPages_of_mem _ _ hframe]

/-! ## Agreement -/

/-- The addresses a segment asks for. -/
def segmentRange (segment : Segment) : Set ℤ :=
  {x | segment.virtualAddr.toInt ≤ x ∧ x < segment.virtualAddr.toInt + segment.size.toInt}

/-- The addresses of the program's pages. -/
def programRange (noffH : NoffHeader) : Set ℤ :=
  {x | 0 ≤ x ∧ x < divRoundUp (AddrSpace.headerSize noffH) pageSize * pageSize}

/-- The two segments are disjoint and lie inside the pages of the program. -/
structure Placed (noffH : NoffHeader) : Prop where
  code : 0 ≤ noffH.code.size.toInt
  initData : 0 ≤ noffH.initData.size.toInt
  codeInside : segmentRange noffH.code ⊆ programRange noffH
  dataInside : segmentRange noffH.initData ⊆ programRange noffH
  disjoint : ∀ x ∈ segmentRange noffH.code, x ∉ segmentRange noffH.initData

theorem segmentRange_bounds {segment : Segment} (h : segmentRange segment ⊆ programRange noffH)
    (hsize : 0 < segment.size.toInt) :
    0 ≤ segment.virtualAddr.toInt ∧ segment.virtualAddr.toInt + segment.size.toInt ≤
      divRoundUp (AddrSpace.headerSize noffH) pageSize * pageSize := by
  have hfirst := h (show segment.virtualAddr.toInt ∈ segmentRange segment from
    ⟨le_rfl, by omega⟩)
  have hlast := h (show segment.virtualAddr.toInt + segment.size.toInt - 1 ∈ segmentRange segment
    from ⟨by omega, by omega⟩)
  exact ⟨hfirst.1, by have := hlast.2; omega⟩

theorem Placed.ordered (h : Placed noffH) (hcode : 0 < noffH.code.size.toInt)
    (hdata : 0 < noffH.initData.size.toInt) :
    noffH.code.virtualAddr.toInt + noffH.code.size.toInt ≤ noffH.initData.virtualAddr.toInt ∨
      noffH.initData.virtualAddr.toInt + noffH.initData.size.toInt ≤
        noffH.code.virtualAddr.toInt := by
  by_contra hcon
  rw [not_or, not_le, not_le] at hcon
  -- the larger of the two beginnings would be in both segments
  rcases le_total noffH.code.virtualAddr.toInt noffH.initData.virtualAddr.toInt with hle | hle
  · have hin : noffH.initData.virtualAddr.toInt ∈ segmentRange noffH.code := ⟨hle, hcon.1⟩
    exact h.disjoint _ hin ⟨le_rfl, by omega⟩
  · have hin : noffH.code.virtualAddr.toInt ∈ segmentRange noffH.code := ⟨le_rfl, by omega⟩
    exact h.disjoint _ hin ⟨hle, hcon.2⟩

theorem Placed.room (h : Placed noffH) :
    noffH.code.size.toInt + noffH.initData.size.toInt ≤
      (divRoundUp (AddrSpace.headerSize noffH) pageSize : ℕ) * (pageSize : ℤ) := by
  have hcode := h.code
  have hdata := h.initData
  rcases hcode.lt_or_eq with hc | hc
  · have hcBounds := segmentRange_bounds h.codeInside hc
    rcases hdata.lt_or_eq with hd | hd
    · have hdBounds := segmentRange_bounds h.dataInside hd
      rcases h.ordered hc hd with hle | hle <;> omega
    · omega
  · rcases hdata.lt_or_eq with hd | hd
    · have hdBounds := segmentRange_bounds h.dataInside hd
      omega
    · rw [← hc, ← hd]
      exact_mod_cast Nat.zero_le _

/-- Both constructors succeed with the same page table, and every byte of the program's pages reads
the same after the one and after the other. -/
def LoadersAgree (executable : Executable) (uninit : AddrSpace) (b : BitMap) (mem : Memory) : Prop :=
  ∃ a b₁ mem₁ b₂ mem₂, AddrSpace.newOpenFile executable b mem = some (a, b₁, mem₁) ∧
    AddrSpace.newFilename uninit (some executable) b mem = some (a, b₂, mem₂) ∧
    a.numPages = divRoundUp (AddrSpace.headerSize executable.noffH) pageSize ∧
    ∀ k < a.numPages * pageSize, ∃ byte, userByte mem₁ a k = some byte ∧
      userByte mem₂ a k = some byte

theorem newOpenFile_too_large (executable : Executable) (hb : AllClear b) (mem : Memory)
    (h : numPhysPages < divRoundUp (AddrSpace.headerSize executable.noffH) pageSize) :
    AddrSpace.newOpenFile executable b mem = none := by
  simp only [AddrSpace.newOpenFile, numClear_eq, hb.card, Option.bind_eq_bind, Option.bind_some,
    Nat.not_le.mpr h, if_false, ite_self]

/-- INTERNAL: what agreement says about memory, on a page map with all frames in order. -/
theorem loadersAgree_iff (hb : AllClear b) (uninit : AddrSpace) (mem : Memory)
    (hmagic : executable.noffH.noffMagic = noffMagicNumber) (hplaced : Placed executable.noffH)
    (hfile : HasSegments executable)
    (hfit : divRoundUp (AddrSpace.headerSize executable.noffH) pageSize ≤ numPhysPages) :
    LoadersAgree executable uninit b mem ↔
      ∀ x : ℤ, 0 ≤ x → x < divRoundUp (AddrSpace.headerSize executable.noffH) pageSize * pageSize →
        (if executable.noffH.initData.virtualAddr.toInt ≤ x ∧
            x < executable.noffH.initData.virtualAddr.toInt +
              executable.noffH.initData.size.toInt then
          fileByte executable (executable.noffH.initData.inFileAddr.toInt +
            (x - executable.noffH.initData.virtualAddr.toInt))
        else if executable.noffH.code.virtualAddr.toInt ≤ x ∧
            x < executable.noffH.code.virtualAddr.toInt + executable.noffH.code.size.toInt then
          fileByte executable (executable.noffH.code.inFileAddr.toInt +
            (x - executable.noffH.code.virtualAddr.toInt))
        else 0#8) =
        if executable.noffH.code.virtualAddr.toInt ≤ x ∧
            x < executable.noffH.code.virtualAddr.toInt +
              (executable.noffH.code.size.toInt + executable.noffH.initData.size.toInt) then
          imageByte executable (x - executable.noffH.code.virtualAddr.toInt) else 0#8 := by
  have hroom := hplaced.room
  have hsegments : Segments executable.noffH := ⟨hplaced.code, hplaced.initData⟩
  obtain ⟨b₁, mem₁, hopen, hmem₁⟩ := newOpenFile_spec hb mem hmagic hfile hfit
  obtain ⟨b₂, mem₂, hname, hmem₂⟩ := newFilename_spec hb uninit mem hmagic hsegments hfile hfit hroom
  have hpages : (AddrSpace.mk (identityEntries 0
      (divRoundUp (AddrSpace.headerSize executable.noffH) pageSize))).numPages =
      divRoundUp (AddrSpace.headerSize executable.noffH) pageSize := by
    simp [AddrSpace.numPages, identityEntries]
  constructor
  · rintro ⟨a, b₁', mem₁', b₂', mem₂', hopen', hname', -, hbytes⟩ x hx hlt
    rw [hopen, Option.some.injEq, Prod.mk.injEq, Prod.mk.injEq] at hopen'
    rw [hname, Option.some.injEq, Prod.mk.injEq, Prod.mk.injEq] at hname'
    obtain ⟨rfl, rfl, rfl⟩ := hopen'
    obtain ⟨-, rfl, rfl⟩ := hname'
    obtain ⟨k, rfl⟩ := Int.eq_ofNat_of_zero_le hx
    have hk : k < divRoundUp (AddrSpace.headerSize executable.noffH) pageSize * pageSize := by
      exact_mod_cast hlt
    obtain ⟨byte, hbyte₁, hbyte₂⟩ := hbytes k (by rw [hpages]; exact hk)
    rw [userByte_identity hfit hk, Option.some.injEq] at hbyte₁ hbyte₂
    rw [← hmem₁ k hx hlt, ← hmem₂ k hx hlt, hbyte₁, hbyte₂]
  · intro h
    refine ⟨_, b₁, mem₁, b₂, mem₂, hopen, hname, hpages, fun k hk => ?_⟩
    rw [hpages] at hk
    have hlt : (k : ℤ) < divRoundUp (AddrSpace.headerSize executable.noffH) pageSize * pageSize := by
      exact_mod_cast hk
    refine ⟨mem₁ k, userByte_identity hfit hk mem₁, ?_⟩
    rw [userByte_identity hfit hk mem₂, hmem₁ k (by omega) hlt, hmem₂ k (by omega) hlt,
      h k (by omega) hlt]

theorem fileByte_ones {n : ℕ} {position : ℤ} (h : 0 ≤ position) (h' : position < n) :
    fileByte ⟨noffH, List.replicate n 1#8⟩ position = 1#8 := by
  rw [fileByte, List.getElem?_replicate, if_pos (by omega), Option.getD_some]

/-- SOURCE: userprog/addrspace.cc:63-210 — the two constructors agree on every file with this
header exactly when the machine has the pages and the data belongs right behind the code. The boot
loader asserts the first; `AddrSpace(char*)` never reads `initData.virtualAddr`. -/
theorem loaders_agree_exactly_when_contiguous (noffH : NoffHeader)
    (hmagic : noffH.noffMagic = noffMagicNumber) (hplaced : Placed noffH)
    (hfile : ∃ contents, HasSegments ⟨noffH, contents⟩) (b : BitMap) (hb : AllClear b)
    (uninit : AddrSpace) (mem : Memory) :
    (∀ contents, HasSegments ⟨noffH, contents⟩ → LoadersAgree ⟨noffH, contents⟩ uninit b mem) ↔
      divRoundUp (AddrSpace.headerSize noffH) pageSize ≤ numPhysPages ∧
        (noffH.initData.size.toInt = 0 ∨ noffH.initData.virtualAddr.toInt =
          noffH.code.virtualAddr.toInt + noffH.code.size.toInt) := by
  have hcode := hplaced.code
  have hdata := hplaced.initData
  constructor
  · intro h
    obtain ⟨contents, hc, hd, hlength⟩ := hfile
    dsimp only at hc hd hlength
    have hones : HasSegments ⟨noffH, List.replicate contents.length 1#8⟩ := by
      constructor
      · rw [List.length_replicate]
        exact hc
      · rw [List.length_replicate]
        exact hd
      · rw [List.length_replicate]
        exact hlength
    have hagree := h _ hones
    have hfit : divRoundUp (AddrSpace.headerSize noffH) pageSize ≤ numPhysPages := by
      by_contra hlarge
      rw [Nat.not_le] at hlarge
      obtain ⟨a, b₁, mem₁, b₂, mem₂, hopen, -⟩ := hagree
      have hnone := newOpenFile_too_large ⟨noffH, List.replicate contents.length 1#8⟩ hb mem hlarge
      rw [hnone] at hopen
      cases hopen
    refine ⟨hfit, ?_⟩
    rcases hdata.lt_or_eq with hpos | hzero
    · right
      rw [loadersAgree_iff hb uninit mem hmagic hplaced hones hfit] at hagree
      dsimp only at hagree
      obtain ⟨hlow, hhigh⟩ := segmentRange_bounds hplaced.dataInside hpos
      obtain ⟨hd, hdEnd⟩ := hd hpos
      -- a byte of the data is a one for the boot loader, so it must be one of the image
      have hbyte : ∀ x, noffH.initData.virtualAddr.toInt ≤ x →
          x < noffH.initData.virtualAddr.toInt + noffH.initData.size.toInt →
          noffH.code.virtualAddr.toInt ≤ x ∧ x < noffH.code.virtualAddr.toInt +
            (noffH.code.size.toInt + noffH.initData.size.toInt) := by
        intro x hle hlt
        by_contra hout
        have hx := hagree x (by omega) (by omega)
        rw [if_pos ⟨hle, hlt⟩, fileByte_ones (by omega) (by omega), if_neg hout] at hx
        cases hx
      obtain ⟨hfirst, -⟩ := hbyte noffH.initData.virtualAddr.toInt le_rfl (by omega)
      obtain ⟨-, hlast⟩ := hbyte (noffH.initData.virtualAddr.toInt +
        noffH.initData.size.toInt - 1) (by omega) (by omega)
      rcases hcode.lt_or_eq with hcpos | hczero
      · rcases hplaced.ordered hcpos hpos with hle | hle <;> omega
      · omega
    · exact Or.inl hzero.symm
  · rintro ⟨hfit, hbehind⟩ contents hcontents
    rw [loadersAgree_iff hb uninit mem hmagic hplaced hcontents hfit]
    intro x hx hlt
    dsimp only [imageByte]
    -- the address is in the data, in the code, or in neither
    by_cases hin : noffH.initData.virtualAddr.toInt ≤ x ∧
        x < noffH.initData.virtualAddr.toInt + noffH.initData.size.toInt
    · rw [if_pos hin, if_pos (by omega), if_neg (by omega)]
      congr 1
      omega
    · rw [if_neg hin]
      by_cases hin' : noffH.code.virtualAddr.toInt ≤ x ∧
          x < noffH.code.virtualAddr.toInt + noffH.code.size.toInt
      · rw [if_pos hin', if_pos (by omega), if_pos (by omega)]
      · rw [if_neg hin', if_neg (by omega)]

/-- The page map of a new machine. -/
theorem allClear_zero : AllClear ⟨numPhysPages, fun _ => 0#32⟩ := by
  refine ⟨rfl, fun f => ?_⟩
  unfold BitMap.test
  split <;> simp

/-- Four bytes of code and four of data behind it, on the page map of a new machine. -/
theorem loaders_agree_behind_code :
    LoadersAgree ⟨⟨noffMagicNumber, ⟨0, 40, 4⟩, ⟨4, 44, 4⟩, ⟨8, 0, 0⟩⟩, List.replicate 48 7#8⟩ ⟨[]⟩
      ⟨numPhysPages, fun _ => 0#32⟩ (fun _ => 0#8) := by
  refine (loaders_agree_exactly_when_contiguous
    ⟨noffMagicNumber, ⟨0, 40, 4⟩, ⟨4, 44, 4⟩, ⟨8, 0, 0⟩⟩ rfl ⟨by decide, by decide, ?_, ?_, ?_⟩
    ⟨List.replicate 48 7#8, by decide, by decide, by decide⟩ _ allClear_zero ⟨[]⟩ _).mpr
    ⟨by decide, Or.inr (by decide)⟩ _ ⟨by decide, by decide, by decide⟩
  · exact fun x hx => ⟨hx.1, hx.2.trans (by decide)⟩
  · exact fun x hx => ⟨le_trans (by decide) hx.1, hx.2.trans (by decide)⟩
  · exact fun x hx hx' => absurd (hx.2.trans_le hx'.1) (lt_irrefl x)

/-- Four bytes of code at 0 and four of data at 16, as a linker aligns them. -/
def alignedHeader : NoffHeader := ⟨noffMagicNumber, ⟨0, 40, 4⟩, ⟨16, 44, 4⟩, ⟨20, 0, 0⟩⟩

/-- The file of that program: its header, ones for the code and twos for the data. -/
def alignedImage : Executable :=
  ⟨alignedHeader, (List.range 40).map (bytesOf fun i =>
      ([noffMagicNumber, 0, 40, 4, 16, 44, 4, 20, 0, 0][i]?).getD 0#32) ++
    List.replicate 4 1#8 ++ List.replicate 4 2#8⟩

/-- SOURCE: userprog/addrspace.cc:194-199 — the data belongs at 16. The boot loader puts it there;
`AddrSpace(char*)` puts it at 4, so at 16 the child of an `Exec` reads 0. -/
theorem aligned_data_is_misplaced :
    Placed alignedHeader ∧ HasSegments alignedImage ∧
      (AddrSpace.newOpenFile alignedImage ⟨numPhysPages, fun _ => 0#32⟩ (fun _ => 0#8)).map
        (fun r => userByte r.2.2 r.1 16) = some (some 2#8) ∧
      (AddrSpace.newFilename ⟨[]⟩ (some alignedImage) ⟨numPhysPages, fun _ => 0#32⟩
        (fun _ => 0#8)).map (fun r => userByte r.2.2 r.1 16) = some (some 0#8) ∧
      ¬ LoadersAgree alignedImage ⟨[]⟩ ⟨numPhysPages, fun _ => 0#32⟩ (fun _ => 0#8) := by
  have hopen : (AddrSpace.newOpenFile alignedImage ⟨numPhysPages, fun _ => 0#32⟩ (fun _ => 0#8)).map
      (fun r => userByte r.2.2 r.1 16) = some (some 2#8) := by decide +kernel
  have hname : (AddrSpace.newFilename ⟨[]⟩ (some alignedImage) ⟨numPhysPages, fun _ => 0#32⟩
      (fun _ => 0#8)).map (fun r => userByte r.2.2 r.1 16) = some (some 0#8) := by decide +kernel
  refine ⟨⟨by decide, by decide, ?_, ?_, ?_⟩, ⟨by decide, by decide, by decide⟩, hopen, hname, ?_⟩
  · exact fun x hx => ⟨hx.1, hx.2.trans (by decide)⟩
  · exact fun x hx => ⟨le_trans (by decide) hx.1, hx.2.trans (by decide)⟩
  · exact fun x hx hx' => absurd (hx.2.trans (lt_of_lt_of_le (by decide) hx'.1)) (lt_irrefl x)
  · rintro ⟨a, b₁, mem₁, b₂, mem₂, hopen', hname', hpages, hbytes⟩
    rw [hopen', Option.map_some, Option.some.injEq] at hopen
    rw [hname', Option.map_some, Option.some.injEq] at hname
    obtain ⟨byte, hbyte₁, hbyte₂⟩ := hbytes 16 (by rw [hpages]; decide)
    rw [hbyte₁] at hopen
    rw [hbyte₂] at hname
    rw [hopen] at hname
    exact absurd hname (by decide)

end Nachos.Analysis
