import Mathlib.Data.Set.Function
import Nachos.Analysis.FrameOwnership
import Nachos.Analysis.ImagePieces

/-!
# Memory isolation of address spaces

What a space can read is decided by its page table and by the bytes of the frames in it.
A write through a page table lands in a frame of that table, since an aligned access does
not cross a page; `AddrSpace(char*)` zeroes and fills only frames it has just taken, as
long as its image is laid out the way the loader assumes; and the destructor writes no
memory at all. With the frames of different spaces disjoint (`FramesOwned`), none of the
three reaches what another space reads.

The bytes of frame `f` are those with `x / PageSize = f`, and every statement about memory
below says where two memories agree.
-/

set_option autoImplicit false

namespace Nachos.Analysis

open Nachos.Library Nachos.Model

variable {mem mem' : Memory} {s s' : SpaceState} {executable : Executable}
  {table : List TranslationEntry} {id : SpaceId} {a : AddrSpace} {size : ℕ}

/-- INTERNAL: the bytes of a list of frames.
SRCLINE: machine/translate.cc:251 -/
def frameBytes (frames : List ℤ) : Set ℤ := {x | x / pageSize ∈ frames}

theorem ediv_pageSize {f x : ℤ} (h : f * pageSize ≤ x) (h' : x < f * pageSize + pageSize) :
    x / pageSize = f := by
  simp only [pageSize, sectorSize] at *
  omega

theorem eqOn_of_interval {frames : List ℤ} {f start n : ℤ} (hf : f ∈ frames)
    (hstart : f * pageSize ≤ start) (hend : start + n ≤ f * pageSize + pageSize)
    (h : ∀ x, ¬ (start ≤ x ∧ x < start + n) → mem' x = mem x) :
    Set.EqOn mem' mem (frameBytes frames)ᶜ := by
  intro x hx
  refine h x fun hin => hx ?_
  show x / pageSize ∈ frames
  rw [ediv_pageSize (f := f) (by omega) (by omega)]
  exact hf

/-! ## What the loader writes -/

theorem bzero_of_not_mem {start n x : ℤ} (h : ¬ (start ≤ x ∧ x < start + n)) :
    mem.bzero start n x = mem x := by
  simp [Memory.bzero, h]

theorem readAt_of_not_mem {into n position x : ℤ}
    (h : executable.readAt mem into n position = some mem') (hx : ¬ (into ≤ x ∧ x < into + n)) :
    mem' x = mem x := by
  unfold Executable.readAt at h
  split at h
  · cases h
  · cases h
    simp [hx]

theorem eqOn_zeroPages (table : List TranslationEntry) {frames : List ℤ} :
    ∀ mem : Memory, (∀ e ∈ table, e.physicalPage ∈ frames) →
    Set.EqOn (table.foldl (fun (mem : Memory) e =>
      mem.bzero (e.physicalPage * pageSize) pageSize) mem) mem (frameBytes frames)ᶜ := by
  induction table with
  | nil => exact fun mem _ => Set.eqOn_refl _ _
  | cons e rest ih =>
    intro mem h
    rw [List.foldl_cons]
    have hrest := ih (mem.bzero (e.physicalPage * pageSize) pageSize)
      fun e' he' => h e' (List.mem_cons_of_mem _ he')
    have hfirst : Set.EqOn (mem.bzero (e.physicalPage * pageSize) pageSize) mem
        (frameBytes frames)ᶜ :=
      eqOn_of_interval (h e List.mem_cons_self) le_rfl le_rfl fun x => bzero_of_not_mem
    exact hrest.trans hfirst

/-- An image laid out as `AddrSpace(char*)` assumes: sizes that are not negative and fit
with the stack, and the code at 0. The data is put right behind it, whatever address it names. -/
structure WellFormed (noffH : NoffHeader) : Prop where
  code : 0 ≤ noffH.code.size.toInt
  initData : 0 ≤ noffH.initData.size.toInt
  uninitData : 0 ≤ noffH.uninitData.size.toInt
  fits : noffH.code.size.toInt + noffH.initData.size.toInt + noffH.uninitData.size.toInt +
    userStackSize < 2 ^ 31
  codeAddr : noffH.code.virtualAddr = 0#32

theorem WellFormed.segments {noffH : NoffHeader} (h : WellFormed noffH) : Segments noffH :=
  ⟨h.code, h.initData⟩

theorem eqOn_copyPiece {p : Piece} (haddr : executable.noffH.code.virtualAddr = 0#32)
    (hp : PieceOf executable.noffH p) (h : copyPiece executable table mem p = some mem') :
    Set.EqOn mem' mem (frameBytes (table.map TranslationEntry.physicalPage))ᶜ := by
  simp only [copyPiece, haddr, BitVec.toInt_zero, zero_add, Option.bind_eq_bind] at h
  obtain ⟨entry, hentry, hread⟩ := Option.bind_eq_some_iff.mp h
  have hf : entry.physicalPage ∈ table.map TranslationEntry.physicalPage :=
    List.mem_map_of_mem (List.mem_of_getElem? hentry)
  have hoffset := hp.offset
  have hpage := hp.page
  exact eqOn_of_interval hf (by omega) (by omega) fun x hx => readAt_of_not_mem hread hx

/-- INTERNAL: **the loader writes its own frames only.**
SRCLINE: userprog/addrspace.cc:173-206 -/
theorem eqOn_copySegments (hwf : WellFormed executable.noffH)
    (h : AddrSpace.copySegments executable table mem = some mem') :
    Set.EqOn mem' mem (frameBytes (table.map TranslationEntry.physicalPage))ᶜ := by
  have hpieces : ∀ (ps : List Piece) (mem : Memory), (∀ p ∈ ps, PieceOf executable.noffH p) →
      ps.foldlM (copyPiece executable table) mem = some mem' →
      Set.EqOn mem' mem (frameBytes (table.map TranslationEntry.physicalPage))ᶜ := by
    intro ps
    induction ps with
    | nil =>
      intro mem _ h
      cases h
      exact Set.eqOn_refl _ _
    | cons p ps ih =>
      intro mem hps h
      rw [List.foldlM_cons] at h
      obtain ⟨mem₁, hone, hrest⟩ := Option.bind_eq_some_iff.mp h
      have hfirst := eqOn_copyPiece hwf.codeAddr (hps p List.mem_cons_self) hone
      exact (ih mem₁ (fun q hq => hps q (List.mem_cons_of_mem p hq)) hrest).trans hfirst
  rw [copySegments_eq] at h
  exact hpieces _ mem (fun p hp => pieceOf_of_mem hwf.segments hp) h

theorem eqOn_newFilename {uninit a : AddrSpace} {b b' : BitMap} (hwf : WellFormed executable.noffH)
    (h : AddrSpace.newFilename uninit (some executable) b mem = some (a, b', mem')) :
    Set.EqOn mem' mem (frameBytes a.frames)ᶜ := by
  rcases newFilename_cases h with ⟨-, -, rfl⟩ | ⟨-, hcopy⟩
  · exact Set.eqOn_refl _ _
  · refine (eqOn_copySegments hwf hcopy).trans (eqOn_zeroPages a.pageTable mem fun e he => ?_)
    exact List.mem_map_of_mem he

/-! ## What the machine reads and writes -/

/-- INTERNAL: an aligned access of 1, 2 or 4 bytes does not cross the end of its page. -/
theorem offset_add_size_le {virtAddr : BitVec 32} (hsize : size = 1 ∨ size = 2 ∨ size = 4)
    (h : Machine.misaligned virtAddr size = false) :
    virtAddr.toNat % pageSize + size ≤ pageSize := by
  simp only [pageSize, sectorSize]
  have hmask : ∀ k : ℕ, k < 32 → virtAddr &&& BitVec.ofNat 32 (2 ^ k - 1) = 0#32 →
      virtAddr.toNat % 2 ^ k = 0 := by
    intro k hk hand
    have hlt : 2 ^ k - 1 < 2 ^ 32 :=
      (Nat.sub_le _ _).trans_lt (Nat.pow_lt_pow_right (by omega) hk)
    have hnat := congrArg BitVec.toNat hand
    rwa [BitVec.toNat_and, BitVec.toNat_ofNat, Nat.mod_eq_of_lt hlt,
      Nat.and_two_pow_sub_one_eq_mod] at hnat
  rcases hsize with rfl | rfl | rfl
  · omega
  · have h1 : virtAddr &&& 1#32 = 0#32 := by simpa [Machine.misaligned] using h
    have := hmask 1 (by omega) h1
    omega
  · have h3 : virtAddr &&& 3#32 = 0#32 := by simpa [Machine.misaligned] using h
    have := hmask 2 (by omega) h3
    omega

theorem translate_mainMemory (mem mem' : Memory) (table : List TranslationEntry)
    (virtAddr : BitVec 32) (size : ℕ) (writing : Bool) :
    Machine.translate ⟨mem', none, some table⟩ virtAddr size writing =
      (Machine.translate ⟨mem, none, some table⟩ virtAddr size writing).map
        (Except.map fun r => (r.1, { r.2 with mainMemory := mem' })) := by
  unfold Machine.translate
  split
  · rfl
  · simp only
    cases table[virtAddr.toNat / pageSize]? with
    | none => rfl
    | some entry =>
      simp only
      split
      · rfl
      · rcases Machine.useEntry entry (virtAddr.toNat % pageSize) size writing with
          _ | (e | ⟨p, entry'⟩) <;> rfl

/-- INTERNAL: no assertion of the translation fails for the sizes the machine uses. -/
theorem translate_isSome (mem : Memory) (table : List TranslationEntry) (virtAddr : BitVec 32)
    (hsize : size = 1 ∨ size = 2 ∨ size = 4) (writing : Bool) :
    ∃ r, Machine.translate ⟨mem, none, some table⟩ virtAddr size writing = some r := by
  unfold Machine.translate
  split
  · exact ⟨_, rfl⟩
  · rename_i halign
    have hoff := offset_add_size_le hsize (by simpa using halign)
    simp only
    cases table[virtAddr.toNat / pageSize]? with
    | none => exact ⟨_, rfl⟩
    | some entry =>
      simp only
      split
      · exact ⟨_, rfl⟩
      · have huse : ∃ r, Machine.useEntry entry (virtAddr.toNat % pageSize) size writing = some r := by
          unfold Machine.useEntry
          split
          · exact ⟨_, rfl⟩
          · simp only
            split
            · exact ⟨_, rfl⟩
            · rename_i hframe
              rw [if_pos]
              · exact ⟨_, rfl⟩
              · simp only [memorySize, numPhysPages, pageSize, sectorSize] at *
                omega
        obtain ⟨r, hr⟩ := huse
        rw [hr]
        rcases r with e | ⟨p, entry'⟩
        · exact ⟨_, rfl⟩
        · exact ⟨_, rfl⟩

theorem mem_frameBytes_of_translate {virtAddr : BitVec 32} {size p : ℕ} {writing : Bool}
    {m' : Machine}
    (hframes : ∀ f ∈ table.map TranslationEntry.physicalPage, 0 ≤ f ∧ f < numPhysPages)
    (hsize : size = 1 ∨ size = 2 ∨ size = 4)
    (h : Machine.translate ⟨mem, none, some table⟩ virtAddr size writing = some (.ok (p, m')))
    {x : ℤ} (hx : (p : ℤ) ≤ x) (hx' : x < p + size) :
    x ∈ frameBytes (table.map TranslationEntry.physicalPage) := by
  obtain ⟨halign, entry, table', hentry, hp, -, -, -⟩ := translate_ok h
  have hf : entry.physicalPage ∈ table.map TranslationEntry.physicalPage :=
    List.mem_map_of_mem (List.mem_of_getElem? hentry)
  have hoff := offset_add_size_le hsize halign
  obtain ⟨h0, h1⟩ := hframes _ hf
  show x / pageSize ∈ table.map TranslationEntry.physicalPage
  rw [ediv_pageSize (f := entry.physicalPage)]
  · exact hf
  · simp only [pageSize, sectorSize, numPhysPages] at *
    omega
  · simp only [pageSize, sectorSize, numPhysPages] at *
    omega

theorem load_congr (n : ℕ) : ∀ start : ℤ,
    (∀ x, start ≤ x → x < start + n → mem' x = mem x) → mem'.load start n = mem.load start n := by
  induction n with
  | zero => exact fun start _ => rfl
  | succ n ih =>
    intro start h
    simp only [Memory.load]
    rw [ih (start + 1) fun x h₁ h₂ => h x (by omega) (by push_cast; omega),
      h start le_rfl (by push_cast; omega)]

theorem loadValue_congr {p size : ℕ}
    (h : size = 1 ∨ size = 2 ∨ size = 4 →
      ∀ x : ℤ, (p : ℤ) ≤ x → x < p + size → mem' x = mem x) :
    Machine.loadValue mem' p size = Machine.loadValue mem p size := by
  unfold Machine.loadValue
  split
  · rw [h (Or.inl rfl) p le_rfl (by omega)]
  · rw [load_congr 2 p (h (Or.inr (Or.inl rfl)))]
  · rw [load_congr 4 p (h (Or.inr (Or.inr rfl)))]
  · rfl

/-- INTERNAL: **what a space reads** is decided by its page table and the bytes of its
frames.
SRCLINE: machine/translate.cc:87-122 -/
theorem readMem_congr
    (hframes : ∀ f ∈ table.map TranslationEntry.physicalPage, 0 ≤ f ∧ f < numPhysPages)
    (h : Set.EqOn mem' mem (frameBytes (table.map TranslationEntry.physicalPage)))
    (addr : BitVec 32) (size : ℕ) :
    (Machine.readMem ⟨mem', none, some table⟩ addr size).map (Except.map Prod.fst) =
      (Machine.readMem ⟨mem, none, some table⟩ addr size).map (Except.map Prod.fst) := by
  unfold Machine.readMem
  rw [translate_mainMemory mem mem']
  cases htr : Machine.translate ⟨mem, none, some table⟩ addr size false with
  | none => rfl
  | some r =>
    rcases r with e | ⟨p, m'⟩
    · rfl
    · obtain ⟨-, entry, table', -, -, -, rfl, -⟩ := translate_ok htr
      simp only [Option.map_some, Except.map]
      have hload : Machine.loadValue mem' p size = Machine.loadValue mem p size :=
        loadValue_congr fun hsize x hx hx' =>
          h (mem_frameBytes_of_translate hframes hsize htr hx hx')
      rw [hload]
      cases Machine.loadValue mem p size <;> rfl

/-! ## Isolation -/

/-- What `ReadMem` answers with the page table of space `id` installed. -/
def readResult (s : SpaceState) (id : SpaceId) (addr : BitVec 32) (size : ℕ) :
    Option (Except ExceptionType (BitVec 32)) :=
  match s.spaces id with
  | none => none
  | some a => ((s.restoreState a).readMem addr size).map (Except.map Prod.fst)

theorem readResult_congr (hs : FramesOwned s) (ha : s.spaces id = some a)
    (ha' : s'.spaces id = some a) {l : List ℤ} (hdisj : ∀ f ∈ a.frames, f ∉ l)
    (hmem : Set.EqOn s'.mainMemory s.mainMemory (frameBytes l)ᶜ) :
    readResult s' id = readResult s id := by
  funext addr size
  simp only [readResult, ha, ha']
  refine readMem_congr (hs.exclusive.inRange id a ha) (hmem.mono fun x hx => ?_) addr size
  exact fun hx' => hdisj _ hx hx'

/-- INTERNAL: `WriteMem` never fails an assertion, writes frames of its own table, and
touches no other space. -/
theorem step_writeMem (hs : FramesOwned s) (ha : s.spaces id = some a) (addr : BitVec 32)
    (hsize : size = 1 ∨ size = 2 ∨ size = 4) (value : BitVec 32) :
    ∃ s', s.step (.writeMem id addr size value) = some s' ∧
      (∀ id', id' ≠ id → s'.spaces id' = s.spaces id') ∧
      Set.EqOn s'.mainMemory s.mainMemory (frameBytes a.frames)ᶜ := by
  obtain ⟨r, hr⟩ := translate_isSome s.mainMemory a.pageTable addr hsize true
  rcases r with e | ⟨p, m'⟩
  · refine ⟨s, ?_, fun _ _ => rfl, Set.eqOn_refl _ _⟩
    simp [SpaceState.step, ha, SpaceState.restoreState, Machine.writeMem, hr]
  · obtain ⟨-, entry, table', -, -, -, rfl, -⟩ := translate_ok hr
    refine ⟨s.saveMachine id ⟨s.mainMemory.store p size value, none, some table'⟩, ?_, ?_, ?_⟩
    · simp [SpaceState.step, ha, SpaceState.restoreState, Machine.writeMem, hr, hsize]
    · intro id' hne
      exact Function.update_of_ne hne _ _
    · intro x hx
      show s.mainMemory.store p size value x = s.mainMemory x
      unfold Memory.store
      rw [if_neg]
      rintro ⟨h₁, h₂⟩
      exact hx (mem_frameBytes_of_translate (hs.exclusive.inRange id a ha) hsize hr h₁ h₂)

theorem readResult_newFilename (hs : FramesOwned s) {id id' : SpaceId} {uninit a : AddrSpace}
    (hwf : WellFormed executable.noffH)
    (h : s.step (.newFilename id (some executable) uninit) = some s') (ha : s.spaces id' = some a) :
    s'.spaces id' = some a ∧ readResult s' id' = readResult s id' := by
  cases hid : s.spaces id with
  | some c => simp [SpaceState.step, hid] at h
  | none =>
    simp only [SpaceState.step, hid, Option.map_eq_some_iff] at h
    obtain ⟨⟨c, b, mem⟩, hnew, rfl⟩ := h
    have hne : id' ≠ id := by
      rintro rfl
      rw [hid] at ha
      cases ha
    have ha' : (s.construct id (c, b, mem)).spaces id' = some a :=
      (Function.update_of_ne hne _ _).trans ha
    refine ⟨ha', readResult_congr hs ha ha' (fun f hf hfc => ?_) (eqOn_newFilename hwf hnew)⟩
    -- The frames of the new space were not marked, those of a live one are.
    refine (takesFrames_newFilename hnew).free f hfc (hs.owned.mem_marked (o := id') ?_)
    rwa [heldFrames_of_some ha]

theorem readResult_delete (hs : FramesOwned s) {c : AddrSpace} (hid : s.spaces id = some c) :
    ∃ s', s.step (.delete id) = some s' ∧ ∀ id' a, id' ≠ id → s.spaces id' = some a →
      s'.spaces id' = some a ∧ readResult s' id' = readResult s id' := by
  obtain ⟨b', hdel, -⟩ := hs.delete hid
  refine ⟨⟨s.mainMemory, b', Function.update s.spaces id none⟩, ?_, fun id' a hne ha => ?_⟩
  · simp [SpaceState.step, hid, hdel]
  · have ha' : Function.update s.spaces id none id' = some a :=
      (Function.update_of_ne hne _ _).trans ha
    exact ⟨ha', readResult_congr (l := []) hs ha ha' (by simp) (Set.eqOn_refl _ _)⟩

/-- Isolation of the live spaces of a state: a write of one, whether it succeeds or faults,
leaves everything another one reads as it is, and so do a further load and the destruction
of a third. -/
structure Isolated (s : SpaceState) : Prop where
  write : ∀ id id' a a', id ≠ id' → s.spaces id = some a → s.spaces id' = some a' →
    ∀ addr size value, size = 1 ∨ size = 2 ∨ size = 4 →
    ∃ s', s.step (.writeMem id addr size value) = some s' ∧ readResult s' id' = readResult s id'
  load : ∀ id executable uninit s', WellFormed executable.noffH →
    s.step (.newFilename id (some executable) uninit) = some s' →
    ∀ id' a, s.spaces id' = some a → readResult s' id' = readResult s id'
  delete : ∀ id c, s.spaces id = some c → ∃ s', s.step (.delete id) = some s' ∧
    ∀ id' a, id' ≠ id → s.spaces id' = some a → readResult s' id' = readResult s id'

theorem FramesOwned.isolated (hs : FramesOwned s) : Isolated s := by
  refine ⟨?_, ?_, ?_⟩
  · intro id id' a a' hne ha ha' addr size value hsize
    obtain ⟨s', hstep, hspaces, hmem⟩ := step_writeMem hs ha addr hsize value
    refine ⟨s', hstep, readResult_congr hs ha' ((hspaces id' hne.symm).trans ha') ?_ hmem⟩
    exact hs.exclusive.disjoint id' id a' a hne.symm ha' ha
  · intro id executable uninit s' hwf hstep id' a ha
    exact (readResult_newFilename hs hwf hstep ha).2
  · intro id c hid
    obtain ⟨s', hstep, h⟩ := readResult_delete hs hid
    exact ⟨s', hstep, fun id' a hne ha => (h id' a hne ha).2⟩

/-! ## Runs -/

/-- An event that is not one of space `id`: an access to memory by another space, the load
of a well-formed image by name, or the destruction of another space. -/
def Foreign (id : SpaceId) : SpaceEvent → Prop
  | .newOpenFile _ _ => False
  | .newFilename _ file _ => ∃ executable, file = some executable ∧ WellFormed executable.noffH
  | .delete id' => id' ≠ id
  | .readMem id' _ _ => id' ≠ id
  | .writeMem id' _ size _ => id' ≠ id ∧ (size = 1 ∨ size = 2 ∨ size = 4)

theorem eqOn_frameBytes {frames l : List ℤ} (hdisj : ∀ f ∈ frames, f ∉ l)
    (h : Set.EqOn mem' mem (frameBytes l)ᶜ) : Set.EqOn mem' mem (frameBytes frames) :=
  h.mono fun _ hx hx' => hdisj _ hx hx'

/-- INTERNAL: an event of others keeps a space alive and the bytes of its frames. -/
theorem eqOn_step (hs : FramesOwned s) (ha : s.spaces id = some a) {e : SpaceEvent}
    (he : Foreign id e) (h : s.step e = some s') :
    s'.spaces id = some a ∧ Set.EqOn s'.mainMemory s.mainMemory (frameBytes a.frames) := by
  cases e with
  | newOpenFile id' executable => exact he.elim
  | newFilename id' file uninit =>
    obtain ⟨executable, rfl, hwf⟩ := he
    refine ⟨(readResult_newFilename hs hwf h ha).1, ?_⟩
    cases hid : s.spaces id' with
    | some c => simp [SpaceState.step, hid] at h
    | none =>
      simp only [SpaceState.step, hid, Option.map_eq_some_iff] at h
      obtain ⟨⟨c, b, mem⟩, hnew, rfl⟩ := h
      refine eqOn_frameBytes (fun f hf hfc => ?_) (eqOn_newFilename hwf hnew)
      refine (takesFrames_newFilename hnew).free f hfc (hs.owned.mem_marked (o := id) ?_)
      rwa [heldFrames_of_some ha]
  | delete id' =>
    cases hid : s.spaces id' with
    | none => simp [SpaceState.step, hid] at h
    | some c =>
      simp only [SpaceState.step, hid, Option.map_eq_some_iff] at h
      obtain ⟨b, -, rfl⟩ := h
      exact ⟨(Function.update_of_ne (Ne.symm he) _ _).trans ha, Set.eqOn_refl _ _⟩
  | readMem id' addr size =>
    cases hid : s.spaces id' with
    | none => simp [SpaceState.step, hid] at h
    | some c =>
      rcases step_readMem_cases hid h with rfl | ⟨table, -, rfl⟩
      · exact ⟨ha, Set.eqOn_refl _ _⟩
      · exact ⟨(Function.update_of_ne (Ne.symm he) _ _).trans ha, Set.eqOn_refl _ _⟩
  | writeMem id' addr size value =>
    cases hid : s.spaces id' with
    | none => simp [SpaceState.step, hid] at h
    | some c =>
      obtain ⟨t, ht, hspaces, hmem⟩ := step_writeMem hs hid addr he.2 value
      rw [h] at ht
      cases ht
      exact ⟨(hspaces id (Ne.symm he.1)).trans ha,
        eqOn_frameBytes (hs.exclusive.disjoint id id' a c (Ne.symm he.1) ha hid) hmem⟩

/-- SOURCE: machine/translate.cc:87-255, userprog/addrspace.cc:123-221 — whatever spaces have
been constructed, used and destroyed since the page map was clear, the live ones are
isolated: no `WriteMem` of one of them, no further load by name of a well-formed image and
no destruction of another changes the answer of any `ReadMem` of a space. -/
theorem live_spaces_isolated (mem : Memory) (b : BitMap) (hb : AllClear b)
    (es : List SpaceEvent) (hes : ∀ e ∈ es, Opens e) :
    Always SpaceState.step Isolated (SpaceState.init mem b) es :=
  (always_framesOwned mem hb hes).imp fun _ hs => hs.isolated

/-- The boot program and a second one of 300 bytes of code and 20 of data, which writes to
its data and is destroyed. -/
theorem boot_and_second_isolated :
    Always SpaceState.step Isolated
      (SpaceState.init (fun _ => 0#8) ⟨numPhysPages, fun _ => 0#32⟩)
      [.newOpenFile 0 ⟨⟨noffMagicNumber, ⟨0, 40, 128⟩, ⟨128, 168, 0⟩, ⟨128, 0, 0⟩⟩, []⟩,
       .newFilename 1 (some ⟨⟨noffMagicNumber, ⟨0, 40, 300⟩, ⟨300, 340, 20⟩, ⟨320, 0, 0⟩⟩, []⟩) ⟨[]⟩,
       .writeMem 1 300 4 7, .delete 1] := by
  refine live_spaces_isolated _ _ ⟨rfl, fun f => ?_⟩ _ ?_
  · unfold BitMap.test
    split <;> simp
  · intro e he
    simp only [List.mem_cons, List.not_mem_nil, or_false] at he
    rcases he with rfl | rfl | rfl | rfl
    · trivial
    · rfl
    · trivial
    · trivial

end Nachos.Analysis
