import Nachos.Analysis.BitMapSet
import Nachos.Library.Ownership
import Nachos.Library.Runs
import Nachos.Model.AddrSpace

/-!
# Who owns the physical frames

The frames of the live page tables and the marked bits of `gPhysPageBitMap` are kept in
step by three loops: the two constructors take frames with `Find`, and the destructor
gives them back with `Clear`. In the terms of `Nachos.Library.Ownership` the owners are
the live spaces, and what a space holds are the frames of its page table.

The free-page test before the loop is what makes every `Find` of it succeed, and a space
refused by that test holds nothing. The machine sets bits of page table entries but never
their frames. So ownership is an invariant of every run, whatever the header of a file
says about sizes.
-/

set_option autoImplicit false

namespace Nachos.Analysis

open Nachos.Library Nachos.Model

variable {mem mem' : Memory} {b b' : BitMap} {s : SpaceState} {id : SpaceId} {a : AddrSpace}
  {table : List TranslationEntry} {executable : Executable}

/-! ## The loops over a page table -/

/-- INTERNAL: with enough clear bits the loop builds a page table on the frames that
`Find` returns, and cleans each of them. -/
theorem allocPages_eq (clearPage : ℤ → Memory → Memory) (n : ℕ) :
    ∀ (b : BitMap) (i : ℕ) (mem : Memory), n ≤ (clearSet b).card →
    ∃ l b' table, findMany n b = some (l, b') ∧
      AddrSpace.allocPages clearPage i n b mem =
        some (table, b', l.foldl (fun mem page => clearPage page mem) mem) ∧
      table.map TranslationEntry.physicalPage = l := by
  induction n with
  | zero => exact fun b i mem _ => ⟨[], b, [], rfl, rfl, rfl⟩
  | succ n ih =>
    intro b i mem h
    obtain ⟨k, hk, hfind, hclear⟩ := find_of_clear (Nat.lt_of_lt_of_le (Nat.succ_pos n) h)
    obtain ⟨l, b', table, hmany, halloc, hframes⟩ :=
      ih (setBit b k) (i + 1) (clearPage k mem) (le_card_clearSet_setBit hk hclear h)
    -- `Find` has marked the bit, so the `Mark` that follows changes nothing.
    have hmark : (setBit b k).mark (k : ℤ) = some (setBit b k) := by
      rw [mark_eq (show k < (setBit b k).numBits from hk), setBit_of_isSet]
      simp
    refine ⟨k :: l, b', ⟨i, k, true, false, false, false⟩ :: table, ?_, ?_, ?_⟩
    · simp [findMany, hfind, hmany]
    · simp [AddrSpace.allocPages, hfind, hmark, halloc]
    · rw [List.map_cons, hframes]

/-- INTERNAL: the destructor unmarks the frames of the table and no other. -/
theorem clearPages_eq (table : List TranslationEntry) : ∀ b : BitMap,
    (table.map TranslationEntry.physicalPage).Nodup →
    (∀ f ∈ table.map TranslationEntry.physicalPage, f ∈ markedSet b) →
    ∃ b', AddrSpace.clearPages table b = some b' ∧ b'.numBits = b.numBits ∧
      ∀ f, f ∈ markedSet b' ↔ f ∈ markedSet b ∧ f ∉ table.map TranslationEntry.physicalPage := by
  induction table with
  | nil => exact fun b _ _ => ⟨b, rfl, rfl, by simp⟩
  | cons entry rest ih =>
    intro b hnodup hmarked
    rw [List.map_cons, List.nodup_cons] at hnodup
    obtain ⟨b₁, hclear, hbits₁, hset₁⟩ := clear_of_mem (hmarked entry.physicalPage (by simp))
    have hrest : ∀ f ∈ rest.map TranslationEntry.physicalPage, f ∈ markedSet b₁ := by
      intro f hf
      refine (hset₁ f).mpr ⟨hmarked f (by rw [List.map_cons]; exact List.mem_cons_of_mem _ hf), ?_⟩
      rintro rfl
      exact hnodup.1 hf
    obtain ⟨b', hrun, hbits, hset⟩ := ih b₁ hnodup.2 hrest
    refine ⟨b', ?_, hbits.trans hbits₁, fun f => ?_⟩
    · simp [AddrSpace.clearPages, hclear, hrun]
    · rw [hset, hset₁, List.map_cons, List.mem_cons, not_or, and_assoc]

/-! ## The constructors -/

/-- INTERNAL: `a` was built on frames that were unmarked in `b`, and `b'` marks them too.
SRCLINE: userprog/addrspace.cc:88-101, 158-169 -/
structure TakesFrames (b : BitMap) (a : AddrSpace) (b' : BitMap) : Prop where
  nodup : a.frames.Nodup
  free : ∀ f ∈ a.frames, f ∉ markedSet b
  bits : b'.numBits = b.numBits
  marked : ∀ f, f ∈ markedSet b' ↔ f ∈ markedSet b ∨ f ∈ a.frames

theorem takesFrames_of_allocPages {clearPage : ℤ → Memory → Memory} {n : ℕ}
    (h : n ≤ (clearSet b).card)
    (halloc : AddrSpace.allocPages clearPage 0 n b mem = some (table, b', mem')) :
    TakesFrames b ⟨table⟩ b' ∧
      mem' = table.foldl (fun mem e => clearPage e.physicalPage mem) mem := by
  obtain ⟨l, b₁, table₁, hmany, hrun, hframes⟩ := allocPages_eq clearPage n b 0 mem h
  obtain ⟨l', b₂, hmany', -, hnodup, hfree, hbits, hmarked⟩ := findMany_spec n b h
  rw [hmany] at hmany'
  cases hmany'
  rw [halloc] at hrun
  cases hrun
  subst hframes
  refine ⟨⟨hnodup, hfree, hbits, hmarked⟩, ?_⟩
  rw [List.foldl_map]

theorem takesFrames_newOpenFile (h : AddrSpace.newOpenFile executable b mem = some (a, b', mem')) :
    TakesFrames b a b' := by
  unfold AddrSpace.newOpenFile at h
  simp only [numClear_eq, Option.bind_eq_bind, Option.bind_some] at h
  split at h
  · cases h
  · split at h
    · rename_i hfree
      obtain ⟨⟨table, b₁, mem₁⟩, halloc, h⟩ := Option.bind_eq_some_iff.mp h
      obtain ⟨mem₃, -, h⟩ := Option.bind_eq_some_iff.mp h
      obtain ⟨mem₄, -, h⟩ := Option.bind_eq_some_iff.mp h
      cases h
      exact (takesFrames_of_allocPages hfree halloc).1
    · cases h

theorem newFilename_cases {uninit a : AddrSpace}
    (h : AddrSpace.newFilename uninit (some executable) b mem = some (a, b', mem')) :
    (a = ⟨[]⟩ ∧ b' = b ∧ mem' = mem) ∨
    (TakesFrames b a b' ∧
      AddrSpace.copySegments executable a.pageTable (a.pageTable.foldl
        (fun mem e => mem.bzero (e.physicalPage * pageSize) pageSize) mem) = some mem') := by
  unfold AddrSpace.newFilename at h
  simp only [numClear_eq, Option.bind_eq_bind, Option.bind_some] at h
  split at h
  · cases h
  · split at h
    · cases h
      exact Or.inl ⟨rfl, rfl, rfl⟩
    · rename_i hfree
      obtain ⟨⟨table, b₁, mem₁⟩, halloc, h⟩ := Option.bind_eq_some_iff.mp h
      obtain ⟨mem₂, hcopy, h⟩ := Option.bind_eq_some_iff.mp h
      cases h
      obtain ⟨htakes, rfl⟩ := takesFrames_of_allocPages (Nat.le_of_not_lt hfree) halloc
      exact Or.inr ⟨htakes, hcopy⟩

theorem takesFrames_newFilename {uninit a : AddrSpace}
    (h : AddrSpace.newFilename uninit (some executable) b mem = some (a, b', mem')) :
    TakesFrames b a b' := by
  rcases newFilename_cases h with ⟨rfl, rfl, -⟩ | ⟨htakes, -⟩
  · exact ⟨List.nodup_nil, by simp [AddrSpace.frames], rfl, by simp [AddrSpace.frames]⟩
  · exact htakes

/-! ## The machine -/

theorem useEntry_ok {entry entry' : TranslationEntry} {offset size p : ℕ} {writing : Bool}
    (h : Machine.useEntry entry offset size writing = some (.ok (p, entry'))) :
    entry'.physicalPage = entry.physicalPage ∧
      p = (entry.physicalPage % 2 ^ 32).toNat * pageSize + offset ∧ p + size ≤ memorySize := by
  unfold Machine.useEntry at h
  split at h
  · cases h
  · simp only at h
    split at h
    · cases h
    · split at h
      · rename_i hle
        cases h
        exact ⟨rfl, rfl, hle⟩
      · cases h

/-- INTERNAL: **a successful translation** through a page table: the access is aligned, its
page is in the table, the address is in the frame of that page, and the table keeps all
its frames.
SRCLINE: machine/translate.cc:186-255 -/
theorem translate_ok {virtAddr : BitVec 32} {size p : ℕ} {writing : Bool} {m' : Machine}
    (h : Machine.translate ⟨mem, none, some table⟩ virtAddr size writing = some (.ok (p, m'))) :
    Machine.misaligned virtAddr size = false ∧
    ∃ entry table', table[virtAddr.toNat / pageSize]? = some entry ∧
      p = (entry.physicalPage % 2 ^ 32).toNat * pageSize + virtAddr.toNat % pageSize ∧
      p + size ≤ memorySize ∧ m' = ⟨mem, none, some table'⟩ ∧
      table'.map TranslationEntry.physicalPage = table.map TranslationEntry.physicalPage := by
  unfold Machine.translate at h
  split at h
  · cases h
  · rename_i halign
    refine ⟨by simpa using halign, ?_⟩
    simp only at h
    cases hentry : table[virtAddr.toNat / pageSize]? with
    | none => simp [hentry] at h
    | some entry =>
      simp only [hentry] at h
      split at h
      · cases h
      · split at h
        · cases h
        · cases h
        · rename_i q entry' huse
          cases h
          obtain ⟨hframe, hq, hle⟩ := useEntry_ok huse
          refine ⟨entry, _, rfl, hq, hle, rfl, ?_⟩
          rw [List.map_set, hframe]
          refine List.ext_getElem? fun i => ?_
          rw [List.getElem?_set]
          split
          · rename_i hi
            subst hi
            split
            · rw [List.getElem?_map, hentry]
              rfl
            · rename_i hlt
              rw [List.getElem?_eq_none (by simpa using hlt)]
          · rfl

/-! ## The invariant -/

/-- INTERNAL: the frames a space holds; a space that is not alive holds none.
SRCLINE: userprog/addrspace.h:36 -/
def heldFrames (s : SpaceState) (id : SpaceId) : List ℤ :=
  match s.spaces id with
  | none => []
  | some a => a.frames

theorem heldFrames_of_some (h : s.spaces id = some a) : heldFrames s id = a.frames := by
  simp [heldFrames, h]

theorem heldFrames_of_none (h : s.spaces id = none) : heldFrames s id = [] := by
  simp [heldFrames, h]

/-- INTERNAL: the live spaces own the marked frames of a map of `NumPhysPages` bits.
SRCLINE: threads/system.cc:130 -/
structure FramesOwned (s : SpaceState) : Prop where
  bits : s.gPhysPageBitMap.numBits = numPhysPages
  owned : Owned (heldFrames s) (markedSet s.gPhysPageBitMap)

theorem heldFrames_update (s : SpaceState) (id : SpaceId) (mem : Memory) (b : BitMap)
    (o : Option AddrSpace) :
    heldFrames ⟨mem, b, Function.update s.spaces id o⟩ =
      Function.update (heldFrames s) id (o.elim [] AddrSpace.frames) := by
  funext id'
  by_cases h : id' = id
  · subst h
    cases o <;> simp [heldFrames]
  · simp [heldFrames, Function.update_of_ne h]

theorem FramesOwned.construct (hs : FramesOwned s) (hid : s.spaces id = none)
    {r : AddrSpace × BitMap × Memory} (h : TakesFrames s.gPhysPageBitMap r.1 r.2.1) :
    FramesOwned (s.construct id r) := by
  refine ⟨h.bits.trans hs.bits, ?_⟩
  unfold SpaceState.construct
  rw [heldFrames_update]
  exact hs.owned.acquire (heldFrames_of_none hid) h.nodup h.free h.marked

theorem FramesOwned.delete (hs : FramesOwned s) (hid : s.spaces id = some a) :
    ∃ b', a.delete s.gPhysPageBitMap = some b' ∧
      FramesOwned ⟨s.mainMemory, b', Function.update s.spaces id none⟩ := by
  have hheld := heldFrames_of_some hid
  have hnodup : a.frames.Nodup := hheld ▸ hs.owned.nodup id
  obtain ⟨b', hrun, hbits, hset⟩ := clearPages_eq a.pageTable s.gPhysPageBitMap hnodup
    (fun f hf => hs.owned.mem_marked (hheld ▸ hf : f ∈ heldFrames s id))
  refine ⟨b', hrun, hbits.trans hs.bits, ?_⟩
  rw [heldFrames_update]
  refine hs.owned.release id fun f => ?_
  rw [hset, hheld]
  rfl

theorem FramesOwned.saveMachine (hs : FramesOwned s) (hid : s.spaces id = some a)
    (h : table.map TranslationEntry.physicalPage = a.frames) :
    FramesOwned (s.saveMachine id ⟨mem, none, some table⟩) := by
  refine ⟨hs.bits, hs.owned.congr (fun id' => ?_) fun f => Iff.rfl⟩
  unfold SpaceState.saveMachine
  rw [heldFrames_update]
  by_cases hid' : id' = id
  · subst hid'
    rw [Function.update_self, heldFrames_of_some hid]
    exact h
  · rw [Function.update_of_ne hid']

/-! ## One step -/

theorem step_readMem_cases {s s' : SpaceState} (hid : s.spaces id = some a) {addr : BitVec 32}
    {size : ℕ} (h : s.step (.readMem id addr size) = some s') :
    s' = s ∨ ∃ table : List TranslationEntry, table.map TranslationEntry.physicalPage = a.frames ∧
      s' = s.saveMachine id ⟨s.mainMemory, none, some table⟩ := by
  simp only [SpaceState.step, hid, Option.map_eq_some_iff] at h
  obtain ⟨r, hread, rfl⟩ := h
  unfold Machine.readMem at hread
  split at hread
  · cases hread
  · cases hread
    exact Or.inl rfl
  · rename_i p m' htr
    split at hread
    · cases hread
    · cases hread
      obtain ⟨-, entry, table, -, -, -, rfl, hframes⟩ := translate_ok htr
      exact Or.inr ⟨table, hframes, rfl⟩

/-- INTERNAL: what a step can do. A construction takes frames if its file opened, an access
to memory keeps the frames of its table, and a faulting one keeps everything. -/
theorem FramesOwned.step {s s' : SpaceState} {e : SpaceEvent} (hs : FramesOwned s)
    (hopen : ∀ id uninit, e ≠ .newFilename id none uninit) (h : s.step e = some s') :
    FramesOwned s' := by
  cases e with
  | newOpenFile id executable =>
    cases hid : s.spaces id with
    | some a => simp [SpaceState.step, hid] at h
    | none =>
      simp only [SpaceState.step, hid, Option.map_eq_some_iff] at h
      obtain ⟨⟨a, b, mem⟩, hnew, rfl⟩ := h
      exact hs.construct hid (takesFrames_newOpenFile hnew)
  | newFilename id file uninit =>
    cases hid : s.spaces id with
    | some a => simp [SpaceState.step, hid] at h
    | none =>
      cases file with
      | none => exact absurd rfl (hopen id uninit)
      | some executable =>
        simp only [SpaceState.step, hid, Option.map_eq_some_iff] at h
        obtain ⟨⟨a, b, mem⟩, hnew, rfl⟩ := h
        exact hs.construct hid (takesFrames_newFilename hnew)
  | delete id =>
    cases hid : s.spaces id with
    | none => simp [SpaceState.step, hid] at h
    | some a =>
      obtain ⟨b', hdel, hown⟩ := hs.delete hid
      simp only [SpaceState.step, hid, hdel, Option.map_some, Option.some.injEq] at h
      exact h ▸ hown
  | readMem id addr size =>
    cases hid : s.spaces id with
    | none => simp [SpaceState.step, hid] at h
    | some a =>
      rcases step_readMem_cases hid h with rfl | ⟨table, hframes, rfl⟩
      · exact hs
      · exact hs.saveMachine hid hframes
  | writeMem id addr size value =>
    cases hid : s.spaces id with
    | none => simp [SpaceState.step, hid] at h
    | some a =>
      simp only [SpaceState.step, hid, Option.map_eq_some_iff] at h
      obtain ⟨r, hwrite, rfl⟩ := h
      unfold Machine.writeMem at hwrite
      split at hwrite
      · cases hwrite
      · cases hwrite
        exact hs
      · rename_i p m' htr
        split at hwrite
        · cases hwrite
          obtain ⟨-, entry, table', -, -, -, rfl, hframes⟩ := translate_ok htr
          exact hs.saveMachine hid hframes
        · cases hwrite

/-! ## Runs -/

/-- A page map as system.cc:130 makes it: `NumPhysPages` bits, none of them set. -/
def AllClear (b : BitMap) : Prop := b.numBits = numPhysPages ∧ ∀ f, b.test f ≠ some true

/-- The file that a construction by name asks for opens. -/
def Opens : SpaceEvent → Prop
  | .newFilename _ file _ => file.isSome
  | _ => True

/-- No frame is shared, leaked or freed early: the frames of every live page table are
distinct frames of the machine, no two live tables have one in common, and a frame's bit
is set exactly when some live table has it. -/
structure FramesExclusive (s : SpaceState) : Prop where
  distinct : ∀ id a, s.spaces id = some a → a.frames.Nodup
  inRange : ∀ id a, s.spaces id = some a → ∀ f ∈ a.frames, 0 ≤ f ∧ f < numPhysPages
  disjoint : ∀ id id' a a', id ≠ id' → s.spaces id = some a → s.spaces id' = some a' →
    ∀ f ∈ a.frames, f ∉ a'.frames
  marked_iff : ∀ f, s.gPhysPageBitMap.test f = some true ↔
    ∃ id a, s.spaces id = some a ∧ f ∈ a.frames

/-- INTERNAL: ownership, read off the live spaces. -/
theorem FramesOwned.exclusive (hs : FramesOwned s) : FramesExclusive s := by
  refine ⟨fun id a ha => ?_, fun id a ha f hf => ?_, fun id id' a a' hne ha ha' f hf hf' => ?_,
    fun f => ?_⟩
  · exact heldFrames_of_some ha ▸ hs.owned.nodup id
  · have hmem : f ∈ heldFrames s id := by rwa [heldFrames_of_some ha]
    obtain ⟨i, hi, -, rfl⟩ := hs.owned.mem_marked hmem
    rw [hs.bits] at hi
    exact ⟨Int.natCast_nonneg i, by exact_mod_cast hi⟩
  · have hmem : f ∈ heldFrames s id := by rwa [heldFrames_of_some ha]
    refine hs.owned.disjoint id id' hne f hmem ?_
    rwa [heldFrames_of_some ha']
  · rw [test_eq_some_true_iff, hs.owned.marked_iff]
    constructor
    · rintro ⟨id, hmem⟩
      cases ha : s.spaces id with
      | none =>
        rw [heldFrames_of_none ha] at hmem
        exact absurd hmem List.not_mem_nil
      | some a => exact ⟨id, a, ha, by rwa [heldFrames_of_some ha] at hmem⟩
    · rintro ⟨id, a, ha, hmem⟩
      exact ⟨id, by rwa [heldFrames_of_some ha]⟩

theorem framesOwned_init (hb : AllClear b) : FramesOwned (SpaceState.init mem b) := by
  refine ⟨hb.1, Owned.of_empty (fun id => rfl) fun f hf => ?_⟩
  exact hb.2 f (test_eq_some_true_iff.mpr hf)

theorem always_framesOwned (mem : Memory) (hb : AllClear b) {es : List SpaceEvent}
    (hes : ∀ e ∈ es, Opens e) : Always SpaceState.step FramesOwned (SpaceState.init mem b) es := by
  have hmeets : Meets SpaceState.step (fun _ => Opens) (SpaceState.init mem b) es :=
    meets_of_forall (fun _ e he => hes e he) _
  refine always_of_meets (fun s hs => hs) (fun s e s' hs hopen hstep => ?_)
    (framesOwned_init hb) hmeets
  refine hs.step ?_ hstep
  rintro id uninit rfl
  exact absurd hopen (by simp [Opens])

end Nachos.Analysis
