import Nachos.Analysis.MemoryIsolation
import Nachos.Library.InPlace
import Nachos.Library.TerminatedCopy
import Nachos.Library.WordBits
import Nachos.Model.UserCopy

/-!
# What the copies do to the memory of a user

Through its page table a process sees a partial memory, the bytes at the addresses that translate
(`seenByte`). A byte read through the machine is the byte seen there, and a byte written is seen
at its address and, if no two addresses share a byte (`Exclusive`), nowhere else. Neither changes
which addresses there are.

Over this memory the two copies of the kernel are copies that stop behind a zero byte
(`Nachos.Library.TerminatedCopy`), whatever pages they cross.
-/

set_option autoImplicit false

namespace Nachos.Analysis

open Nachos.Library Nachos.Model

variable {a addr : BitVec 32} {i limit n x : ℕ} {m : Machine} {text : List Byte} {buffer : ℕ → Byte}
  {table : List TranslationEntry}

/-! ## The memory a process sees -/

/-- Where a table puts an address, if it does. -/
def locate (table : List TranslationEntry) (addr : BitVec 32) : Option ℕ :=
  match table[addr.toNat / pageSize]? with
  | none => none
  | some entry =>
    if entry.valid = true ∧ (entry.physicalPage % 2 ^ 32).toNat < numPhysPages then
      some ((entry.physicalPage % 2 ^ 32).toNat * pageSize + addr.toNat % pageSize)
    else none

/-- Where the machine puts an address. -/
def place (m : Machine) (addr : BitVec 32) : Option ℕ := m.pageTable.bind fun table => locate table addr

/-- The byte a process sees at an address. -/
def seenByte (m : Machine) (addr : BitVec 32) : Option Byte :=
  (place m addr).map fun x : ℕ => m.mainMemory x

/-- The page of an address may be written. -/
def Writable (m : Machine) (addr : BitVec 32) : Prop :=
  ∃ table entry, m.pageTable = some table ∧ table[addr.toNat / pageSize]? = some entry ∧
    entry.readOnly = false

/-- No two addresses share a byte. -/
def Exclusive (m : Machine) : Prop := ∀ a b x, place m a = some x → place m b = some x → a = b

/-- The machine has a page table, as in a build without `USE_TLB`, and `m'` puts every address
where `m` does. -/
structure SamePlaces (m m' : Machine) : Prop where
  tlb : m'.tlb = none
  place : ∀ a, place m' a = place m a
  writable : ∀ a, Writable m' a ↔ Writable m a

theorem SamePlaces.refl (h : m.tlb = none) : SamePlaces m m :=
  ⟨h, fun _ => rfl, fun _ => Iff.rfl⟩

theorem SamePlaces.trans {m m' m'' : Machine} (h : SamePlaces m m') (h' : SamePlaces m' m'') :
    SamePlaces m m'' :=
  ⟨h'.tlb, fun a => (h'.place a).trans (h.place a), fun a => (h'.writable a).trans (h.writable a)⟩

theorem SamePlaces.exclusive {m m' : Machine} (h : SamePlaces m m') (hx : Exclusive m) :
    Exclusive m' := by
  intro a b x ha hb
  rw [h.place] at ha hb
  exact hx a b x ha hb

/-! ## Tables with a frame for each page -/

theorem locate_eq_some_iff :
    locate table a = some x ↔ ∃ entry, table[a.toNat / pageSize]? = some entry ∧ entry.valid = true ∧
      (entry.physicalPage % 2 ^ 32).toNat < numPhysPages ∧
      (entry.physicalPage % 2 ^ 32).toNat * pageSize + a.toNat % pageSize = x := by
  unfold locate
  cases table[a.toNat / pageSize]? with
  | none => simp
  | some entry => simp [and_assoc]

theorem place_lt (h : place m a = some x) : x < memorySize := by
  obtain ⟨table, -, hlocate⟩ := Option.bind_eq_some_iff.mp h
  obtain ⟨entry, -, -, hframe, rfl⟩ := locate_eq_some_iff.mp hlocate
  simp only [memorySize, numPhysPages, pageSize, sectorSize] at *
  omega

theorem add_ofNat_inj {i j : ℕ} (hi : i < 2 ^ 32) (hj : j < 2 ^ 32)
    (h : addr + BitVec.ofNat 32 i = addr + BitVec.ofNat 32 j) : i = j := by
  have hofNat := (BitVec.add_right_inj addr).mp h
  have hnat := congrArg BitVec.toNat hofNat
  rwa [BitVec.toNat_ofNat, BitVec.toNat_ofNat, Nat.mod_eq_of_lt hi, Nat.mod_eq_of_lt hj] at hnat

theorem Exclusive.le_memorySize (hx : Exclusive m) (hn : n ≤ 2 ^ 32)
    (hmapped : ∀ k < n, (place m (addr + BitVec.ofNat 32 k)).isSome) : n ≤ memorySize := by
  have hplaces : ∀ k : Fin n, ∃ x : Fin memorySize,
      place m (addr + BitVec.ofNat 32 k) = some (x : ℕ) := by
    intro k
    obtain ⟨x, hplace⟩ := Option.isSome_iff_exists.mp (hmapped k k.isLt)
    exact ⟨⟨x, place_lt hplace⟩, hplace⟩
  choose f hf using hplaces
  have hinj : Function.Injective f := by
    intro i j hij
    have hi := hf i
    rw [hij] at hi
    have haddr := hx _ _ _ hi (hf j)
    exact Fin.ext (add_ofNat_inj (i.isLt.trans_le hn) (j.isLt.trans_le hn) haddr)
  simpa using Fintype.card_le_of_injective f hinj

/-- INTERNAL: **pages in different frames share no byte.** The loader gives every page a frame of its
own.
SRCLINE: userprog/addrspace.cc:91-101 -/
theorem exclusive_of_nodup {mem : Memory} {tlb : Option (List TranslationEntry)}
    (hnodup : (table.map (·.physicalPage)).Nodup)
    (hframe : ∀ entry ∈ table, 0 ≤ entry.physicalPage ∧ entry.physicalPage < 2 ^ 32) :
    Exclusive ⟨mem, tlb, some table⟩ := by
  intro a b x ha hb
  obtain ⟨ea, hea, -, -, rfl⟩ := locate_eq_some_iff.mp ha
  obtain ⟨eb, heb, -, -, hx⟩ := locate_eq_some_iff.mp hb
  have hfa := hframe ea (List.mem_of_getElem? hea)
  have hfb := hframe eb (List.mem_of_getElem? heb)
  simp only [pageSize, sectorSize] at hx hea heb
  have hframes : ea.physicalPage = eb.physicalPage := by omega
  have hpages : a.toNat / 128 = b.toNat / 128 := by
    have hlt : a.toNat / 128 < (table.map (·.physicalPage)).length := by
      rw [List.length_map]
      exact (List.getElem?_eq_some_iff.mp hea).1
    refine (List.getElem?_inj hlt hnodup).mp ?_
    rw [List.getElem?_map, List.getElem?_map, hea, heb, Option.map_some, Option.map_some, hframes]
  apply BitVec.eq_of_toNat_eq
  omega

/-- The page table of a process in the first `n` frames. -/
def firstFrames (n : ℕ) : List TranslationEntry :=
  (List.range n).map fun i : ℕ => ⟨i, i, true, false, false, false⟩

theorem getElem?_firstFrames {n v : ℕ} (hv : v < n) :
    (firstFrames n)[v]? = some ⟨v, v, true, false, false, false⟩ := by
  simp [firstFrames, hv]

section FirstFrames

variable (mem : Memory)

theorem place_firstFrames (hn : n ≤ numPhysPages) (ha : a.toNat < n * pageSize) :
    place ⟨mem, none, some (firstFrames n)⟩ a = some a.toNat := by
  have hv : a.toNat / pageSize < n := Nat.div_lt_of_lt_mul (Nat.mul_comm n pageSize ▸ ha)
  have hcast : ∀ v < n, ((v : ℤ) % 2 ^ 32).toNat = v := by
    intro v hv
    simp only [numPhysPages] at hn
    omega
  refine locate_eq_some_iff.mpr ⟨_, getElem?_firstFrames hv, rfl, ?_, ?_⟩
  · exact (hcast _ hv).trans_lt (hv.trans_le hn)
  · rw [hcast _ hv]
    exact Nat.div_add_mod' _ _

theorem writable_firstFrames (ha : a.toNat < n * pageSize) :
    Writable ⟨mem, none, some (firstFrames n)⟩ a := by
  have hv : a.toNat / pageSize < n := Nat.div_lt_of_lt_mul (Nat.mul_comm n pageSize ▸ ha)
  exact ⟨_, _, rfl, getElem?_firstFrames hv, rfl⟩

theorem exclusive_firstFrames (hn : n ≤ numPhysPages) : Exclusive ⟨mem, none, some (firstFrames n)⟩ := by
  simp only [numPhysPages] at hn
  refine exclusive_of_nodup ?_ fun entry he => ?_
  · rw [firstFrames, List.map_map]
    exact List.Nodup.map (fun i j h => Int.natCast_inj.mp h) List.nodup_range
  · obtain ⟨i, hi, rfl⟩ := List.mem_map.mp he
    rw [List.mem_range] at hi
    show (0 : ℤ) ≤ i ∧ (i : ℤ) < 2 ^ 32
    omega

end FirstFrames

/-! ## One byte -/

theorem samePlaces_set {mem mem' : Memory} {v : ℕ} {entry entry' : TranslationEntry}
    (hentry : table[v]? = some entry) (hvalid : entry'.valid = entry.valid)
    (hpage : entry'.physicalPage = entry.physicalPage) (hread : entry'.readOnly = entry.readOnly) :
    SamePlaces ⟨mem, none, some table⟩ ⟨mem', none, some (table.set v entry')⟩ := by
  have hlen : v < table.length := (List.getElem?_eq_some_iff.mp hentry).1
  refine ⟨rfl, fun a => ?_, fun a => ?_⟩
  · show locate (table.set v entry') a = locate table a
    unfold locate
    by_cases ha : v = a.toNat / pageSize
    · rw [← ha, List.getElem?_set_self hlen, hentry]
      simp only [hvalid, hpage]
    · rw [List.getElem?_set_ne ha]
  · unfold Writable
    simp only [Option.some.injEq, exists_and_left, exists_eq_left']
    by_cases ha : v = a.toNat / pageSize
    · rw [← ha, List.getElem?_set_self hlen, hentry]
      simp [hread]
    · rw [List.getElem?_set_ne ha]

/-- INTERNAL: the translation of a byte. -/
theorem translate_byte (htlb : m.tlb = none) (hplace : place m a = some x) {writing : Bool}
    (hwrite : writing = true → Writable m a) :
    ∃ m', m.translate a 1 writing = some (.ok (x, m')) ∧ m'.mainMemory = m.mainMemory ∧
      SamePlaces m m' := by
  obtain ⟨mem, tlb, pageTable⟩ := m
  cases htlb
  obtain ⟨table, rfl, hlocate⟩ := Option.bind_eq_some_iff.mp hplace
  unfold locate at hlocate
  cases hentry : table[a.toNat / pageSize]? with
  | none => simp [hentry] at hlocate
  | some entry =>
    simp only [hentry, Option.ite_none_right_eq_some, Option.some.injEq] at hlocate
    obtain ⟨⟨hvalid, hframe⟩, rfl⟩ := hlocate
    have hreadOnly : (entry.readOnly && writing) = false := by
      cases writing with
      | false => exact Bool.and_false _
      | true =>
        obtain ⟨table', entry', htable, hentry', hro⟩ := hwrite rfl
        cases htable
        rw [hentry] at hentry'
        cases hentry'
        rw [hro, Bool.false_and]
    have hin : (entry.physicalPage % 2 ^ 32).toNat * pageSize + a.toNat % pageSize + 1 ≤
        memorySize := by
      simp only [memorySize, numPhysPages, pageSize, sectorSize] at *
      omega
    have huse : Machine.useEntry entry (a.toNat % pageSize) 1 writing =
        some (.ok ((entry.physicalPage % 2 ^ 32).toNat * pageSize + a.toNat % pageSize,
          { entry with use := true, dirty := entry.dirty || writing })) := by
      unfold Machine.useEntry
      rw [hreadOnly]
      simp only [Bool.false_eq_true, if_false]
      rw [if_neg (by omega), if_pos hin]
    refine ⟨⟨mem, none, some (table.set (a.toNat / pageSize)
      { entry with use := true, dirty := entry.dirty || writing })⟩, ?_, rfl,
      samePlaces_set hentry rfl rfl rfl⟩
    unfold Machine.translate
    simp [Machine.misaligned, hentry, hvalid, huse]

/-- INTERNAL: **a byte that is read** is the one seen at the address.
SRCLINE: machine/translate.cc:87-122 -/
theorem readMem_byte (htlb : m.tlb = none) {b : Byte} (h : seenByte m a = some b) :
    ∃ m', m.readMem a 1 = some (.ok (b.signExtend 32, m')) ∧ SamePlaces m m' ∧
      m'.mainMemory = m.mainMemory := by
  obtain ⟨x, hplace, rfl⟩ := Option.map_eq_some_iff.mp h
  have hread : false = true → Writable m a := by simp
  obtain ⟨m', htr, hmem, hsame⟩ := translate_byte htlb hplace hread
  refine ⟨m', ?_, hsame, hmem⟩
  unfold Machine.readMem
  simp [htr, Machine.loadValue, hmem]

theorem setWidth_signExtend (b : Byte) : (b.signExtend 32).setWidth 8 = b :=
  setWidth_signExtend_self b (by omega)

theorem extractLsb'_signExtend (b : Byte) : (b.signExtend 32).extractLsb' 0 8 = b := by
  refine Eq.trans ?_ (setWidth_signExtend b)
  ext i hi
  simp

/-- INTERNAL: **a byte that is written** goes to the place of the address.
SRCLINE: machine/translate.cc:137-169 -/
theorem writeMem_place (htlb : m.tlb = none) (hplace : place m a = some x) (hwrite : Writable m a)
    (b : Byte) :
    ∃ m', m.writeMem a 1 (b.signExtend 32) = some (.ok m') ∧ SamePlaces m m' ∧
      m'.mainMemory = Function.update m.mainMemory x b := by
  have hwriting : true = true → Writable m a := fun _ => hwrite
  obtain ⟨m', htr, hmem, hsame⟩ := translate_byte htlb hplace hwriting
  refine ⟨{ m' with mainMemory := m'.mainMemory.store x 1 (b.signExtend 32) }, ?_,
    ⟨hsame.tlb, hsame.place, hsame.writable⟩, ?_⟩
  · unfold Machine.writeMem
    simp [htr]
  · funext y
    show m'.mainMemory.store x 1 (b.signExtend 32) y = Function.update m.mainMemory x b y
    unfold Memory.store
    rw [hmem]
    by_cases hy : y = x
    · subst hy
      rw [if_pos (by omega), Function.update_self, Int.sub_self]
      exact extractLsb'_signExtend b
    · rw [if_neg (by omega), Function.update_of_ne hy]

theorem writeMem_byte (htlb : m.tlb = none) (hx : Exclusive m) (hplace : (place m a).isSome)
    (hwrite : Writable m a) (b : Byte) :
    ∃ m', m.writeMem a 1 (b.signExtend 32) = some (.ok m') ∧ SamePlaces m m' ∧
      seenByte m' a = some b ∧ ∀ c, c ≠ a → seenByte m' c = seenByte m c := by
  obtain ⟨x, hplace⟩ := Option.isSome_iff_exists.mp hplace
  obtain ⟨m', hrun, hsame, hmem⟩ := writeMem_place htlb hplace hwrite b
  refine ⟨m', hrun, hsame, ?_, fun c hc => ?_⟩
  · unfold seenByte
    rw [hsame.place, hplace, hmem, Option.map_some, Function.update_self]
  · unfold seenByte
    rw [hsame.place, hmem]
    cases hc' : place m c with
    | none => rfl
    | some y =>
      have hne : (y : ℤ) ≠ x := by
        intro heq
        obtain rfl := Int.natCast_inj.mp heq
        exact hc (hx c a y hc' hplace)
      rw [Option.map_some, Option.map_some, Function.update_of_ne hne]

/-! ## The copies -/

theorem allocates_succ (h : n + 1 < 2 ^ 31) : Machine.allocates ((n : ℤ) + 1) = true := by
  unfold Machine.allocates
  rw [toInt32_of_lt (by omega) (by omega)]
  exact decide_eq_true (by omega)

theorem signExtend_eq_zero_iff (b : Byte) : b.signExtend 32 = 0#32 ↔ b = 0#8 := by
  constructor
  · intro h
    rw [← extractLsb'_signExtend b, h]
    rfl
  · rintro rfl
    rfl

/-- INTERNAL: the loop of `User2System` once it has copied `i` bytes. -/
theorem user2SystemFrom_eq {u : ℕ → Byte} (n : ℕ) :
    ∀ (i : ℕ) (m : Machine), m.tlb = none → Reached 0#8 u i →
      (∀ k < i + n, Reached 0#8 u k → seenByte m (addr + BitVec.ofNat 32 k) = some (u k)) →
      ∃ m', Machine.user2SystemFrom addr i n m (copied 0#8 u i fun _ => 0#8) =
          some (copied 0#8 u (i + n) fun _ => 0#8, m') ∧ SamePlaces m m' ∧
        m'.mainMemory = m.mainMemory := by
  induction n with
  | zero => exact fun i m htlb _ _ => ⟨m, rfl, .refl htlb, rfl⟩
  | succ n ih =>
    intro i m htlb hreached hmapped
    obtain ⟨m₁, hread, hsame, hmem⟩ := readMem_byte htlb (hmapped i (by omega) hreached)
    unfold Machine.user2SystemFrom
    simp only [hread, setWidth_signExtend, copied_succ hreached]
    by_cases hstop : u i = 0#8
    · rw [if_pos ((signExtend_eq_zero_iff _).mpr hstop), copied_of_stop hstop (show i < i + (n + 1) by omega)]
      exact ⟨m₁, rfl, hsame, hmem⟩
    · rw [if_neg fun hz => hstop ((signExtend_eq_zero_iff _).mp hz)]
      obtain ⟨m', hrun, hsame', hmem'⟩ := ih (i + 1) m₁ hsame.tlb (hreached.succ hstop)
        fun k hk hr => by
          have hseen := hmapped k (by omega) hr
          unfold seenByte at hseen ⊢
          rw [hsame.place, hmem]
          exact hseen
      rw [show i + (n + 1) = i + 1 + n by omega]
      exact ⟨m', hrun, hsame.trans hsame', hmem'.trans hmem⟩

/-- INTERNAL: **`User2System` copies up to the first zero byte** and leaves zeros behind it.
SRCLINE: userprog/exception.cc:6-19 -/
theorem user2System_eq (htlb : m.tlb = none) {u : ℕ → Byte}
    (hlimit : limit + 1 < 2 ^ 31) (hmapped : ∀ k < limit, Reached 0#8 u k →
      seenByte m (addr + BitVec.ofNat 32 k) = some (u k)) :
    ∃ m', m.user2System addr limit = some (copied 0#8 u limit fun _ => 0#8, m') ∧ SamePlaces m m' ∧
      m'.mainMemory = m.mainMemory := by
  have hmapped₀ : ∀ k < 0 + limit, Reached 0#8 u k →
      seenByte m (addr + BitVec.ofNat 32 k) = some (u k) := by simpa using hmapped
  have hrun := user2SystemFrom_eq limit 0 m htlb (reached_zero 0#8 u) hmapped₀
  rw [copied_zero, Nat.zero_add] at hrun
  unfold Machine.user2System
  rw [if_pos (allocates_succ hlimit), Int.toNat_natCast]
  exact hrun

/-! ## Texts -/

/-- The user's memory holds the bytes of `text` from `addr` on. -/
def HoldsText (m : Machine) (addr : BitVec 32) (text : List Byte) : Prop :=
  ∀ k, (hk : k < text.length) → seenByte m (addr + BitVec.ofNat 32 k) = some text[k]

theorem HoldsText.isSome_place (h : HoldsText m addr text) {k : ℕ} (hk : k < text.length) :
    (place m (addr + BitVec.ofNat 32 k)).isSome := by
  obtain ⟨x, hplace, -⟩ := Option.map_eq_some_iff.mp (h k hk)
  rw [hplace]
  rfl

/-- The memory of a machine that holds `text` from its first byte on, with zeros behind it. -/
def textMemory (text : List Byte) : Memory := fun x => (text[x.toNat]?).getD 0#8

theorem seenByte_textMemory {n k : ℕ} (hn : n ≤ numPhysPages) (hk : k < n * pageSize) (text : List Byte) :
    seenByte ⟨textMemory text, none, some (firstFrames n)⟩ (BitVec.ofNat 32 k) =
      some ((text[k]?).getD 0#8) := by
  have hk' : (BitVec.ofNat 32 k).toNat = k := by
    rw [BitVec.toNat_ofNat]
    refine Nat.mod_eq_of_lt (hk.trans ?_)
    simp only [numPhysPages, pageSize, sectorSize] at *
    omega
  unfold seenByte
  rw [place_firstFrames _ hn (by rw [hk']; exact hk), hk']
  rfl

theorem holdsText_textMemory (hn : n ≤ numPhysPages) (hfit : text.length < n * pageSize) :
    HoldsText ⟨textMemory text, none, some (firstFrames n)⟩ 0#32 (text ++ [0#8]) := by
  intro k hk
  rw [List.length_append, List.length_singleton] at hk
  rw [BitVec.zero_add, seenByte_textMemory hn (by omega)]
  by_cases hlt : k < text.length
  · rw [List.getElem?_eq_getElem hlt, List.getElem_append_left hlt]
    rfl
  · obtain rfl : k = text.length := by omega
    rw [List.getElem?_eq_none (Nat.le_refl _), List.getElem_concat_length rfl]
    rfl

/-- What `User2System` leaves in its buffer when the user has `text`. -/
def fetched (text : List Byte) (limit : ℕ) : ℕ → Byte :=
  copied 0#8 (placed (fun _ => 0#8) 0 text) limit fun _ => 0#8

theorem reached_placed_iff (hi : i ≤ text.length) :
    Reached 0#8 (placed (fun _ => 0#8) 0 text) i ↔ 0#8 ∉ text.take i := by
  constructor
  · intro h hzero
    obtain ⟨j, hj, heq⟩ := List.mem_take_iff_getElem.mp hzero
    refine h j (by omega) ?_
    rw [placed_apply _ _ (by omega), heq]
  · intro hzero j hj heq
    rw [placed_apply _ _ (by omega)] at heq
    exact hzero (List.mem_take_iff_getElem.mpr ⟨j, by omega, heq⟩)

theorem fetched_apply (hi : i < limit) (hi' : i < text.length) :
    fetched text limit i = if 0#8 ∈ text.take i then 0#8 else text[i] := by
  unfold fetched copied
  by_cases hzero : 0#8 ∈ text.take i
  · rw [if_pos hzero, if_neg fun h => (reached_placed_iff hi'.le).mp h.2 hzero]
  · rw [if_neg hzero, if_pos ⟨hi, (reached_placed_iff hi'.le).mpr hzero⟩, placed_apply _ _ hi']

/-- INTERNAL: **the bytes fetched are those of the user exactly if only zeros follow a zero byte.** -/
theorem fetched_eq_iff (hi : i < limit) (hi' : i < text.length) :
    fetched text limit i = text[i] ↔ (0#8 ∈ text.take i → text[i] = 0#8) := by
  rw [fetched_apply hi hi']
  by_cases hzero : 0#8 ∈ text.take i
  · rw [if_pos hzero]
    exact ⟨fun h _ => h.symm, fun h => (h hzero).symm⟩
  · rw [if_neg hzero]
    exact ⟨fun _ h => absurd h hzero, fun _ => rfl⟩

theorem user2System_text (htlb : m.tlb = none) (hlimit : limit + 1 < 2 ^ 31)
    (hstored : HoldsText m addr text) (henough : limit ≤ text.length ∨ 0#8 ∈ text) :
    ∃ m', m.user2System addr limit = some (fetched text limit, m') ∧ SamePlaces m m' ∧
      m'.mainMemory = m.mainMemory := by
  refine user2System_eq htlb hlimit fun k hk hreached => ?_
  have hlt : k < text.length := by
    rcases henough with hle | hzero
    · omega
    · obtain ⟨j, hj, heq⟩ := List.getElem_of_mem hzero
      by_contra hge
      exact hreached j (by omega) (by rw [placed_apply _ _ hj, heq])
  rw [hstored k hlt, placed_apply _ _ hlt]

/-! ## Copies to the user -/

/-- What a copy of at most `n` bytes of `buffer` to `addr` leaves of the user's memory: the bytes
reached are those of the buffer, the others are as before. -/
structure CopiedOut (m m' : Machine) (addr : BitVec 32) (buffer : ℕ → Byte) (n : ℕ) : Prop where
  same : SamePlaces m m'
  bytes : ∀ k < n, Reached 0#8 buffer k → seenByte m' (addr + BitVec.ofNat 32 k) = some (buffer k)
  others : ∀ a, (∀ k < n, Reached 0#8 buffer k → a ≠ addr + BitVec.ofNat 32 k) →
    seenByte m' a = seenByte m a

theorem CopiedOut.succ {m m₁ m' : Machine} (h : CopiedOut m m₁ addr buffer i) (hi : i < 2 ^ 32)
    (hreached : Reached 0#8 buffer i) (hsame : SamePlaces m₁ m')
    (hbyte : seenByte m' (addr + BitVec.ofNat 32 i) = some (buffer i))
    (hothers : ∀ c, c ≠ addr + BitVec.ofNat 32 i → seenByte m' c = seenByte m₁ c) :
    CopiedOut m m' addr buffer (i + 1) := by
  refine ⟨h.same.trans hsame, fun k hk hr => ?_, fun a ha => ?_⟩
  · rcases Nat.lt_succ_iff_lt_or_eq.mp hk with hk | rfl
    · rw [hothers, h.bytes k hk hr]
      exact fun heq => absurd (add_ofNat_inj (by omega) hi heq) (by omega)
    · exact hbyte
  · rw [hothers a (ha i (by omega) hreached), h.others a fun k hk hr => ha k (by omega) hr]

theorem CopiedOut.of_stop {m m' : Machine} (h : CopiedOut m m' addr buffer (i + 1))
    (hstop : buffer i = 0#8) (hi : i < n) : CopiedOut m m' addr buffer n := by
  have hle : ∀ k, Reached 0#8 buffer k → k < i + 1 := by
    intro k hr
    by_contra hk
    exact not_reached_of_stop hstop (by omega) hr
  exact ⟨h.same, fun k _ hr => h.bytes k (hle k hr) hr,
    fun a ha => h.others a fun k hk hr => ha k (by omega) hr⟩

/-- INTERNAL: the loop of `System2User` once it has copied `i` bytes. -/
theorem system2UserFrom_eq (hx : Exclusive m) (n : ℕ) :
    ∀ (i : ℕ) (m₁ : Machine), i + n ≤ 2 ^ 32 → Reached 0#8 buffer i →
      CopiedOut m m₁ addr buffer i →
      (∀ k < i + n, Reached 0#8 buffer k → (place m (addr + BitVec.ofNat 32 k)).isSome ∧
        Writable m (addr + BitVec.ofNat 32 k)) →
      ∃ count m', Machine.system2UserFrom addr buffer i n m₁ = some (count, m') ∧
        CopiedOut m m' addr buffer (i + n) := by
  induction n with
  | zero => exact fun i m₁ _ _ h _ => ⟨i, m₁, rfl, h⟩
  | succ n ih =>
    intro i m₁ hn hreached h hmapped
    obtain ⟨hplace, hwritable⟩ := hmapped i (by omega) hreached
    rw [← h.same.place] at hplace
    obtain ⟨m₂, hwrite, hsame, hbyte, hothers⟩ := writeMem_byte h.same.tlb (h.same.exclusive hx)
      hplace ((h.same.writable _).mpr hwritable) (buffer i)
    have hnext := h.succ (by omega) hreached hsame hbyte hothers
    unfold Machine.system2UserFrom
    simp only [hwrite]
    by_cases hstop : buffer i = 0#8
    · rw [if_pos ((signExtend_eq_zero_iff _).mpr hstop)]
      exact ⟨_, m₂, rfl, hnext.of_stop hstop (by omega)⟩
    · rw [if_neg fun hz => hstop ((signExtend_eq_zero_iff _).mp hz)]
      obtain ⟨count, m', hrun, hcopied⟩ := ih (i + 1) m₂ (by omega) (hreached.succ hstop) hnext
        fun k hk hr => hmapped k (by omega) hr
      rw [show i + (n + 1) = i + 1 + n by omega]
      exact ⟨count, m', hrun, hcopied⟩

/-- INTERNAL: **`System2User` copies up to the first zero byte**, which it copies as well.
SRCLINE: userprog/exception.cc:22-33 -/
theorem system2User_eq (htlb : m.tlb = none) (hx : Exclusive m)
    {len : ℕ} (hpos : 0 < len) (hlen : len ≤ 2 ^ 32)
    (hmapped : ∀ k < len, (place m (addr + BitVec.ofNat 32 k)).isSome ∧
      Writable m (addr + BitVec.ofNat 32 k)) :
    ∃ count m', m.system2User addr len buffer = some (count, m') ∧
      CopiedOut m m' addr buffer len := by
  have hstart : CopiedOut m m addr buffer 0 :=
    ⟨.refl htlb, fun k hk => absurd hk (Nat.not_lt_zero k), fun a _ => rfl⟩
  have hrun := system2UserFrom_eq hx len 0 m (by omega) (reached_zero _ _) hstart
    fun k hk _ => hmapped k (by omega)
  rw [Nat.zero_add] at hrun
  unfold Machine.system2User
  rw [if_neg (by omega), if_neg (by omega), Int.toNat_natCast]
  exact hrun

end Nachos.Analysis
