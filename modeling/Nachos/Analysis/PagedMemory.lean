import Nachos.Analysis.UserMemory
import Nachos.Library.Simulation
import Nachos.Model.MemoryAccess

/-!
# Paged memory is a memory of bytes

Through a page table whose valid entries name frames of their own, `ReadMem` and `WriteMem` of 1, 2
and 4 bytes behave as a plain memory of bytes at 32-bit addresses (`pagedSpec`): a value written is
read back byte by byte wherever accesses of other sizes overlap it, and an access is refused for its
alignment, its page or its permission only.

An aligned access does not cross a page, so its bytes are next to each other in one frame
(`locate_add`); and two addresses do not share a byte (`locate_inj`). The bits that an access
sets have no part in translation, so that the table stays the same up to them.
-/

set_option autoImplicit false

namespace Nachos.Analysis

open Nachos.Library Nachos.Model

variable {size : AccessSize} {writing : Bool} {entry : TranslationEntry} {e : ExceptionType}

/-! ## The statements in their order -/

/-- What a routine that answers with the new machine leaves, when a failure leaves it as it was. -/
def inPlace {α : Type} (m : Machine) :
    Except ExceptionType (α × Machine) → Except ExceptionType α × Machine
  | .error e => (.error e, m)
  | .ok (a, m') => (.ok a, m')

theorem modify_eq_set {α : Type} {l : List α} {i : ℕ} {a : α} (f : α → α) (h : l[i]? = some a) :
    l.modify i f = l.set i (f a) := by
  rw [List.modify_eq_set_getElem?, h]
  rfl

theorem modify_use_dirty {l : List TranslationEntry} {i : ℕ} (h : l[i]? = some entry)
    (writing : Bool) : (if writing then (l.modify i fun e => { e with use := true }).modify i
        fun e => { e with dirty := true }
      else l.modify i fun e => { e with use := true }) =
      l.set i { entry with use := true, dirty := entry.dirty || writing } := by
  have hlen : i < l.length := (List.getElem?_eq_some_iff.mp h).1
  rw [modify_eq_set _ h]
  cases writing with
  | false => simp
  | true =>
    rw [if_pos rfl, modify_eq_set _ (List.getElem?_set_self hlen), List.set_set]
    simp

/-- INTERNAL: the end of `Translate`, where `put` puts the entry back into its table. -/
theorem useEntry_inPlace (m : Machine) {put : TranslationEntry → Machine}
    {m₁ m₂ : Machine} (offset size : ℕ) (writing : Bool)
    (hput : (if writing then m₂ else m₁) =
      put { entry with use := true, dirty := entry.dirty || writing }) :
    (if entry.readOnly && writing then some (.error .readOnlyException, m)
      else if (entry.physicalPage % 2 ^ 32).toNat ≥ numPhysPages then
        some (.error .busErrorException, m)
      else if (entry.physicalPage % 2 ^ 32).toNat * pageSize + offset + size ≤ memorySize then
        some (.ok ((entry.physicalPage % 2 ^ 32).toNat * pageSize + offset), if writing then m₂ else m₁)
      else none) =
      Option.map (inPlace m)
        (match Machine.useEntry entry offset size writing with
        | none => none
        | some (.error e) => some (.error e)
        | some (.ok (physAddr, entry')) => some (.ok (physAddr, put entry'))) := by
  unfold Machine.useEntry
  rw [hput]
  split
  · rfl
  · dsimp only
    split
    · rfl
    · split
      · rfl
      · rfl

/-- INTERNAL: **every check of `Translate` comes before its first assignment.**
SRCLINE: machine/translate.cc:186-255 -/
theorem translateInPlace_eq (m : Machine) (virtAddr : BitVec 32) (size : ℕ) (writing : Bool) :
    m.translateInPlace virtAddr size writing = (m.translate virtAddr size writing).map (inPlace m) := by
  obtain ⟨mem, tlb, pageTable⟩ := m
  unfold Machine.translateInPlace Machine.translate
  by_cases hmis : Machine.misaligned virtAddr size = true
  · simp only [hmis, if_true, Option.map_some, inPlace]
  · rw [if_neg hmis, if_neg hmis]
    cases tlb with
    | none =>
      cases pageTable with
      | none => rfl
      | some table =>
        cases hentry : table[virtAddr.toNat / pageSize]? with
        | none =>
          simp [Machine.findEntry, Machine.entryAt, hentry, inPlace]
        | some entry =>
          by_cases hvalid : entry.valid = true
          · simp only [Machine.findEntry, Machine.entryAt, Option.bind_some, hentry, hvalid,
              Option.isSome_none, Option.isNone_some, Bool.false_and, Bool.and_false,
              Bool.false_eq_true, if_false, Bool.not_true]
            refine useEntry_inPlace _ _ _ _ ?_
            simp only [Machine.setEntry, Option.map_some]
            rw [← modify_use_dirty hentry writing]
            cases writing <;> rfl
          · simp [Machine.findEntry, Machine.entryAt, hentry, hvalid, inPlace]
    | some tlb =>
      cases pageTable with
      | some table => rfl
      | none =>
        cases hfind : tlb.findIdx? (fun e => e.valid && e.virtualPage % 2 ^ 32 ==
          ((virtAddr.toNat / pageSize : ℕ) : ℤ)) with
        | none =>
          simp only [Machine.findEntry, hfind]
          rfl
        | some i =>
          cases hentry : tlb[i]? with
          | none =>
            simp only [Machine.findEntry, hfind, Machine.entryAt, Option.bind_some, hentry]
            rfl
          | some entry =>
            simp only [Machine.findEntry, hfind, Machine.entryAt, Option.bind_some, hentry,
              Option.isSome_none, Option.isNone_some, Bool.false_and, Bool.and_false,
              Bool.false_eq_true, if_false]
            refine useEntry_inPlace _ _ _ _ ?_
            simp only [Machine.setEntry, Option.map_some]
            rw [← modify_use_dirty hentry writing]
            cases writing <;> rfl

theorem readMemInPlace_eq (m : Machine) (addr : BitVec 32) (size : ℕ) :
    m.readMemInPlace addr size = (m.readMem addr size).map (inPlace m) := by
  unfold Machine.readMemInPlace Machine.readMem
  rw [translateInPlace_eq]
  rcases m.translate addr size false with _ | (e | ⟨p, m'⟩)
  · rfl
  · rfl
  · simp only [Option.map_some, inPlace]
    cases Machine.loadValue m'.mainMemory p size <;> rfl

theorem writeMemInPlace_eq (m : Machine) (addr : BitVec 32) (size : ℕ) (value : BitVec 32) :
    m.writeMemInPlace addr size value =
      (m.writeMem addr size value).map fun r => inPlace m (r.map fun m' => ((), m')) := by
  unfold Machine.writeMemInPlace Machine.writeMem
  rw [translateInPlace_eq]
  rcases m.translate addr size true with _ | (e | ⟨p, m'⟩)
  · rfl
  · rfl
  · simp only [Option.map_some, inPlace]
    split
    · rfl
    · rfl

/-- INTERNAL: **an access that fails changes nothing.**
SRCLINE: machine/translate.cc:87-255 -/
theorem access_fault {m m' : Machine} {c : MemCall} (h : m.access c = some (.fault e, m')) :
    m' = m := by
  cases c with
  | read addr size =>
    simp only [Machine.access, readMemInPlace_eq] at h
    generalize m.readMem addr size.bytes = r at h
    rcases r with _ | (e' | ⟨v, m₁⟩)
    · cases h
    · cases h
      rfl
    · cases h
  | write addr size value =>
    simp only [Machine.access, writeMemInPlace_eq] at h
    generalize m.writeMem addr size.bytes value = r at h
    rcases r with _ | (e' | m₁)
    · cases h
    · cases h
      rfl
    · cases h

/-! ## Memory through the pages -/

/-- The valid entries of the table name frames of the machine, and no two the same one. -/
structure FramesApart (table : List TranslationEntry) : Prop where
  frame : ∀ entry ∈ table, entry.valid = true →
    0 ≤ entry.physicalPage ∧ entry.physicalPage < numPhysPages
  apart : ∀ (i j : ℕ) (e e' : TranslationEntry), table[i]? = some e → table[j]? = some e' →
    e.valid = true → e'.valid = true → e.physicalPage = e'.physicalPage → i = j

/-- Why an access is refused. -/
def refusal (table : List TranslationEntry) (addr : BitVec 32) (size : AccessSize) (writing : Bool) :
    Option ExceptionType :=
  if addr.toNat % size.bytes ≠ 0 then some .addressErrorException
  else match table[addr.toNat / pageSize]? with
    | none => some .addressErrorException
    | some entry =>
      if entry.valid = false then some .pageFaultException
      else if entry.readOnly && writing then some .readOnlyException
      else none

/-- The number the `n` bytes from `addr` on stand for, the lowest first. -/
def littleEndian (bytes : BitVec 32 → Byte) (addr : BitVec 32) : ℕ → ℕ
  | 0 => 0
  | n + 1 => (bytes addr).toNat + 256 * littleEndian bytes (addr + 1#32) n

/-- What is read at `addr`: a byte with its sign, more bytes without. -/
def readBack (bytes : BitVec 32 → Byte) (addr : BitVec 32) : AccessSize → BitVec 32
  | .byte => (bytes addr).signExtend 32
  | .half => BitVec.ofNat 32 (littleEndian bytes addr 2)
  | .word => BitVec.ofNat 32 (littleEndian bytes addr 4)

/-- The memory after the low bytes of `value` have been written at `addr`. -/
def bytesWritten (bytes : BitVec 32 → Byte) (addr : BitVec 32) (size : AccessSize) (value : BitVec 32) :
    BitVec 32 → Byte := fun a =>
  if (a - addr).toNat < size.bytes then value.extractLsb' (8 * (a - addr).toNat) 8 else bytes a

/-- A memory of bytes at 32-bit addresses, with the permissions of the table. -/
def pagedSpec (table : List TranslationEntry) (bytes : BitVec 32 → Byte) :
    MemCall → MemAnswer × (BitVec 32 → Byte)
  | .read addr size =>
    match refusal table addr size false with
    | some e => (.fault e, bytes)
    | none => (.value (readBack bytes addr size), bytes)
  | .write addr size value =>
    match refusal table addr size true with
    | some e => (.fault e, bytes)
    | none => (.stored, bytesWritten bytes addr size value)

/-- The bytes a process finds in a memory. -/
def bytesSeen (mem : Memory) (table : List TranslationEntry) (a : BitVec 32) : Byte :=
  ((locate table a).map fun x : ℕ => mem x).getD 0#8

/-! ## Places -/

section Places

variable {table table' : List TranslationEntry} {addr a b : BitVec 32} {x y : ℕ}

theorem locate_inj (h : FramesApart table) (ha : locate table a = some x)
    (hb : locate table b = some x) : a = b := by
  obtain ⟨ea, hea, hva, -, rfl⟩ := locate_eq_some_iff.mp ha
  obtain ⟨eb, heb, hvb, -, hx⟩ := locate_eq_some_iff.mp hb
  have hfa := h.frame ea (List.mem_of_getElem? hea) hva
  have hfb := h.frame eb (List.mem_of_getElem? heb) hvb
  simp only [pageSize, sectorSize, numPhysPages] at hx hea heb hfa hfb
  have hpages : a.toNat / 128 = b.toNat / 128 :=
    h.apart _ _ ea eb hea heb hva hvb (by omega)
  apply BitVec.eq_of_toNat_eq
  omega

theorem bytes_cases (size : AccessSize) :
    size.bytes = 1 ∨ size.bytes = 2 ∨ size.bytes = 4 := by
  cases size
  · exact Or.inl rfl
  · exact Or.inr (Or.inl rfl)
  · exact Or.inr (Or.inr rfl)

theorem misaligned_iff (addr : BitVec 32) (size : AccessSize) :
    Machine.misaligned addr size.bytes = true ↔ addr.toNat % size.bytes ≠ 0 := by
  have hmask : ∀ k : ℕ, k ≤ 32 →
      (addr &&& BitVec.ofNat 32 (2 ^ k - 1) ≠ 0#32 ↔ addr.toNat % 2 ^ k ≠ 0) := by
    intro k hk
    rw [not_iff_not, ← toNat_and_mask addr hk]
    exact ⟨fun h => by rw [h]; rfl, fun h => BitVec.eq_of_toNat_eq h⟩
  cases size with
  | byte => simp [Machine.misaligned, AccessSize.bytes, Nat.mod_one]
  | half => simpa [Machine.misaligned, AccessSize.bytes] using hmask 1 (by omega)
  | word => simpa [Machine.misaligned, AccessSize.bytes] using hmask 2 (by omega)

theorem locate_add (halign : addr.toNat % size.bytes = 0) {k : ℕ} (hk : k < size.bytes)
    (h : locate table addr = some x) : locate table (addr + BitVec.ofNat 32 k) = some (x + k) := by
  obtain ⟨entry, hentry, hvalid, hframe, rfl⟩ := locate_eq_some_iff.mp h
  have hlt := addr.isLt
  have hsize := bytes_cases size
  have hsum : (addr + BitVec.ofNat 32 k).toNat = addr.toNat + k := by
    rw [BitVec.toNat_add, BitVec.toNat_ofNat]
    rcases hsize with hs | hs | hs <;> rw [hs] at halign hk <;> omega
  have hpage : (addr.toNat + k) / pageSize = addr.toNat / pageSize ∧
      (addr.toNat + k) % pageSize = addr.toNat % pageSize + k := by
    simp only [pageSize, sectorSize]
    rcases hsize with hs | hs | hs <;> rw [hs] at halign hk <;> omega
  refine locate_eq_some_iff.mpr ⟨entry, ?_, hvalid, hframe, ?_⟩
  · rw [hsum, hpage.1, hentry]
  · rw [hsum, hpage.2, Nat.add_assoc]

/-- Two entries that differ in nothing but the bits an access sets. -/
def SamePage (e e' : TranslationEntry) : Prop :=
  e'.valid = e.valid ∧ e'.readOnly = e.readOnly ∧ e'.physicalPage = e.physicalPage

/-- Two tables whose entries do. -/
def SamePages (table table' : List TranslationEntry) : Prop :=
  ∀ i : ℕ, Option.Rel SamePage table[i]? table'[i]?

theorem SamePages.refl (table : List TranslationEntry) : SamePages table table := by
  intro i
  cases table[i]? with
  | none => exact .none
  | some e => exact .some ⟨rfl, rfl, rfl⟩

theorem SamePages.set (h : SamePages table table') {v : ℕ} {entry entry' : TranslationEntry}
    (hentry : table'[v]? = some entry) (hsame : SamePage entry entry') :
    SamePages table (table'.set v entry') := by
  intro i
  have hi := h i
  by_cases hv : v = i
  · subst hv
    rw [List.getElem?_set_self (List.getElem?_eq_some_iff.mp hentry).1]
    rw [hentry] at hi
    generalize table[v]? = e at hi ⊢
    cases hi with
    | some hold => exact .some ⟨hsame.1.trans hold.1, hsame.2.1.trans hold.2.1,
        hsame.2.2.trans hold.2.2⟩
  · rw [List.getElem?_set_ne hv]
    exact hi

theorem SamePages.locate (h : SamePages table table') (a : BitVec 32) :
    locate table' a = locate table a := by
  unfold Analysis.locate
  generalize hold : table[a.toNat / pageSize]? = e
  generalize hnew : table'[a.toNat / pageSize]? = e'
  have hrel := h (a.toNat / pageSize)
  rw [hold, hnew] at hrel
  cases hrel with
  | none => rfl
  | some hsame =>
    obtain ⟨hvalid, -, hframe⟩ := hsame
    simp only [hvalid, hframe]

theorem SamePages.refusal (h : SamePages table table') (addr : BitVec 32) (size : AccessSize)
    (writing : Bool) : refusal table' addr size writing = refusal table addr size writing := by
  unfold Analysis.refusal
  generalize hold : table[addr.toNat / pageSize]? = e
  generalize hnew : table'[addr.toNat / pageSize]? = e'
  have hrel := h (addr.toNat / pageSize)
  rw [hold, hnew] at hrel
  cases hrel with
  | none => rfl
  | some hsame =>
    obtain ⟨hvalid, hread, -⟩ := hsame
    simp only [hvalid, hread]

theorem SamePages.frame (h : SamePages table table') (hframes : FramesApart table)
    (hentry : entry ∈ table') (hvalid : entry.valid = true) :
    (entry.physicalPage % 2 ^ 32).toNat < numPhysPages := by
  obtain ⟨i, hi⟩ := List.getElem?_of_mem hentry
  have hrel := h i
  rw [hi] at hrel
  generalize hold : table[i]? = e at hrel
  cases hrel with
  | some hsame =>
    obtain ⟨hv, -, hp⟩ := hsame
    have hbound := hframes.frame _ (List.mem_of_getElem? hold) (hv ▸ hvalid)
    rw [hp]
    simp only [numPhysPages] at hbound ⊢
    omega

/-! ## One access -/

/-- INTERNAL: a refused access. -/
theorem translate_of_refusal {mem : Memory} (h : refusal table addr size writing = some e) :
    Machine.translate ⟨mem, none, some table⟩ addr size.bytes writing = some (.error e) := by
  unfold refusal at h
  unfold Machine.translate
  by_cases halign : addr.toNat % size.bytes ≠ 0
  · rw [if_pos halign] at h
    rw [if_pos ((misaligned_iff addr size).mpr halign), ← Option.some.inj h]
  · rw [if_neg halign] at h
    rw [if_neg fun hm => halign ((misaligned_iff addr size).mp hm)]
    cases hentry : table[addr.toNat / pageSize]? with
    | none =>
      simp only [hentry] at h ⊢
      rw [← Option.some.inj h]
    | some entry =>
      simp only [hentry] at h ⊢
      cases hvalid : entry.valid with
      | false =>
        simp only [hvalid, if_true] at h
        cases h
        rfl
      | true =>
        simp only [hvalid, Bool.true_eq_false, if_false, Option.ite_none_right_eq_some] at h
        simp only [Bool.not_true, Bool.false_eq_true, if_false, Machine.useEntry, h.1, if_true]
        rw [← Option.some.inj h.2]

/-- INTERNAL: an access that is not refused finds its place. -/
theorem translate_of_allowed (mem : Memory)
    (hframe : ∀ entry ∈ table, entry.valid = true →
      (entry.physicalPage % 2 ^ 32).toNat < numPhysPages)
    (h : refusal table addr size writing = none) :
    addr.toNat % size.bytes = 0 ∧ ∃ x entry entry', locate table addr = some x ∧
      table[addr.toNat / pageSize]? = some entry ∧ SamePage entry entry' ∧
      Machine.translate ⟨mem, none, some table⟩ addr size.bytes writing =
        some (.ok (x, ⟨mem, none, some (table.set (addr.toNat / pageSize) entry')⟩)) := by
  unfold refusal at h
  by_cases halign : addr.toNat % size.bytes ≠ 0
  · rw [if_pos halign] at h
    cases h
  rw [if_neg halign] at h
  have hmis : Machine.misaligned addr size.bytes = false := by
    rw [← Bool.not_eq_true]
    exact fun hm => halign ((misaligned_iff addr size).mp hm)
  refine ⟨not_not.mp halign, ?_⟩
  cases hentry : table[addr.toNat / pageSize]? with
  | none => simp [hentry] at h
  | some entry =>
    simp only [hentry] at h
    cases hvalid : entry.valid with
    | false => simp [hvalid] at h
    | true =>
      simp only [hvalid, Bool.true_eq_false, if_false, ite_eq_right_iff, reduceCtorEq, imp_false] at h
      have hlt := hframe entry (List.mem_of_getElem? hentry) hvalid
      have hend := offset_add_size_le (bytes_cases size) hmis
      have hin : (entry.physicalPage % 2 ^ 32).toNat * pageSize + addr.toNat % pageSize + size.bytes ≤
          memorySize := by
        simp only [memorySize, numPhysPages, pageSize, sectorSize] at *
        omega
      have hplace : locate table addr =
          some ((entry.physicalPage % 2 ^ 32).toNat * pageSize + addr.toNat % pageSize) :=
        locate_eq_some_iff.mpr ⟨entry, hentry, hvalid, hlt, rfl⟩
      have hbits : SamePage entry { entry with use := true, dirty := entry.dirty || writing } :=
        ⟨rfl, rfl, rfl⟩
      refine ⟨_, entry, _, hplace, rfl, hbits, ?_⟩
      unfold Machine.translate Machine.useEntry
      simp only [hmis, hentry, hvalid, h, Bool.false_eq_true, if_false, Bool.not_true]
      rw [if_neg (by omega), if_pos hin]

end Places

/-! ## Values -/

section Values

variable {bytes : BitVec 32 → Byte} {mem : Memory} {addr : BitVec 32} {x : ℕ}

/-- INTERNAL: four bytes fit into a host word. -/
theorem toNat_load (n : ℕ) : ∀ start : ℤ, n ≤ 4 → (mem.load start n).toNat < 256 ^ n ∧
    ∀ addr, (∀ k < n, mem (start + k) = bytes (addr + BitVec.ofNat 32 k)) →
      (mem.load start n).toNat = littleEndian bytes addr n := by
  induction n with
  | zero =>
    intro start _
    exact ⟨by simp [Memory.load], fun addr _ => rfl⟩
  | succ n ih =>
    intro start hn
    obtain ⟨hlt, heq⟩ := ih (start + 1) (by omega)
    have hpow : 256 ^ n ≤ 256 ^ 3 := Nat.pow_le_pow_right (by omega) (by omega)
    have hbyte := (mem start).isLt
    have hload : (mem.load start (n + 1)).toNat =
        (mem start).toNat + 256 * (mem.load (start + 1) n).toNat := by
      have hext : ((mem start).zeroExtend 32).toNat = (mem start).toNat :=
        BitVec.toNat_setWidth_of_le (by omega)
      have hshift : (mem.load (start + 1) n <<< 8).toNat = (mem.load (start + 1) n).toNat <<< 8 := by
        rw [BitVec.toNat_shiftLeft, Nat.shiftLeft_eq]
        exact Nat.mod_eq_of_lt (by omega)
      rw [Memory.load, BitVec.toNat_or, hext, hshift, ← Nat.shiftLeft_add_eq_or_of_lt hbyte,
        Nat.shiftLeft_eq]
      omega
    refine ⟨by rw [hload, Nat.pow_succ]; omega, fun addr hbytes => ?_⟩
    have hrest : ∀ k < n, mem (start + 1 + k) = bytes (addr + 1#32 + BitVec.ofNat 32 k) := by
      intro k hk
      have hb := hbytes (k + 1) (by omega)
      have ha : addr + 1#32 + BitVec.ofNat 32 k = addr + BitVec.ofNat 32 (k + 1) := by
        rw [BitVec.add_assoc, BitVec.ofNat_add, BitVec.add_comm 1#32]
      rw [ha, ← hb]
      congr 1
      push_cast
      omega
    have hfirst : mem start = bytes addr := by simpa using hbytes 0 (by omega)
    rw [hload, heq _ hrest, hfirst]
    rfl

/-- INTERNAL: **what is read**, when the bytes of the access are those seen from `addr` on.
SRCLINE: machine/translate.cc:101-118 -/
theorem loadValue_eq (size : AccessSize)
    (h : ∀ k < size.bytes, mem ((x : ℤ) + k) = bytes (addr + BitVec.ofNat 32 k)) :
    Machine.loadValue mem x size.bytes = some (readBack bytes addr size) := by
  have hword : ∀ n : ℕ, n ≤ 4 → (∀ k < n, mem ((x : ℤ) + k) = bytes (addr + BitVec.ofNat 32 k)) →
      mem.load x n = BitVec.ofNat 32 (littleEndian bytes addr n) := by
    intro n hn hbytes
    rw [← ((toNat_load n x hn).2 addr hbytes), BitVec.ofNat_toNat, BitVec.setWidth_eq]
  cases size with
  | byte =>
    have hfirst : mem x = bytes addr := by simpa using h 0 (by decide)
    show some ((mem x).signExtend 32) = some ((bytes addr).signExtend 32)
    rw [hfirst]
  | half =>
    show some (mem.load x 2) = some _
    rw [hword 2 (by omega) h]
    rfl
  | word =>
    show some (mem.load x 4) = some _
    rw [hword 4 (by omega) h]
    rfl

end Values

/-! ## Runs -/

/-- The machine shows `bytes` through its table, which is `table` up to the bits of its entries. -/
structure Shows (table : List TranslationEntry) (m : Machine) (bytes : BitVec 32 → Byte) : Prop where
  tlb : m.tlb = none
  pages : ∃ table', m.pageTable = some table' ∧ SamePages table table'
  shown : ∀ (a : BitVec 32) (x : ℕ), locate table a = some x → m.mainMemory x = bytes a

section Runs

variable {table : List TranslationEntry} {m : Machine} {bytes : BitVec 32 → Byte}

theorem Shows.translate (h : Shows table m bytes) (hframes : FramesApart table) {addr : BitVec 32}
    (hallowed : refusal table addr size writing = none) :
    ∃ x m', m.translate addr size.bytes writing = some (.ok (x, m')) ∧
      (∀ k < size.bytes, locate table (addr + BitVec.ofNat 32 k) = some (x + k)) ∧
      m'.mainMemory = m.mainMemory ∧ Shows table m' bytes := by
  obtain ⟨mem, tlb, pageTable⟩ := m
  obtain ⟨htlb, ⟨table', hpages, hsame⟩, hshown⟩ := h
  cases htlb
  cases hpages
  rw [← hsame.refusal] at hallowed
  obtain ⟨halign, x, entry, entry', hplace, hentry, hbits, htr⟩ := translate_of_allowed mem
    (fun e he hv => hsame.frame hframes he hv) hallowed
  rw [hsame.locate] at hplace
  exact ⟨x, _, htr, fun k hk => locate_add halign hk hplace, rfl,
    rfl, ⟨_, rfl, hsame.set hentry hbits⟩, hshown⟩

theorem Shows.translate_refused (h : Shows table m bytes) {addr : BitVec 32}
    (hrefused : refusal table addr size writing = some e) :
    m.translate addr size.bytes writing = some (.error e) := by
  obtain ⟨mem, tlb, pageTable⟩ := m
  obtain ⟨htlb, ⟨table', hpages, hsame⟩, -⟩ := h
  cases htlb
  cases hpages
  rw [← hsame.refusal] at hrefused
  exact translate_of_refusal hrefused

/-- INTERNAL: **a write is seen at its addresses and nowhere else.**
SRCLINE: machine/translate.cc:148-166 -/
theorem Shows.store (h : Shows table m bytes) (hframes : FramesApart table) {addr : BitVec 32}
    {x : ℕ} (value : BitVec 32)
    (hplaces : ∀ k < size.bytes, locate table (addr + BitVec.ofNat 32 k) = some (x + k)) :
    Shows table { m with mainMemory := m.mainMemory.store x size.bytes value }
      (bytesWritten bytes addr size value) := by
  refine ⟨h.tlb, h.pages, fun a y hy => ?_⟩
  show (if (x : ℤ) ≤ y ∧ (y : ℤ) < x + (size.bytes : ℕ) then _ else _) = bytesWritten bytes addr size value a
  unfold bytesWritten
  have ha : addr + BitVec.ofNat 32 (a - addr).toNat = a := by
    rw [BitVec.ofNat_toNat, BitVec.setWidth_eq, BitVec.add_comm, BitVec.sub_add_cancel]
  by_cases hin : (a - addr).toNat < size.bytes
  · -- the address is one of those written, at its place
    have hplace := hplaces _ hin
    rw [ha, hy, Option.some.injEq] at hplace
    rw [if_pos hin, if_pos (by omega)]
    congr 2
    omega
  · -- a byte of the access would belong to one of those addresses
    rw [if_neg hin, if_neg, h.shown a y hy]
    rintro ⟨hle, hlt⟩
    have hk : y - x < size.bytes := by omega
    have hplace := hplaces (y - x) hk
    rw [show x + (y - x) = y by omega] at hplace
    obtain rfl := locate_inj hframes hy hplace
    have hsize := bytes_cases size
    refine hin ?_
    rw [BitVec.add_comm, BitVec.add_sub_cancel, BitVec.toNat_ofNat, Nat.mod_eq_of_lt (by omega)]
    exact hk

/-- INTERNAL: one call of the machine is one call of the memory of bytes. -/
theorem shows_simulates (hframes : FramesApart table) :
    Simulates Machine.access (pagedSpec table) (Shows table) := by
  intro m bytes c h
  cases c with
  | read addr size =>
    simp only [Machine.access, readMemInPlace_eq, Machine.readMem, pagedSpec]
    cases hrefusal : refusal table addr size false with
    | some e => exact ⟨m, by rw [h.translate_refused hrefusal]; rfl, h⟩
    | none =>
      obtain ⟨x, m', htr, hplaces, hmem, hshows⟩ := h.translate hframes hrefusal
      have hvalue : Machine.loadValue m'.mainMemory x size.bytes = some (readBack bytes addr size) :=
        loadValue_eq size fun k hk => by
          have hshown := hshows.shown _ _ (hplaces k hk)
          push_cast at hshown
          exact hshown
      refine ⟨m', ?_, hshows⟩
      simp only [htr, hvalue]
      rfl
  | write addr size value =>
    simp only [Machine.access, writeMemInPlace_eq, Machine.writeMem, pagedSpec]
    cases hrefusal : refusal table addr size true with
    | some e => exact ⟨m, by rw [h.translate_refused hrefusal]; rfl, h⟩
    | none =>
      obtain ⟨x, m', htr, hplaces, hmem, hshows⟩ := h.translate hframes hrefusal
      refine ⟨{ m' with mainMemory := m'.mainMemory.store x size.bytes value }, ?_,
        hshows.store hframes value hplaces⟩
      simp only [htr, bytes_cases size, if_true]
      rfl

end Runs

/-- SOURCE: machine/translate.cc:87-255 — through a page table whose valid entries name different frames
of the machine, every sequence of reads and writes of 1, 2 and 4 bytes at any addresses gets the
answers of a memory of bytes, no assertion fails, and the bytes are in memory at the end; and
an access that fails leaves the machine, with its memory and its bits, as it was. -/
theorem paged_memory_answers (mem : Memory) {table : List TranslationEntry}
    (hframes : FramesApart table) (calls : List MemCall) :
    (∃ m', answers Machine.access ⟨mem, none, some table⟩ calls =
        some ((replies (pagedSpec table) (bytesSeen mem table) calls).1, m') ∧
      ∀ (a : BitVec 32) (x : ℕ), locate table a = some x →
        m'.mainMemory x = (replies (pagedSpec table) (bytesSeen mem table) calls).2 a) ∧
    ∀ (m m' : Machine) (c : MemCall) (e : ExceptionType),
      m.access c = some (.fault e, m') → m' = m := by
  refine ⟨?_, fun m m' c e => access_fault⟩
  have hstart : Shows table ⟨mem, none, some table⟩ (bytesSeen mem table) := by
    refine ⟨rfl, ⟨table, rfl, .refl table⟩, fun a x hx => ?_⟩
    unfold bytesSeen
    rw [hx]
    rfl
  obtain ⟨m', hanswers, hshows⟩ := (shows_simulates hframes).answers hstart calls
  exact ⟨m', hanswers, hshows.shown⟩

/-- Two pages in the frames 5 and 2, the second read-only, and a page that is not there but has the
number of a frame in use. -/
def scatteredPages : List TranslationEntry :=
  [⟨0, 5, true, false, false, false⟩, ⟨1, 2, true, true, false, false⟩,
    ⟨2, 5, false, false, false, false⟩]

theorem framesApart_scatteredPages : FramesApart scatteredPages := by
  refine ⟨by decide, fun i j e e' hi hj hv hv' hp => ?_⟩
  match i, j with
  | 0, 0 => rfl
  | 1, 1 => rfl
  | 0, 1 => cases hi; cases hj; cases hp
  | 1, 0 => cases hi; cases hj; cases hp
  | 2, _ => cases hi; cases hv
  | _, 2 => cases hj; cases hv'
  | n + 3, _ => cases hi
  | _, n + 3 => cases hj

/-- Half a word over part of a word, a byte of it with its sign, and the three refusals. -/
theorem paged_memory_answers_scatteredPages :
    ∃ m', answers Machine.access ⟨fun _ => 0#8, none, some scatteredPages⟩
        [.write 124#32 .word 0x04030201#32, .write 126#32 .half 0x8081#32, .read 127#32 .byte,
          .read 124#32 .word, .read 126#32 .word, .write 128#32 .byte 1#32, .read 256#32 .byte] =
      some ([.stored, .stored, .value 0xffffff80#32, .value 0x80810201#32,
        .fault .addressErrorException, .fault .readOnlyException, .fault .pageFaultException], m') := by
  obtain ⟨⟨m', hanswers, -⟩, -⟩ := paged_memory_answers (fun _ => 0#8) framesApart_scatteredPages
    [.write 124#32 .word 0x04030201#32, .write 126#32 .half 0x8081#32, .read 127#32 .byte,
      .read 124#32 .word, .read 126#32 .word, .write 128#32 .byte 1#32, .read 256#32 .byte]
  refine ⟨m', hanswers.trans ?_⟩
  congr 2

end Nachos.Analysis
