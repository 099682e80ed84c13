import Mathlib.Order.Interval.Finset.Nat
import Nachos.Model.BitMap

/-!
# A `BitMap` is a set of marked indices

`isSet b i` reads bit `i` of the word array. Every operation of `Nachos.Model.BitMap`
is characterised by what it does to `isSet`: `mark` and `clear` change one index,
`find` marks the least index that is not set, and `numClear` counts those. Nothing
outside this module looks at words or masks.
-/

set_option autoImplicit false

namespace Nachos.Analysis

open Nachos.Model

variable {b : BitMap} {i : ℕ}

/-- INTERNAL: bit `i` of the map.
SRCLINE: userprog/bitmap.cc:79 -/
def isSet (b : BitMap) (i : ℕ) : Bool := (b.map (i / 32)).getLsbD (i % 32)

/-- INTERNAL: the map with bit `i` set.
SRCLINE: userprog/bitmap.cc:50 -/
def setBit (b : BitMap) (i : ℕ) : BitMap :=
  { b with map := Function.update b.map (i / 32) (b.map (i / 32) ||| 1#32 <<< (i % 32)) }

/-- INTERNAL: the map with bit `i` clear.
SRCLINE: userprog/bitmap.cc:64 -/
def clearBit (b : BitMap) (i : ℕ) : BitMap :=
  { b with map := Function.update b.map (i / 32) (b.map (i / 32) &&& ~~~ (1#32 <<< (i % 32))) }

@[simp] theorem numBits_setBit (b : BitMap) (i : ℕ) : (setBit b i).numBits = b.numBits := rfl

@[simp] theorem numBits_clearBit (b : BitMap) (i : ℕ) : (clearBit b i).numBits = b.numBits := rfl

/-! ## One bit -/

@[simp] theorem wordOf_natCast (i : ℕ) : BitMap.wordOf (i : ℤ) = i / 32 := by
  simp only [BitMap.wordOf, bitsInWord]
  omega

@[simp] theorem maskOf_natCast (i : ℕ) : BitMap.maskOf (i : ℤ) = 1#32 <<< (i % 32) := by
  have h : ((i : ℤ) % ((32 : ℕ) : ℤ)).toNat = i % 32 := by omega
  simp only [BitMap.maskOf, bitsInWord, h]

@[simp] theorem inRange_natCast (b : BitMap) (i : ℕ) : b.InRange (i : ℤ) ↔ i < b.numBits := by
  simp [BitMap.InRange]

theorem getLsbD_mask (k j : ℕ) (hj : j < 32) : (1#32 <<< k).getLsbD j = decide (j = k) := by
  rw [BitVec.getLsbD_shiftLeft, BitVec.getLsbD_one]
  by_cases h : j = k
  · simp [h]; omega
  · by_cases hlt : j < k
    · simp [hlt, h]
    · have : ¬ j - k = 0 := by omega
      simp [this, h]

@[simp] theorem isSet_setBit (b : BitMap) (i j : ℕ) :
    isSet (setBit b i) j = (decide (j = i) || isSet b j) := by
  simp only [isSet, setBit]
  by_cases hw : j / 32 = i / 32
  · rw [hw, Function.update_self, BitVec.getLsbD_or, getLsbD_mask _ _ (Nat.mod_lt _ (by omega))]
    have h : (j % 32 = i % 32) ↔ j = i := by omega
    simp only [h]
    exact Bool.or_comm _ _
  · rw [Function.update_of_ne hw]
    have h : j ≠ i := fun h => hw (by rw [h])
    simp [h]

@[simp] theorem isSet_clearBit (b : BitMap) (i j : ℕ) :
    isSet (clearBit b i) j = (!decide (j = i) && isSet b j) := by
  simp only [isSet, clearBit]
  by_cases hw : j / 32 = i / 32
  · have hj : j % 32 < 32 := Nat.mod_lt _ (by omega)
    rw [hw, Function.update_self, BitVec.getLsbD_and, BitVec.getLsbD_not, getLsbD_mask _ _ hj]
    have h : (j % 32 = i % 32) ↔ j = i := by omega
    simp only [h, hj, decide_true, Bool.true_and]
    exact Bool.and_comm _ _
  · rw [Function.update_of_ne hw]
    have h : j ≠ i := fun h => hw (by rw [h])
    simp [h]

theorem and_mask_ne_zero_iff (w : BitVec 32) (k : ℕ) (hk : k < 32) :
    w &&& 1#32 <<< k ≠ 0#32 ↔ w.getLsbD k = true := by
  constructor
  · intro h
    by_contra hb
    apply h
    ext j hj
    rw [← BitVec.getLsbD_eq_getElem, BitVec.getLsbD_and, getLsbD_mask k j hj]
    by_cases hjk : j = k
    · subst hjk
      simp [Bool.eq_false_of_not_eq_true hb]
    · simp [hjk]
  · intro h hz
    have hbit := congrArg (fun v : BitVec 32 => v.getLsbD k) hz
    simp only [BitVec.getLsbD_and, getLsbD_mask k k hk, h] at hbit
    simp at hbit

/-! ## The operations -/

theorem mark_eq (h : i < b.numBits) : b.mark (i : ℤ) = some (setBit b i) := by
  simp [BitMap.mark, setBit, h]

theorem clear_eq (h : i < b.numBits) : b.clear (i : ℤ) = some (clearBit b i) := by
  simp [BitMap.clear, clearBit, h]

theorem test_eq (h : i < b.numBits) : b.test (i : ℤ) = some (isSet b i) := by
  have hk : i % 32 < 32 := Nat.mod_lt _ (by omega)
  simp only [BitMap.test, inRange_natCast, h, if_true, wordOf_natCast, maskOf_natCast]
  rw [Option.some.injEq, Bool.eq_iff_iff, decide_eq_true_eq, and_mask_ne_zero_iff _ _ hk]
  rfl

theorem setBit_of_isSet (h : isSet b i = true) : setBit b i = b := by
  have hw : b.map (i / 32) ||| 1#32 <<< (i % 32) = b.map (i / 32) := by
    ext j hj
    rw [← BitVec.getLsbD_eq_getElem, ← BitVec.getLsbD_eq_getElem, BitVec.getLsbD_or,
      getLsbD_mask _ _ hj]
    by_cases hjk : j = i % 32
    · subst hjk
      simpa [isSet] using h
    · simp [hjk]
  unfold setBit
  rw [hw, Function.update_eq_self]

theorem findFrom_eq_of_clear (n i k : ℕ) (hi : i + n ≤ b.numBits) (hik : i ≤ k) (hkn : k < i + n)
    (hclear : isSet b k = false) (hset : ∀ j, i ≤ j → j < k → isSet b j = true) :
    b.findFrom i n = some ((k : ℤ), setBit b k) := by
  induction n generalizing i with
  | zero => omega
  | succ n ih =>
    simp only [BitMap.findFrom, test_eq (show i < b.numBits by omega), Option.bind_eq_bind,
      Option.bind_some]
    by_cases h : i = k
    · subst h
      simp [hclear, mark_eq (show i < b.numBits by omega)]
    · rw [hset i le_rfl (by omega)]
      exact ih (i + 1) (by omega) (by omega) (by omega) (fun j h1 h2 => hset j (by omega) h2)

theorem findFrom_eq_of_full (n i : ℕ) (hi : i + n ≤ b.numBits)
    (hset : ∀ j, i ≤ j → j < i + n → isSet b j = true) : b.findFrom i n = some (-1, b) := by
  induction n generalizing i with
  | zero => rfl
  | succ n ih =>
    simp only [BitMap.findFrom, test_eq (show i < b.numBits by omega), Option.bind_eq_bind,
      Option.bind_some, hset i le_rfl (by omega), if_true]
    exact ih (i + 1) (by omega) (fun j h1 h2 => hset j (by omega) (by omega))

/-- INTERNAL: **what `Find` does**: it answers `-1` when every bit is set, and otherwise
marks and returns the least clear index. -/
theorem find_cases (b : BitMap) :
    (b.find = some (-1, b) ∧ ∀ j < b.numBits, isSet b j = true) ∨
    ∃ k < b.numBits, b.find = some ((k : ℤ), setBit b k) ∧ isSet b k = false ∧
      ∀ j < k, isSet b j = true := by
  by_cases h : ∃ k, k < b.numBits ∧ isSet b k = false
  · right
    have hk := Nat.find_spec h
    have hmin : ∀ j < Nat.find h, isSet b j = true := by
      intro j hj
      have := Nat.find_min h hj
      simp only [not_and, Bool.not_eq_false] at this
      exact this (hj.trans hk.1)
    exact ⟨Nat.find h, hk.1, findFrom_eq_of_clear b.numBits 0 _ (by omega) (by omega) (by omega)
      hk.2 (fun j _ hj => hmin j hj), hk.2, hmin⟩
  · left
    push Not at h
    have hall : ∀ j < b.numBits, isSet b j = true := fun j hj => by simpa using h j hj
    exact ⟨findFrom_eq_of_full b.numBits 0 (by omega) (fun j _ hj => hall j (by omega)), hall⟩

/-- INTERNAL: the indices of the map that are not set.
SRCLINE: userprog/bitmap.cc:111-119 -/
def clearSet (b : BitMap) : Finset ℕ := (Finset.range b.numBits).filter fun i => isSet b i = false

theorem mem_clearSet : i ∈ clearSet b ↔ i < b.numBits ∧ isSet b i = false := by
  simp [clearSet]

/-- INTERNAL: the counting loop adds the clear indices it passes to `count`. -/
theorem numClearFrom_eq (n i count : ℕ) (hi : i + n ≤ b.numBits) :
    b.numClearFrom i n count =
      some (count + ((Finset.Ico i (i + n)).filter fun j => isSet b j = false).card) := by
  induction n generalizing i count with
  | zero => simp [BitMap.numClearFrom]
  | succ n ih =>
    simp only [BitMap.numClearFrom, test_eq (show i < b.numBits by omega), Option.bind_eq_bind,
      Option.bind_some]
    have hIco : Finset.Ico i (i + (n + 1)) = insert i (Finset.Ico (i + 1) (i + 1 + n)) := by
      ext j
      simp only [Finset.mem_Ico, Finset.mem_insert]
      omega
    rw [hIco, Finset.filter_insert]
    cases h : isSet b i with
    | true => simp [ih (i + 1) count (by omega)]
    | false =>
      have hnot : i ∉ (Finset.Ico (i + 1) (i + 1 + n)).filter fun j => isSet b j = false := by
        simp
      simp [ih (i + 1) (count + 1) (by omega), Finset.card_insert_of_notMem hnot]
      omega

theorem numClear_eq (b : BitMap) : b.numClear = some (clearSet b).card := by
  unfold BitMap.numClear clearSet
  rw [numClearFrom_eq b.numBits 0 0 (by omega), Nat.zero_add, Nat.zero_add, Finset.range_eq_Ico]

theorem clearSet_setBit (b : BitMap) (k : ℕ) : clearSet (setBit b k) = (clearSet b).erase k := by
  ext j
  simp only [mem_clearSet, numBits_setBit, isSet_setBit, Finset.mem_erase]
  by_cases h : j = k <;> simp [h]

theorem clearFrom_eq (n : ℕ) : ∀ (b : BitMap) (i : ℕ), i + n ≤ b.numBits →
    ∃ b', b.clearFrom i n = some b' ∧ b'.numBits = b.numBits ∧
      ∀ j, isSet b' j = (isSet b j && !decide (i ≤ j ∧ j < i + n)) := by
  induction n with
  | zero => exact fun b i _ => ⟨b, rfl, rfl, fun j => by simp; omega⟩
  | succ n ih =>
    intro b i hi
    obtain ⟨b', hb', hn, hset⟩ := ih (clearBit b i) (i + 1) (by simp only [numBits_clearBit]; omega)
    refine ⟨b', ?_, hn, fun j => ?_⟩
    · simp [BitMap.clearFrom, clear_eq (show i < b.numBits by omega), hb']
    · rw [hset, isSet_clearBit]
      by_cases hj : j = i
      · simp [hj]
      · have h : (i + 1 ≤ j ∧ j < i + 1 + n) ↔ (i ≤ j ∧ j < i + (n + 1)) := by omega
        rw [decide_eq_decide.mpr h, decide_eq_false hj, Bool.not_false, Bool.true_and]

theorem new_eq (nitems : ℕ) (words : ℕ → BitVec 32) :
    ∃ b, BitMap.new nitems words = some b ∧ b.numBits = nitems ∧
      ∀ j < nitems, isSet b j = false := by
  obtain ⟨b, hb, hn, hset⟩ := clearFrom_eq nitems ⟨nitems, words⟩ 0 (by simp)
  refine ⟨b, hb, hn, fun j hj => ?_⟩
  rw [hset]
  simp [hj]

/-! ## The marked indices as a set

The callers of a bitmap keep its answers in `int`s, so the set they see is one of
integers. -/

/-- INTERNAL: the indices that are set, as the callers hold them.
SRCLINE: userprog/bitmap.cc:74-83 -/
def markedSet (b : BitMap) : Set ℤ := {f | ∃ i : ℕ, i < b.numBits ∧ isSet b i = true ∧ f = i}

theorem natCast_mem_markedSet : (i : ℤ) ∈ markedSet b ↔ i < b.numBits ∧ isSet b i = true := by
  constructor
  · rintro ⟨j, hj, hset, hij⟩
    have h : i = j := by omega
    subst h
    exact ⟨hj, hset⟩
  · rintro ⟨hi, hset⟩
    exact ⟨i, hi, hset, rfl⟩

theorem test_eq_some_true_iff {f : ℤ} : b.test f = some true ↔ f ∈ markedSet b := by
  by_cases h : b.InRange f
  · obtain ⟨i, rfl⟩ := Int.eq_ofNat_of_zero_le h.1
    have hi : i < b.numBits := (inRange_natCast b i).mp h
    rw [test_eq hi, natCast_mem_markedSet, Option.some.injEq]
    exact ⟨fun hs => ⟨hi, hs⟩, fun hs => hs.2⟩
  · unfold BitMap.test
    rw [if_neg h]
    refine ⟨fun hn => absurd hn (by simp), ?_⟩
    rintro ⟨i, hi, -, rfl⟩
    exact absurd ((inRange_natCast b i).mpr hi) h

theorem mem_markedSet_setBit (hi : i < b.numBits) (f : ℤ) :
    f ∈ markedSet (setBit b i) ↔ f ∈ markedSet b ∨ f = i := by
  constructor
  · rintro ⟨j, hj, hset, rfl⟩
    rw [isSet_setBit, Bool.or_eq_true, decide_eq_true_eq] at hset
    rcases hset with rfl | hset
    · exact Or.inr rfl
    · exact Or.inl ⟨j, hj, hset, rfl⟩
  · rintro (⟨j, hj, hset, rfl⟩ | rfl)
    · exact ⟨j, hj, by rw [isSet_setBit, hset, Bool.or_true], rfl⟩
    · exact ⟨i, hi, by rw [isSet_setBit]; simp, rfl⟩

theorem mem_markedSet_clearBit (f : ℤ) :
    f ∈ markedSet (clearBit b i) ↔ f ∈ markedSet b ∧ f ≠ i := by
  constructor
  · rintro ⟨j, hj, hset, rfl⟩
    rw [isSet_clearBit, Bool.and_eq_true, Bool.not_eq_true', decide_eq_false_iff_not] at hset
    exact ⟨⟨j, hj, hset.2, rfl⟩, by exact_mod_cast hset.1⟩
  · rintro ⟨⟨j, hj, hset, rfl⟩, hne⟩
    refine ⟨j, hj, ?_, rfl⟩
    have hne' : j ≠ i := by exact_mod_cast hne
    rw [isSet_clearBit, hset]
    simp [hne']

theorem clear_of_mem {f : ℤ} (hf : f ∈ markedSet b) :
    ∃ b', b.clear f = some b' ∧ b'.numBits = b.numBits ∧
      ∀ g, g ∈ markedSet b' ↔ g ∈ markedSet b ∧ g ≠ f := by
  obtain ⟨i, hi, -, rfl⟩ := hf
  exact ⟨clearBit b i, clear_eq hi, rfl, mem_markedSet_clearBit⟩

/-- INTERNAL: `n` calls of `Find`, and the indices they return.
SRCLINE: userprog/addrspace.cc:161, filesys/filehdr.cc:48 -/
def findMany : ℕ → BitMap → Option (List ℤ × BitMap)
  | 0, b => some ([], b)
  | n + 1, b => do
    let (f, b₁) ← b.find
    let (l, b₂) ← findMany n b₁
    return (f :: l, b₂)

theorem find_of_clear (h : 0 < (clearSet b).card) :
    ∃ k < b.numBits, b.find = some ((k : ℤ), setBit b k) ∧ isSet b k = false := by
  obtain ⟨k, hk⟩ := Finset.card_pos.mp h
  obtain ⟨hlt, hclear⟩ := mem_clearSet.mp hk
  rcases find_cases b with ⟨-, hfull⟩ | ⟨k', hk', hfind, hclear', -⟩
  · rw [hfull k hlt] at hclear
    cases hclear
  · exact ⟨k', hk', hfind, hclear'⟩

theorem le_card_clearSet_setBit {k n : ℕ} (hk : k < b.numBits) (hclear : isSet b k = false)
    (h : n + 1 ≤ (clearSet b).card) : n ≤ (clearSet (setBit b k)).card := by
  rw [clearSet_setBit, Finset.card_erase_of_mem (mem_clearSet.mpr ⟨hk, hclear⟩)]
  omega

/-- INTERNAL: **taking several indices.** With `n` clear indices, `n` calls of `Find` return
distinct unmarked indices and mark exactly these. -/
theorem findMany_spec (n : ℕ) : ∀ b : BitMap, n ≤ (clearSet b).card →
    ∃ l b', findMany n b = some (l, b') ∧ l.length = n ∧ l.Nodup ∧ (∀ f ∈ l, f ∉ markedSet b) ∧
      b'.numBits = b.numBits ∧ ∀ f, f ∈ markedSet b' ↔ f ∈ markedSet b ∨ f ∈ l := by
  induction n with
  | zero => exact fun b _ => ⟨[], b, rfl, rfl, List.nodup_nil, by simp, rfl, by simp⟩
  | succ n ih =>
    intro b h
    obtain ⟨k, hk, hfind, hclear⟩ := find_of_clear (Nat.lt_of_lt_of_le (Nat.succ_pos n) h)
    obtain ⟨l, b', hmany, hlen, hnodup, hfree, hbits, hmarked⟩ :=
      ih (setBit b k) (le_card_clearSet_setBit hk hclear h)
    have hkfree : (k : ℤ) ∉ markedSet b := by
      rw [natCast_mem_markedSet, hclear]
      simp
    have hset : ∀ f, f ∈ markedSet (setBit b k) ↔ f ∈ markedSet b ∨ f = k := mem_markedSet_setBit hk
    refine ⟨k :: l, b', ?_, by rw [List.length_cons, hlen], ?_, ?_, hbits, fun f => ?_⟩
    · simp [findMany, hfind, hmany]
    · refine List.nodup_cons.mpr ⟨fun hmem => hfree k hmem ?_, hnodup⟩
      exact (hset k).mpr (Or.inr rfl)
    · intro f hf
      rcases List.mem_cons.mp hf with rfl | hf
      · exact hkfree
      · exact fun hb => hfree f hf ((hset f).mpr (Or.inl hb))
    · rw [hmarked, hset, List.mem_cons, or_assoc]

theorem card_clearSet_findMany (n : ℕ) : ∀ {b b' : BitMap} {l : List ℤ}, n ≤ (clearSet b).card →
    findMany n b = some (l, b') → (clearSet b').card + n = (clearSet b).card := by
  induction n with
  | zero =>
    intro b b' l _ h
    cases h
    rfl
  | succ n ih =>
    intro b b' l hcard h
    obtain ⟨k, hk, hfind, hclear⟩ := find_of_clear (Nat.lt_of_lt_of_le (Nat.succ_pos n) hcard)
    simp only [findMany, hfind, Option.bind_eq_bind, Option.bind_some] at h
    obtain ⟨⟨l', b₁⟩, hmany, h⟩ := Option.bind_eq_some_iff.mp h
    simp only [Option.pure_def, Option.some.injEq, Prod.mk.injEq] at h
    obtain ⟨rfl, rfl⟩ := h
    have hle := le_card_clearSet_setBit hk hclear hcard
    have hrest := ih hle hmany
    rw [clearSet_setBit, Finset.card_erase_of_mem (mem_clearSet.mpr ⟨hk, hclear⟩)] at hrest
    omega

end Nachos.Analysis
