import Mathlib.Data.Fintype.Basic
import Mathlib.Data.Finset.Max
import Nachos.Analysis.BitMapSet
import Nachos.Library.Simulation

/-!
# A `BitMap` behaves as a subset of its indices

The purpose of a bitmap, said without words and masks: a subset of `{0, …, nitems - 1}`
that starts empty, to which `Find` adds the least absent element. `subsetCall` is that
specification, and `StandsFor` says which subset a bitmap stands for. The bits of the
last word beyond `nitems` are never initialised; they take no part in `StandsFor`, and
the loops never reach them. Each call of the code is one call of the specification
(`standsFor_simulates`), so the same holds of every sequence of calls.
-/

set_option autoImplicit false

namespace Nachos.Analysis

open Nachos.Library Nachos.Model

section Subset

variable {nitems : ℕ}

/-- INTERNAL: what the calls are for, on a subset of the indices.
SRCLINE: userprog/bitmap.h:34-56 -/
def subsetCall (S : Finset (Fin nitems)) : BitMap.Call nitems → BitMap.Answer × Finset (Fin nitems)
  | .mark i => (.void, insert i S)
  | .clear i => (.void, S.erase i)
  | .test i => (.flag (decide (i ∈ S)), S)
  | .find =>
    if h : Sᶜ.Nonempty then (.number (Sᶜ.min' h : ℕ), insert (Sᶜ.min' h) S) else (.number (-1), S)
  | .numClear => (.number (Sᶜ.card : ℕ), S)

/-- INTERNAL: the bitmap `b` stands for `S`, and the words beyond its own are still those of `words`.
SRCLINE: userprog/bitmap.cc:20-27 -/
structure StandsFor (words : ℕ → BitVec 32) (b : BitMap) (S : Finset (Fin nitems)) : Prop where
  bits : b.numBits = nitems
  marked : ∀ i : Fin nitems, isSet b i = decide (i ∈ S)
  outside : ∀ w, divRoundUp nitems bitsInWord ≤ w → b.map w = words w

theorem word_lt_numWords {i n : ℕ} (h : i < n) : i / 32 < divRoundUp n bitsInWord := by
  have hwords : divRoundUp n 32 = (n + 31) / 32 := by
    unfold divRoundUp
    split <;> omega
  show i / 32 < divRoundUp n 32
  omega

variable {words : ℕ → BitVec 32} {b : BitMap} {S : Finset (Fin nitems)}

theorem StandsFor.lt (h : StandsFor words b S) (i : Fin nitems) : (i : ℕ) < b.numBits := by
  rw [h.bits]
  exact i.isLt

theorem StandsFor.setBit (h : StandsFor words b S) (i : Fin nitems) :
    StandsFor words (setBit b i) (insert i S) where
  bits := h.bits
  marked j := by
    rw [isSet_setBit, h.marked, Bool.eq_iff_iff, Bool.or_eq_true, decide_eq_true_eq,
      decide_eq_true_eq, decide_eq_true_eq, Finset.mem_insert, Fin.ext_iff]
  outside w hw := by
    have hne : w ≠ (i : ℕ) / 32 := fun he => absurd (word_lt_numWords i.isLt) (by omega)
    exact (Function.update_of_ne hne _ _).trans (h.outside w hw)

theorem StandsFor.clearBit (h : StandsFor words b S) (i : Fin nitems) :
    StandsFor words (clearBit b i) (S.erase i) where
  bits := h.bits
  marked j := by
    rw [isSet_clearBit, h.marked, Bool.eq_iff_iff, Bool.and_eq_true, Bool.not_eq_true',
      decide_eq_false_iff_not, decide_eq_true_eq, decide_eq_true_eq, Finset.mem_erase, ne_eq,
      Fin.ext_iff]
  outside w hw := by
    have hne : w ≠ (i : ℕ) / 32 := fun he => absurd (word_lt_numWords i.isLt) (by omega)
    exact (Function.update_of_ne hne _ _).trans (h.outside w hw)

theorem StandsFor.card_clearSet (h : StandsFor words b S) : (clearSet b).card = Sᶜ.card := by
  have hmap : clearSet b = Sᶜ.map Fin.valEmbedding := by
    ext i
    simp only [mem_clearSet, Finset.mem_map, Finset.mem_compl, Fin.valEmbedding_apply, h.bits]
    constructor
    · rintro ⟨hi, hclear⟩
      have hmem := h.marked ⟨i, hi⟩
      rw [hclear, eq_comm, decide_eq_false_iff_not] at hmem
      exact ⟨⟨i, hi⟩, hmem, rfl⟩
    · rintro ⟨j, hj, rfl⟩
      exact ⟨j.isLt, by rw [h.marked, decide_eq_false hj]⟩
  rw [hmap, Finset.card_map]

/-- INTERNAL: **`Find` takes the least absent element**, or answers `-1` when there is none.
SRCLINE: userprog/bitmap.cc:94-103 -/
theorem StandsFor.find (h : StandsFor words b S) :
    ∃ b', b.call (.find : BitMap.Call nitems) = some ((subsetCall S .find).1, b') ∧
      StandsFor words b' (subsetCall S .find).2 := by
  rcases find_cases b with ⟨hfind, hfull⟩ | ⟨k, hk, hfind, hclear, hleast⟩
  · have hempty : ¬ Sᶜ.Nonempty := by
      rintro ⟨i, hi⟩
      have hset := hfull i (h.lt i)
      rw [h.marked, decide_eq_true_eq] at hset
      exact Finset.mem_compl.mp hi hset
    refine ⟨b, ?_, ?_⟩
    · simp [BitMap.call, hfind, subsetCall, hempty]
    · simpa [subsetCall, hempty] using h
  · have hkn : k < nitems := h.bits ▸ hk
    have habsent : (⟨k, hkn⟩ : Fin nitems) ∈ Sᶜ := by
      have hmem := h.marked ⟨k, hkn⟩
      rw [hclear, eq_comm, decide_eq_false_iff_not] at hmem
      exact Finset.mem_compl.mpr hmem
    have hmin : Sᶜ.min' ⟨_, habsent⟩ = ⟨k, hkn⟩ := by
      refine le_antisymm (Finset.min'_le _ _ habsent) (Finset.le_min' _ _ _ fun j hj => ?_)
      by_contra hlt
      have hset := hleast j (not_le.mp hlt)
      rw [h.marked, decide_eq_true_eq] at hset
      exact Finset.mem_compl.mp hj hset
    have hne : Sᶜ.Nonempty := ⟨_, habsent⟩
    refine ⟨Analysis.setBit b k, ?_, ?_⟩
    · simp [BitMap.call, hfind, subsetCall, hne, hmin]
    · simpa [subsetCall, hne, hmin] using h.setBit ⟨k, hkn⟩

theorem standsFor_simulates :
    Simulates (BitMap.call : BitMap → BitMap.Call nitems → _) subsetCall (StandsFor words) := by
  intro b S c h
  cases c with
  | mark i => exact ⟨_, by simp [BitMap.call, mark_eq (h.lt i), subsetCall], h.setBit i⟩
  | clear i => exact ⟨_, by simp [BitMap.call, clear_eq (h.lt i), subsetCall], h.clearBit i⟩
  | test i => exact ⟨b, by simp [BitMap.call, test_eq (h.lt i), subsetCall, h.marked], h⟩
  | find => exact h.find
  | numClear => exact ⟨b, by simp [BitMap.call, numClear_eq, subsetCall, h.card_clearSet], h⟩

end Subset

theorem clearFrom_outside (n : ℕ) : ∀ (b b' : BitMap) (i : ℕ), i + n ≤ b.numBits →
    b.clearFrom i n = some b' →
    ∀ w, divRoundUp b.numBits bitsInWord ≤ w → b'.map w = b.map w := by
  induction n with
  | zero =>
    intro b b' i _ h w _
    cases h
    rfl
  | succ n ih =>
    intro b b' i hi h w hw
    have hlt : i < b.numBits := by omega
    simp only [BitMap.clearFrom, clear_eq hlt, Option.bind_eq_bind, Option.bind_some] at h
    have hne : w ≠ i / 32 := fun he => absurd (word_lt_numWords hlt) (by omega)
    rw [ih (clearBit b i) b' (i + 1) (by simp only [numBits_clearBit]; omega) h w hw]
    exact Function.update_of_ne hne _ _

theorem standsFor_new (nitems : ℕ) (words : ℕ → BitVec 32) :
    ∃ b, BitMap.new nitems words = some b ∧ StandsFor words b (∅ : Finset (Fin nitems)) := by
  obtain ⟨b, hb, hn, hclear⟩ := new_eq nitems words
  refine ⟨b, hb, hn, fun i => ?_, clearFrom_outside nitems ⟨nitems, words⟩ b 0 (by simp) hb⟩
  rw [hclear i i.isLt, decide_eq_false (Finset.notMem_empty i)]

/-- SOURCE: userprog/bitmap.cc:20-119 — whatever the words held, every sequence of calls on a
new bitmap of any size gets the answers of a subset of its indices that starts empty,
`Test` shows that subset afterwards, `Find` answers `-1` exactly when `NumClear`
answers 0, and no word beyond those of the map is written. -/
theorem bitMap_refines_subset (nitems : ℕ) (words : ℕ → BitVec 32)
    (calls : List (BitMap.Call nitems)) :
    ∃ b₀ b, BitMap.new nitems words = some b₀ ∧
      answers BitMap.call b₀ calls = some ((replies subsetCall ∅ calls).1, b) ∧
      (∀ i : Fin nitems, b.test (i : ℕ) = some (decide (i ∈ (replies subsetCall ∅ calls).2))) ∧
      ((∃ b', b.find = some (-1, b')) ↔ b.numClear = some 0) ∧
      ∀ w, divRoundUp nitems bitsInWord ≤ w → b.map w = words w := by
  obtain ⟨b₀, hnew, h₀⟩ := standsFor_new nitems words
  obtain ⟨b, hcalls, h⟩ := standsFor_simulates.answers h₀ calls
  refine ⟨b₀, b, hnew, hcalls, fun i => ?_, ?_, h.outside⟩
  · rw [test_eq (h.lt i), h.marked]
  · rw [numClear_eq, Option.some.injEq, Finset.card_eq_zero]
    rcases find_cases b with ⟨hfind, hfull⟩ | ⟨k, hk, hfind, hclear, -⟩
    · refine iff_of_true ⟨b, hfind⟩ (Finset.eq_empty_of_forall_notMem fun i hi => ?_)
      obtain ⟨hlt, hclear⟩ := mem_clearSet.mp hi
      rw [hfull i hlt] at hclear
      cases hclear
    · refine iff_of_false ?_ (Finset.ne_empty_of_mem (mem_clearSet.mpr ⟨hk, hclear⟩))
      rintro ⟨b', hb'⟩
      rw [hfind] at hb'
      simp at hb'

-- The index that was cleared is the one `Find` takes next.
example : (replies subsetCall (∅ : Finset (Fin 3)) [.find, .find, .clear 0, .numClear, .find]).1 =
    [.number 0, .number 1, .void, .number 2, .number 0] := by
  decide

end Nachos.Analysis
