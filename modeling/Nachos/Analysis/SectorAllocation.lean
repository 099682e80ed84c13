import Mathlib.Data.List.Range
import Nachos.Analysis.BitMapSet
import Nachos.Analysis.FileContents
import Nachos.Analysis.WordArithmetic

/-!
# What `Allocate` and `Deallocate` do to the free map

`dataList hdr` are the first `numSectors` data sectors of a header. `Allocate` makes a
header whose data list is what `Find` returned, one call for each sector, and
`Deallocate` clears exactly the data list, its assertion holding at every sector as long
as the list has no duplicate and is marked.
-/

set_option autoImplicit false

namespace Nachos.Analysis

open Nachos.Model

/-- The data sectors in use of a header. -/
def dataList (hdr : FileHeader) : List ℤ :=
  (List.range hdr.numSectors.toInt.toNat).map (dataSector hdr)

theorem mem_dataList {hdr : FileHeader} {n i : ℕ} (hn : hdr.numSectors.toInt = n) (hi : i < n) :
    dataSector hdr i ∈ dataList hdr := by
  have h : hdr.numSectors.toInt.toNat = n := by omega
  unfold dataList
  rw [h]
  exact List.mem_map_of_mem (List.mem_range.mpr hi)

theorem setSectorAt_eq (hdr : FileHeader) {i : ℕ} (hi : i < numDirect) (sector : ℤ) :
    ∃ hdr', hdr.setSectorAt i sector = some hdr' ∧ hdr'.numBytes = hdr.numBytes ∧
      hdr'.numSectors = hdr.numSectors ∧
      (-2 ^ 31 ≤ sector → sector < 2 ^ 31 → dataSector hdr' i = sector) ∧
      ∀ j, j ≠ i → dataSector hdr' j = dataSector hdr j := by
  refine ⟨_, dif_pos hi, rfl, rfl, fun hlo hhi => ?_, fun j hj => ?_⟩
  · rw [dataSector_eq hi]
    simp only [Function.update_self]
    exact toInt_ofInt_of_lt hlo hhi
  · by_cases hlt : j < numDirect
    · have hne : (⟨j, hlt⟩ : Fin numDirect) ≠ ⟨i, hi⟩ := fun heq => hj (Fin.mk.inj heq)
      rw [dataSector_eq hlt, dataSector_eq hlt]
      simp only [Function.update_of_ne hne]
    · simp [dataSector, FileHeader.sectorAt, hlt]

/-- INTERNAL: with enough clear bits the loop puts what `Find` returns into the header. -/
theorem allocateFrom_eq (n : ℕ) : ∀ (i : ℕ) (hdr : FileHeader) (b : BitMap),
    i + n ≤ numDirect → b.numBits ≤ 2 ^ 31 → n ≤ (clearSet b).card →
    ∃ l b' hdr', findMany n b = some (l, b') ∧
      FileHeader.allocateFrom i n hdr b = some (hdr', b') ∧
      (List.range' i n).map (dataSector hdr') = l ∧
      (∀ j < i, dataSector hdr' j = dataSector hdr j) ∧
      hdr'.numBytes = hdr.numBytes ∧ hdr'.numSectors = hdr.numSectors := by
  induction n with
  | zero => exact fun i hdr b _ _ _ => ⟨[], b, hdr, rfl, rfl, rfl, fun _ _ => rfl, rfl, rfl⟩
  | succ n ih =>
    intro i hdr b hi hbits hcard
    obtain ⟨k, hk, hfind, hclear⟩ := find_of_clear (Nat.lt_of_lt_of_le (Nat.succ_pos n) hcard)
    obtain ⟨hdr₁, hset, hbytes₁, hsectors₁, hself, hother⟩ :=
      setSectorAt_eq hdr (show i < numDirect by omega) k
    obtain ⟨l, b', hdr', hmany, halloc, hlist, hkeep, hbytes, hsectors⟩ :=
      ih (i + 1) hdr₁ (setBit b k) (by omega) hbits (le_card_clearSet_setBit hk hclear hcard)
    refine ⟨k :: l, b', hdr', ?_, ?_, ?_, ?_, hbytes.trans hbytes₁, hsectors.trans hsectors₁⟩
    · simp [findMany, hfind, hmany]
    · simp [FileHeader.allocateFrom, hfind, hset, halloc]
    · rw [List.range'_succ, List.map_cons, hlist, hkeep i (by omega), hself (by omega) (by omega)]
    · intro j hj
      rw [hkeep j (by omega), hother j (by omega)]

/-- INTERNAL: `Allocate` for a size a header can hold: it takes nothing and answers `FALSE`,
or takes as many sectors as the size needs. -/
theorem allocate_cases (hdr : FileHeader) {b : BitMap} (hbits : b.numBits = numSectors) {size : ℤ}
    (h0 : 0 ≤ size) (hmax : size ≤ maxFileSize) :
    (∃ hdr', hdr.allocate b size = some (false, hdr', b) ∧
      ((clearSet b).card : ℤ) < (size + 127) / 128) ∨
    ∃ n hdr' b' l, hdr.allocate b size = some (true, hdr', b') ∧ n ≤ (clearSet b).card ∧
      findMany n b = some (l, b') ∧ dataList hdr' = l ∧ (n : ℤ) = (size + 127) / 128 ∧
      hdr'.numBytes.toInt = size ∧ hdr'.numSectors.toInt = (size + 127) / 128 := by
  simp only [maxFileSize, numDirect, sectorSize] at hmax
  unfold FileHeader.allocate
  rw [numClear_eq, divRoundUpInt_sectorSize h0]
  simp only
  by_cases hfree : ((clearSet b).card : ℤ) < (size + 127) / 128
  · rw [if_pos hfree]
    exact Or.inl ⟨_, rfl, hfree⟩
  · rw [if_neg hfree]
    obtain ⟨n, hn⟩ := Int.eq_ofNat_of_zero_le (show 0 ≤ (size + 127) / 128 by omega)
    have hle : n ≤ (clearSet b).card := by omega
    obtain ⟨l, b', hdr', hmany, halloc, hlist, -, hbytes, hsectors⟩ :=
      allocateFrom_eq n 0 { hdr with
        numBytes := BitVec.ofInt 32 size, numSectors := BitVec.ofInt 32 ((size + 127) / 128) } b
        (by simp only [numDirect, sectorSize]; omega)
        (by rw [hbits]; simp [numSectors, sectorsPerTrack, numTracks]) hle
    have hsize : hdr'.numSectors.toInt = (size + 127) / 128 := by
      rw [hsectors]
      exact toInt_ofInt_of_lt (by omega) (by omega)
    refine Or.inr ⟨n, hdr', b', l, ?_, hle, hmany, ?_, hn.symm, ?_, hsize⟩
    · rw [hn, Int.toNat_natCast, ← hn, halloc]
      rfl
    · unfold dataList
      rw [hsize, hn, Int.toNat_natCast, List.range_eq_range', hlist]
    · rw [hbytes]
      exact toInt_ofInt_of_lt (by omega) (by omega)

theorem allocateFrom_le (n : ℕ) : ∀ {i : ℕ} {hdr hdr' : FileHeader} {b b' : BitMap},
    FileHeader.allocateFrom i n hdr b = some (hdr', b') → n = 0 ∨ i + n ≤ numDirect := by
  induction n with
  | zero => exact fun _ => Or.inl rfl
  | succ n ih =>
    intro i hdr hdr' b b' h
    right
    simp only [FileHeader.allocateFrom, Option.bind_eq_bind, Option.bind_eq_some_iff] at h
    obtain ⟨⟨sector, b₁⟩, -, hdr₁, hset, hrest⟩ := h
    have hlt : i < numDirect := by
      by_contra hge
      rw [FileHeader.setSectorAt, dif_neg hge] at hset
      cases hset
    have hle := ih hrest
    omega

theorem allocate_eq_none (hdr : FileHeader) {b : BitMap} {size : ℤ} (hmax : maxFileSize < size)
    (hfree : (size + 127) / 128 ≤ (clearSet b).card) : hdr.allocate b size = none := by
  simp only [maxFileSize, numDirect, sectorSize] at hmax
  unfold FileHeader.allocate
  rw [numClear_eq, divRoundUpInt_sectorSize (by omega)]
  simp only
  rw [if_neg (not_lt.mpr hfree), Option.map_eq_none_iff]
  by_contra h
  obtain ⟨⟨hdr', b'⟩, halloc⟩ := Option.ne_none_iff_exists'.mp h
  have hle := allocateFrom_le _ halloc
  simp only [numDirect, sectorSize] at hle
  omega

/-- INTERNAL: `Deallocate` clears the sectors it passes, and its assertion holds at each. -/
theorem deallocateFrom_eq (hdr : FileHeader) (n : ℕ) : ∀ (i : ℕ) (b : BitMap),
    i + n ≤ numDirect → ((List.range' i n).map (dataSector hdr)).Nodup →
    (∀ f ∈ (List.range' i n).map (dataSector hdr), f ∈ markedSet b) →
    ∃ b', hdr.deallocateFrom i n b = some b' ∧ b'.numBits = b.numBits ∧
      ∀ f, f ∈ markedSet b' ↔ f ∈ markedSet b ∧ f ∉ (List.range' i n).map (dataSector hdr) := by
  induction n with
  | zero => exact fun i b _ _ _ => ⟨b, rfl, rfl, by simp⟩
  | succ n ih =>
    intro i b hi hnodup hmarked
    rw [List.range'_succ, List.map_cons] at hnodup hmarked ⊢
    rw [List.nodup_cons] at hnodup
    have hfirst : dataSector hdr i ∈ markedSet b := hmarked _ List.mem_cons_self
    obtain ⟨b₁, hclear, hbits₁, hset₁⟩ := clear_of_mem hfirst
    obtain ⟨b', hrun, hbits, hset⟩ := ih (i + 1) b₁ (by omega) hnodup.2 (by
      intro f hf
      refine (hset₁ f).mpr ⟨hmarked f (List.mem_cons_of_mem _ hf), ?_⟩
      rintro rfl
      exact hnodup.1 hf)
    refine ⟨b', ?_, hbits.trans hbits₁, fun f => ?_⟩
    · simp [FileHeader.deallocateFrom, sectorAt_eq hdr (show i < numDirect by omega),
        test_eq_some_true_iff.mpr hfirst, hclear, hrun]
    · rw [hset, hset₁, List.mem_cons, not_or, and_assoc]

theorem deallocate_eq {hdr : FileHeader} {b : BitMap} (hle : hdr.numSectors.toInt ≤ numDirect)
    (hnodup : (dataList hdr).Nodup) (hmarked : ∀ f ∈ dataList hdr, f ∈ markedSet b) :
    ∃ b', hdr.deallocate b = some b' ∧ b'.numBits = b.numBits ∧
      ∀ f, f ∈ markedSet b' ↔ f ∈ markedSet b ∧ f ∉ dataList hdr := by
  unfold dataList at *
  rw [List.range_eq_range'] at *
  exact deallocateFrom_eq hdr _ 0 b (by omega) hnodup hmarked

end Nachos.Analysis
