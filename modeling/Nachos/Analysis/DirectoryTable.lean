import Mathlib.Data.List.Basic
import Nachos.Analysis.BitMapSet
import Nachos.Analysis.FileContents
import Nachos.Model.FileSystem

/-!
# Headers, directory entries and the free map in memory and on disk

What is written back and fetched again is what was written: a header through its sector,
an entry of the directory through its 20 bytes, the bitmap through its words. The
directory operations are described by what they do to the entries, and names by when
`strncmp` takes them for the same.
-/

set_option autoImplicit false

namespace Nachos.Analysis

open Nachos.Library Nachos.Model

variable {a bytes name : Buffer} {i n : ℕ} {directory : Directory}

/-! ## Names -/

/-- INTERNAL: two names agree for `strncmp` when they agree up to the end of the first one. -/
theorem strncmpEq_iff {a b : Buffer} :
    strncmpEq a b n = true ↔ ∀ k < n, (∀ j < k, a j ≠ 0#8) → a k = b k := by
  induction n with
  | zero => simp [strncmpEq]
  | succ n ih =>
    simp only [strncmpEq, Bool.and_eq_true, Bool.or_eq_true, List.any_eq_true, List.mem_range,
      beq_iff_eq, ih]
    constructor
    · rintro ⟨hlow, hlast⟩ k hk hpre
      rcases Nat.lt_succ_iff_lt_or_eq.mp hk with hk | rfl
      · exact hlow k hk hpre
      · rcases hlast with ⟨j, hj, hzero⟩ | heq
        · exact absurd hzero (hpre j hj)
        · exact heq
    · intro h
      refine ⟨fun k hk => h k (by omega), ?_⟩
      by_cases hpre : ∀ j < n, a j ≠ 0#8
      · exact Or.inr (h n (by omega) hpre)
      · push Not at hpre
        exact Or.inl hpre

theorem strncmpEq_symm {a b : Buffer} (h : strncmpEq a b n = true) : strncmpEq b a n = true := by
  rw [strncmpEq_iff] at *
  intro k hk hpre
  refine (h k hk ?_).symm
  intro j
  -- By induction on `j`: before the end of `b` the names agree, so `a` has not ended either.
  induction j using Nat.strong_induction_on with
  | _ j ih =>
    intro hj
    rw [h j (by omega) fun i hi => ih i hi (by omega)]
    exact hpre j hj

theorem strncmpEq_strncpy {a b dst : Buffer} (h : strncmpEq a (strncpy dst b n) n = true) :
    strncmpEq a b n = true := by
  rw [strncmpEq_iff] at *
  intro k
  induction k using Nat.strong_induction_on with
  | _ k ih =>
    intro hk hpre
    have hnozero : (List.range k).any (fun j => b j == 0#8) = false := by
      rw [List.any_eq_false]
      intro j hj
      rw [List.mem_range] at hj
      have heq := ih j hj (by omega) fun i hi => hpre i (by omega)
      have hne := hpre j hj
      rw [heq] at hne
      simpa using hne
    have hcopy := h k hk hpre
    unfold strncpy at hcopy
    rw [if_pos hk, hnozero] at hcopy
    exact hcopy

theorem strncmpEq_congr {a b b' : Buffer} (h : ∀ k < n, b' k = b k) :
    strncmpEq a b' n = strncmpEq a b n := by
  rw [Bool.eq_iff_iff, strncmpEq_iff, strncmpEq_iff]
  constructor
  · intro hb k hk hpre
    rw [← h k hk]
    exact hb k hk hpre
  · intro hb k hk hpre
    rw [h k hk]
    exact hb k hk hpre

/-! ## The directory operations -/

theorem findIndex_eq_none :
    directory.findIndex name = none ↔ ∀ i < directory.tableSize, directory.isNamed name i = false := by
  simp [Directory.findIndex]

theorem findIndex_eq_some (h : directory.findIndex name = some i) :
    i < directory.tableSize ∧ directory.isNamed name i = true := by
  have hmem := List.mem_of_find?_eq_some h
  rw [List.mem_range] at hmem
  exact ⟨hmem, List.find?_some h⟩

/-- INTERNAL: the entry `Add` stores.
SRCLINE: filesys/directory.cc:136-139 -/
def newEntry (directory : Directory) (i : ℕ) (name : Buffer) (newSector : ℤ) : DirectoryEntry :=
  ⟨true, BitVec.ofInt 32 newSector,
    fun k => strncpy (directory.table i).nameBuf name fileNameMaxLen k⟩

theorem add_cases (newSector : ℤ) (h : directory.findIndex name = none) :
    (directory.add name newSector = (false, directory) ∧
      ∀ i < directory.tableSize, (directory.table i).inUse = true) ∨
    ∃ i < directory.tableSize, (directory.table i).inUse = false ∧
      directory.add name newSector = (true, directory.setEntry i (newEntry directory i name newSector)) := by
  unfold Directory.add
  rw [h]
  simp only
  split
  · rename_i hnone
    exact Or.inl ⟨rfl, fun i hi => by simpa using List.find?_eq_none.mp hnone i (List.mem_range.mpr hi)⟩
  · rename_i i hi
    have hmem := List.mem_of_find?_eq_some hi
    rw [List.mem_range] at hmem
    exact Or.inr ⟨i, hmem, by simpa using List.find?_some hi, rfl⟩

theorem strncmpEq_newEntry (i : ℕ) (newSector : ℤ) (h : strncmpEq a name fileNameMaxLen = false) :
    strncmpEq a (newEntry directory i name newSector).nameBuf fileNameMaxLen = false := by
  rw [Bool.eq_false_iff] at *
  intro hcopy
  have hbuf : ∀ k < fileNameMaxLen, (newEntry directory i name newSector).nameBuf k =
      strncpy (directory.table i).nameBuf name fileNameMaxLen k := by
    intro k hk
    exact dif_pos (Nat.lt_succ_of_lt hk)
  rw [strncmpEq_congr hbuf] at hcopy
  exact h (strncmpEq_strncpy hcopy)

/-! ## Entries and headers as bytes -/

/-- INTERNAL: an entry read back from its own bytes. -/
theorem entry_ofBytes {entry : DirectoryEntry}
    (h : ∀ k < sizeofDirectoryEntry, bytes k = entry.toBytes k) :
    DirectoryEntry.ofBytes bytes = entry := by
  have huse : (bytes 0 != 0#8) = entry.inUse := by
    rw [h 0 (by decide)]
    cases hu : entry.inUse <;> simp [DirectoryEntry.toBytes, hu]
  have hsector : wordAt bytes 1 = entry.sector := by
    have hword : wordAt bytes 1 = wordAt (bytesOf fun _ => entry.sector) 1 := by
      refine wordAt_congr fun k hk hk' => ?_
      rw [h k (by simp only [sizeofDirectoryEntry]; omega), DirectoryEntry.toBytes, if_neg (by omega),
        if_neg (by omega), if_pos (by omega)]
    rw [hword, wordAt_bytesOf]
  have hname : (fun k : Fin (fileNameMaxLen + 1) => bytes (8 + k)) = entry.name := by
    funext k
    have hk : (k : ℕ) < fileNameMaxLen + 1 := k.isLt
    have hk20 : 8 + (k : ℕ) < sizeofDirectoryEntry := by
      simp only [sizeofDirectoryEntry, fileNameMaxLen] at *
      omega
    rw [h _ hk20, DirectoryEntry.toBytes, if_neg (by omega), if_neg (by omega), if_neg (by omega),
      Nat.add_sub_cancel_left]
    exact dif_pos hk
  unfold DirectoryEntry.ofBytes
  rw [huse, hsector, hname]

theorem directory_ofBytes {directory directory' : Directory}
    (h : ∀ k, i * sizeofDirectoryEntry ≤ k → k < (i + 1) * sizeofDirectoryEntry →
      bytes k = directory.toBytes k) :
    (directory'.ofBytes bytes).table i = directory.table i := by
  show DirectoryEntry.ofBytes (fun k => bytes (sizeofDirectoryEntry * i + k)) = directory.table i
  refine entry_ofBytes fun k hk => ?_
  have hdiv : (sizeofDirectoryEntry * i + k) / sizeofDirectoryEntry = i := by
    simp only [sizeofDirectoryEntry] at *
    omega
  have hmod : (sizeofDirectoryEntry * i + k) % sizeofDirectoryEntry = k := by
    simp only [sizeofDirectoryEntry] at *
    omega
  rw [h _ (by simp only [sizeofDirectoryEntry] at *; omega)
    (by simp only [sizeofDirectoryEntry] at *; omega), Directory.toBytes, hdiv, hmod]

/-- INTERNAL: a header read back from its own sector. -/
theorem ofSector_toSector (hdr : FileHeader) : FileHeader.ofSector hdr.toSector = hdr := by
  have hword : ∀ i < 32, wordAt (fun k => if h : k < sectorSize then hdr.toSector ⟨k, h⟩ else 0#8) i =
      hdr.words i := by
    intro i hi
    rw [← wordAt_bytesOf hdr.words i]
    refine wordAt_congr fun k hk hk' => ?_
    have hlt : k < sectorSize := by
      simp only [sectorSize]
      omega
    exact dif_pos hlt
  have hdata : (fun i : Fin numDirect => hdr.words (i + 2)) = hdr.dataSectors := by
    funext i
    have hi : (i : ℕ) + 2 - 2 < numDirect := i.isLt
    simp [FileHeader.words]
  unfold FileHeader.ofSector
  simp only
  rw [hword 0 (by omega), hword 1 (by omega)]
  have hrest : (fun i : Fin numDirect => wordAt
      (fun k => if h : k < sectorSize then hdr.toSector ⟨k, h⟩ else 0#8) (i + 2)) = hdr.dataSectors := by
    rw [← hdata]
    funext i
    refine hword _ ?_
    have hi : (i : ℕ) < numDirect := i.isLt
    simp only [numDirect, sectorSize] at hi
    omega
  rw [hrest]
  rfl

theorem wordAt_of_bytes {words : ℕ → BitVec 32} (h : ∀ k < n, bytes k = bytesOf words k)
    (hi : 4 * i + 4 ≤ n) : wordAt bytes i = words i := by
  rw [← wordAt_bytesOf words i]
  exact wordAt_congr fun k _ hk => h k (by omega)

end Nachos.Analysis
