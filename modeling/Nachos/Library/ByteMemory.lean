import Mathlib.Data.BitVec
import Nachos.Library.LittleEndian

/-!
# Words and regions of a memory of bytes

A memory is a function from 32-bit addresses to bytes, read and written a little-endian word at
a time. Two words are apart if they have no byte in common; after a list of stores that are
apart, each word holds what was stored (`readWord_writeAll_of_mem`), and a word that is apart from all
of them what it held. A region is given by its lowest address and its number of bytes. Words of
regions that do not meet are apart (`Apart.words`), so what one party stores into its own
regions is not seen in another's.
-/

set_option autoImplicit false

namespace Nachos.Library

section Words

/-- The word whose first byte is at `a`. -/
def readWord (mem : BitVec 32 → BitVec 8) (a : BitVec 32) : BitVec 32 :=
  wordAt (fun k => mem (a + BitVec.ofNat 32 k)) 0

/-- The memory after the word `v` is stored at `a`. -/
def writeWord (mem : BitVec 32 → BitVec 8) (a v b : BitVec 32) : BitVec 8 :=
  if (b - a).toNat < 4 then bytesOf (fun _ => v) (b - a).toNat else mem b

/-- The words at `a` and at `b` have no byte in common. -/
def WordsApart (a b : BitVec 32) : Prop := 4 ≤ (a - b).toNat ∧ 4 ≤ (b - a).toNat

instance (a b : BitVec 32) : Decidable (WordsApart a b) :=
  inferInstanceAs (Decidable (_ ∧ _))

/-- The memory after a list of stores, the first one first. -/
def writeAll (mem : BitVec 32 → BitVec 8) : List (BitVec 32 × BitVec 32) → BitVec 32 → BitVec 8
  | [] => mem
  | (a, v) :: rest => writeAll (writeWord mem a v) rest

variable {mem mem' : BitVec 32 → BitVec 8} {a b d e v : BitVec 32}
  {stores : List (BitVec 32 × BitVec 32)}

theorem readWord_congr (h : ∀ k < 4, mem' (a + BitVec.ofNat 32 k) = mem (a + BitVec.ofNat 32 k)) :
    readWord mem' a = readWord mem a :=
  wordAt_congr fun k _ hk => h k (by omega)

theorem readWord_writeWord_self : readWord (writeWord mem a v) a = v := by
  refine (wordAt_congr fun k _ hk => ?_).trans (wordAt_bytesOf (fun _ => v) 0)
  have hback : (a + BitVec.ofNat 32 k - a).toNat = k := by
    rw [add_sub_cancel_left, BitVec.toNat_ofNat]
    exact Nat.mod_eq_of_lt (by omega)
  simp only [writeWord, hback]
  exact if_pos (by omega)

theorem readWord_writeWord_of_apart (h : WordsApart a b) :
    readWord (writeWord mem a v) b = readWord mem b := by
  obtain ⟨h₁, h₂⟩ := h
  refine readWord_congr fun k hk => if_neg ?_
  simp only [BitVec.toNat_sub, BitVec.toNat_add, BitVec.toNat_ofNat] at h₁ h₂ ⊢
  omega

theorem writeWord_of_outside (h : 4 ≤ (b - a).toNat) : writeWord mem a v b = mem b :=
  if_neg (Nat.not_lt.mpr h)

theorem WordsApart.symm (h : WordsApart a b) : WordsApart b a := ⟨h.2, h.1⟩

/-- Two words at offsets from one address. -/
theorem WordsApart.add (h : WordsApart d e) (a : BitVec 32) : WordsApart (a + d) (a + e) := by
  unfold WordsApart
  rw [add_sub_add_left_eq_sub, add_sub_add_left_eq_sub]
  exact h

/-- A word that is apart from all that are stored keeps its value. -/
theorem readWord_writeAll_of_apart (h : ∀ st ∈ stores, WordsApart st.1 a) :
    readWord (writeAll mem stores) a = readWord mem a := by
  induction stores generalizing mem with
  | nil => rfl
  | cons st rest ih =>
    obtain ⟨b, v⟩ := st
    rw [writeAll, ih fun st' hst' => h st' (List.mem_cons_of_mem _ hst')]
    exact readWord_writeWord_of_apart (h (b, v) List.mem_cons_self)

/-- With all words apart, each store is what its word ends with. -/
theorem readWord_writeAll_of_mem (hapart : stores.Pairwise fun st st' => WordsApart st.1 st'.1)
    (h : (a, v) ∈ stores) : readWord (writeAll mem stores) a = v := by
  induction stores generalizing mem with
  | nil => cases h
  | cons st rest ih =>
    rw [List.pairwise_cons] at hapart
    rcases List.mem_cons.mp h with rfl | hrest
    · rw [writeAll, readWord_writeAll_of_apart fun st' hst' => (hapart.1 st' hst').symm]
      exact readWord_writeWord_self
    · exact ih hapart.2 hrest

/-- A byte of none of the words stays. -/
theorem writeAll_of_outside (h : ∀ st ∈ stores, 4 ≤ (a - st.1).toNat) :
    writeAll mem stores a = mem a := by
  induction stores generalizing mem with
  | nil => rfl
  | cons st rest ih =>
    obtain ⟨b, v⟩ := st
    rw [writeAll, ih fun st' hst' => h st' (List.mem_cons_of_mem _ hst')]
    exact writeWord_of_outside (h (b, v) List.mem_cons_self)

end Words

section Regions

/-- The address `a` is one of the `n` bytes from `lo` on. -/
def Within (lo : BitVec 32) (n : ℕ) (a : BitVec 32) : Prop :=
  lo.toNat ≤ a.toNat ∧ a.toNat < lo.toNat + n

/-- The word at `a` lies in the `n` bytes from `lo` on, and these in the memory. -/
def WordIn (lo : BitVec 32) (n : ℕ) (a : BitVec 32) : Prop :=
  lo.toNat ≤ a.toNat ∧ a.toNat + 4 ≤ lo.toNat + n ∧ lo.toNat + n ≤ 2 ^ 32

/-- The `n` bytes from `lo` on and the `n'` bytes from `lo'` on do not meet. -/
def Apart (lo : BitVec 32) (n : ℕ) (lo' : BitVec 32) (n' : ℕ) : Prop :=
  lo.toNat + n ≤ lo'.toNat ∨ lo'.toNat + n' ≤ lo.toNat

instance (lo : BitVec 32) (n : ℕ) (a : BitVec 32) : Decidable (Within lo n a) :=
  inferInstanceAs (Decidable (_ ∧ _))

instance (lo : BitVec 32) (n : ℕ) (lo' : BitVec 32) (n' : ℕ) : Decidable (Apart lo n lo' n') :=
  inferInstanceAs (Decidable (_ ∨ _))

variable {lo lo' a b d : BitVec 32} {n n' : ℕ} {mem mem' : BitVec 32 → BitVec 8}

theorem Apart.symm (h : Apart lo n lo' n') : Apart lo' n' lo n :=
  Or.symm h

theorem Apart.not_within (h : Apart lo n lo' n') (ha : Within lo n a) : ¬ Within lo' n' a := by
  intro hb
  obtain ⟨ha₁, ha₂⟩ := ha
  obtain ⟨hb₁, hb₂⟩ := hb
  rcases h with h | h <;> omega

theorem Apart.words (h : Apart lo n lo' n') (ha : WordIn lo n a) (hb : WordIn lo' n' b) :
    WordsApart a b := by
  obtain ⟨ha₁, ha₂, ha₃⟩ := ha
  obtain ⟨hb₁, hb₂, hb₃⟩ := hb
  unfold WordsApart
  rw [BitVec.toNat_sub, BitVec.toNat_sub]
  rcases h with h | h <;> omega

/-- An offset in a region that does not run over the end of memory. -/
theorem wordIn_add (hfit : lo.toNat + n ≤ 2 ^ 32) (hd : d.toNat + 4 ≤ n) : WordIn lo n (lo + d) := by
  unfold WordIn
  rw [BitVec.toNat_add, Nat.mod_eq_of_lt (by omega)]
  omega

theorem WordIn.mono (h : WordIn lo n a) (hlo : lo'.toNat ≤ lo.toNat)
    (hhi : lo.toNat + n ≤ lo'.toNat + n') (hfit : lo'.toNat + n' ≤ 2 ^ 32) : WordIn lo' n' a :=
  ⟨hlo.trans h.1, h.2.1.trans hhi, hfit⟩

theorem WordIn.outside (h : WordIn lo n a) (hb : ¬ Within lo n b) : 4 ≤ (b - a).toNat := by
  obtain ⟨h₁, h₂, h₃⟩ := h
  unfold Within at hb
  rw [BitVec.toNat_sub]
  omega

/-- A word depends on the bytes of a region it lies in. -/
theorem WordIn.readWord_congr (h : WordIn lo n a) (hsame : ∀ b, Within lo n b → mem' b = mem b) :
    readWord mem' a = readWord mem a := by
  obtain ⟨h₁, h₂, h₃⟩ := h
  refine Library.readWord_congr fun k hk => hsame _ ?_
  unfold Within
  rw [BitVec.toNat_add, BitVec.toNat_ofNat, Nat.mod_eq_of_lt (by omega : k < 2 ^ 32),
    Nat.mod_eq_of_lt (by omega)]
  omega

end Regions

end Nachos.Library
