import Nachos.Analysis.UserMemory

/-!
# `User2System` after `System2User`

A text is copied out to the user with its terminating zero and fetched again. `System2User` stores
its bytes, through the page table, at the places of `addr`, `addr + 1` and so on: the main memory
is then the old one with these bytes scattered over it (`system2User_text`), whatever pages are
crossed and whatever frames they are in. `User2System` stops at the zero at the latest, so it
gives back the bytes it finds at these places. They are those of the text exactly if no later
byte has hidden an earlier one, which two pages in one frame can bring about, and if the
buffer can be had: `limit + 1` has to be an `int`.
-/

set_option autoImplicit false

namespace Nachos.Analysis

open Nachos.Library Nachos.Model

/-- A kernel buffer that holds `text` with zeros behind it. -/
def textBuffer (text : List Byte) : Buffer := placed (fun _ => 0#8) 0 text

theorem textBuffer_of_lt {text : List Byte} {k : ℕ} (hk : k < text.length) :
    textBuffer text k = text[k] := placed_apply _ _ hk

theorem textBuffer_of_le {text : List Byte} {k : ℕ} (hk : text.length ≤ k) :
    textBuffer text k = 0#8 := by
  simp [textBuffer, placed, hk]

theorem reached_textBuffer {text : List Byte} (hzero : 0#8 ∉ text) :
    Reached 0#8 (textBuffer text) text.length := by
  intro j hj heq
  rw [textBuffer_of_lt hj] at heq
  exact hzero (heq ▸ List.getElem_mem hj)

theorem copied_textBuffer {text : List Byte} (hzero : 0#8 ∉ text) {limit : ℕ}
    (hlimit : text.length ≤ limit) :
    copied 0#8 (textBuffer text) limit (fun _ => 0#8) = textBuffer text := by
  funext k
  by_cases hk : k < text.length
  · exact if_pos ⟨by omega, (reached_textBuffer hzero).mono hk.le⟩
  · unfold copied
    rw [textBuffer_of_le (Nat.not_lt.mp hk), ite_self]

section RoundTrip

variable {m : Machine} {addr : BitVec 32} {text : List Byte} {places : ℕ → ℕ}

/-- INTERNAL: the loop of `System2User` through bytes that are not zero, but for the last. -/
theorem system2UserFrom_scattered {buffer : Buffer} (n : ℕ) : ∀ (i : ℕ) (m₁ : Machine),
    Reached 0#8 buffer (i + n) → SamePlaces m m₁ →
    m₁.mainMemory = scattered (fun k => (places k : ℤ)) buffer m.mainMemory i →
    (∀ k ≤ i + n, place m (addr + BitVec.ofNat 32 k) = some (places k) ∧
      Writable m (addr + BitVec.ofNat 32 k)) →
    ∃ m', Machine.system2UserFrom addr buffer i (n + 1) m₁ = some (((i + n + 1 : ℕ) : ℤ), m') ∧
      SamePlaces m m' ∧
      m'.mainMemory = scattered (fun k => (places k : ℤ)) buffer m.mainMemory (i + n + 1) := by
  induction n with
  | zero =>
    intro i m₁ _ hsame hmem hmapped
    obtain ⟨hplace, hwritable⟩ := hmapped i (by omega)
    rw [← hsame.place] at hplace
    obtain ⟨m₂, hwrite, hsame₂, hmem₂⟩ := writeMem_place hsame.tlb hplace
      ((hsame.writable _).mpr hwritable) (buffer i)
    refine ⟨m₂, ?_, hsame.trans hsame₂, by rw [hmem₂, hmem]; rfl⟩
    unfold Machine.system2UserFrom
    simp only [hwrite]
    -- the loop ends with its last byte, whether or not it is zero
    unfold Machine.system2UserFrom
    exact ite_self _
  | succ n ih =>
    intro i m₁ hreached hsame hmem hmapped
    obtain ⟨hplace, hwritable⟩ := hmapped i (by omega)
    rw [← hsame.place] at hplace
    obtain ⟨m₂, hwrite, hsame₂, hmem₂⟩ := writeMem_place hsame.tlb hplace
      ((hsame.writable _).mpr hwritable) (buffer i)
    unfold Machine.system2UserFrom
    simp only [hwrite]
    rw [if_neg fun hz => hreached i (by omega) ((signExtend_eq_zero_iff _).mp hz)]
    have hnext : m₂.mainMemory = scattered (fun k => (places k : ℤ)) buffer m.mainMemory (i + 1) := by
      rw [hmem₂, hmem]
      rfl
    have hi : i + (n + 1) = i + 1 + n := by omega
    rw [hi] at hreached hmapped ⊢
    exact ih (i + 1) m₂ hreached (hsame.trans hsame₂) hnext hmapped

/-- INTERNAL: **`System2User` of a text with its zero** copies all its bytes.
SRCLINE: userprog/exception.cc:22-33 -/
theorem system2User_text (htlb : m.tlb = none) (hzero : 0#8 ∉ text)
    (hmapped : ∀ k ≤ text.length, place m (addr + BitVec.ofNat 32 k) = some (places k) ∧
      Writable m (addr + BitVec.ofNat 32 k)) :
    ∃ m', m.system2User addr ((text.length : ℤ) + 1) (textBuffer text) =
        some ((text.length : ℤ) + 1, m') ∧ SamePlaces m m' ∧
      m'.mainMemory = scattered (fun k => (places k : ℤ)) (textBuffer text) m.mainMemory
        (text.length + 1) := by
  have hstart : Reached 0#8 (textBuffer text) (0 + text.length) := by
    rw [Nat.zero_add]
    exact reached_textBuffer hzero
  have hmapped₀ : ∀ k ≤ 0 + text.length, place m (addr + BitVec.ofNat 32 k) = some (places k) ∧
      Writable m (addr + BitVec.ofNat 32 k) := fun k hk => hmapped k (by omega)
  have hrun := system2UserFrom_scattered text.length 0 m hstart (.refl htlb) rfl hmapped₀
  unfold Machine.system2User
  rw [if_neg (by omega), if_neg (by omega)]
  simpa using hrun

/-- INTERNAL: **what is fetched back.** With a zero byte at `addr + text.length`, `User2System` of
a buffer that can be had returns, and it returns the text exactly if the text is in memory.
SRCLINE: userprog/exception.cc:6-19 -/
theorem user2System_eq_text_iff (htlb : m.tlb = none) (hzero : 0#8 ∉ text) {limit : ℕ}
    (hlimit : limit + 1 < 2 ^ 31) (hle : text.length ≤ limit)
    (hmapped : ∀ k ≤ text.length, place m (addr + BitVec.ofNat 32 k) = some (places k))
    (hend : m.mainMemory (places text.length) = 0#8) :
    ∃ kernelBuf m', m.user2System addr limit = some (kernelBuf, m') ∧
      (kernelBuf = textBuffer text ↔
        ∀ k < text.length + 1, m.mainMemory (places k) = textBuffer text k) := by
  -- the bytes the loop can reach, up to the zero
  let u : ℕ → Byte := fun k => if k ≤ text.length then m.mainMemory (places k) else 0#8
  have hu : ∀ k ≤ text.length, u k = m.mainMemory (places k) := fun k hk => if_pos hk
  have hreach : ∀ k, Reached 0#8 u k → k ≤ text.length := by
    intro k hr
    by_contra hk
    exact hr text.length (by omega) ((hu _ le_rfl).trans hend)
  obtain ⟨m', hrun, -, -⟩ := user2System_eq (u := u) htlb hlimit fun k _ hr => by
    unfold seenByte
    rw [hmapped k (hreach k hr), Option.map_some, hu k (hreach k hr)]
  refine ⟨_, m', hrun, ?_⟩
  constructor
  · intro heq k hk
    rcases Nat.lt_succ_iff_lt_or_eq.mp hk with hk | rfl
    · have hcell := congrFun heq k
      -- a cell that was not reached is zero, and the text has no zero
      by_cases hr : Reached 0#8 u k
      · rw [copied, if_pos ⟨by omega, hr⟩, hu k hk.le] at hcell
        exact hcell
      · rw [copied, if_neg fun h => hr h.2, textBuffer_of_lt hk] at hcell
        exact absurd (hcell ▸ List.getElem_mem hk) hzero
    · rw [hend, textBuffer_of_le le_rfl]
  · intro hbytes
    have hueq : u = textBuffer text := by
      funext k
      by_cases hk : k ≤ text.length
      · rw [hu k hk, hbytes k (by omega)]
      · rw [textBuffer_of_le (by omega)]
        exact if_neg hk
    rw [hueq]
    exact copied_textBuffer hzero hle

/-- Addresses of the text that share a byte of memory hold the same byte of it. With the pages in
frames of their own no two addresses do. -/
def Unhidden (m : Machine) (addr : BitVec 32) (text : List Byte) : Prop :=
  ∀ i ≤ text.length, ∀ j ≤ text.length,
    place m (addr + BitVec.ofNat 32 i) = place m (addr + BitVec.ofNat 32 j) →
    textBuffer text i = textBuffer text j

theorem unhidden_of_exclusive (hx : Exclusive m) (hlen : text.length + 1 < 2 ^ 31)
    (hmapped : ∀ k ≤ text.length, (place m (addr + BitVec.ofNat 32 k)).isSome) :
    Unhidden m addr text := by
  intro i hi j hj hij
  obtain ⟨x, hplace⟩ := Option.isSome_iff_exists.mp (hmapped j hj)
  rw [add_ofNat_inj (by omega) (by omega) (hx _ _ x (hij.trans hplace) hplace)]

end RoundTrip

/-- SOURCE: userprog/exception.cc:6-33 — a text of non-zero bytes is copied to mapped, writable
addresses with its terminating zero: `System2User` returns the number of bytes and no other
byte of memory changes. The bytes are then those of the text and `User2System` gives the text
with zeros behind it exactly if `limit + 1` is an `int` and no byte hides another. -/
theorem user2System_system2User_iff {m : Machine} {addr : BitVec 32} {text : List Byte} {limit : ℕ}
    (htlb : m.tlb = none) (hzero : 0#8 ∉ text) (hlimit : limit < 2 ^ 31) (hle : text.length ≤ limit)
    (hmapped : ∀ k ≤ text.length, (place m (addr + BitVec.ofNat 32 k)).isSome ∧
      Writable m (addr + BitVec.ofNat 32 k)) :
    ∃ m', m.system2User addr ((text.length : ℤ) + 1) (textBuffer text) =
        some ((text.length : ℤ) + 1, m') ∧
      (∀ x : ℤ, (∀ k ≤ text.length, ∀ y : ℕ, place m (addr + BitVec.ofNat 32 k) = some y → x ≠ y) →
        m'.mainMemory x = m.mainMemory x) ∧
      ((∀ k ≤ text.length, seenByte m' (addr + BitVec.ofNat 32 k) = some (textBuffer text k)) ∧
          (∃ m'', m'.user2System addr limit = some (textBuffer text, m'')) ↔
        limit + 1 < 2 ^ 31 ∧ Unhidden m addr text) := by
  let places : ℕ → ℕ := fun k => (place m (addr + BitVec.ofNat 32 k)).getD 0
  have hplaces : ∀ k ≤ text.length, place m (addr + BitVec.ofNat 32 k) = some (places k) := by
    intro k hk
    obtain ⟨x, hplace⟩ := Option.isSome_iff_exists.mp (hmapped k hk).1
    simp only [places, hplace, Option.getD_some]
  obtain ⟨m', hrun, hsame, hmem⟩ := system2User_text htlb hzero fun k hk =>
    ⟨hplaces k hk, (hmapped k hk).2⟩
  have hseen : ∀ k ≤ text.length, seenByte m' (addr + BitVec.ofNat 32 k) =
      some (m'.mainMemory (places k)) := by
    intro k hk
    unfold seenByte
    rw [hsame.place, hplaces k hk, Option.map_some]
  -- the text is found in memory exactly if nothing is hidden
  have hfound : (∀ k < text.length + 1, m'.mainMemory (places k) = textBuffer text k) ↔
      Unhidden m addr text := by
    rw [hmem, scattered_apply_iff]
    constructor
    · intro h i hi j hj hij
      rw [hplaces i hi, hplaces j hj, Option.some.injEq] at hij
      exact h i (by omega) j (by omega) (by rw [hij])
    · intro h i hi j hj hij
      refine h i (by omega) j (by omega) ?_
      rw [hplaces i (by omega), hplaces j (by omega), Int.natCast_inj.mp hij]
  refine ⟨m', hrun, fun x hx => ?_, ?_⟩
  · rw [hmem]
    exact scattered_of_forall_ne fun k hk => (hx k (by omega) _ (hplaces k (by omega))).symm
  · constructor
    · rintro ⟨hbytes, m'', hfetch⟩
      refine ⟨?_, hfound.mp fun k hk => ?_⟩
      · by_contra hbig
        obtain rfl : limit = 2147483647 := by omega
        cases hfetch
      · exact Option.some.inj ((hseen k (by omega)).symm.trans (hbytes k (by omega)))
    · rintro ⟨hint, hhidden⟩
      have hbytes := hfound.mpr hhidden
      refine ⟨fun k hk => by rw [hseen k hk, hbytes k (by omega)], ?_⟩
      have hend : m'.mainMemory (places text.length) = 0#8 := by
        rw [hbytes _ (by omega), textBuffer_of_le le_rfl]
      obtain ⟨kernelBuf, m'', hfetch, htext⟩ := user2System_eq_text_iff hsame.tlb hzero hint hle
        (fun k hk => (hsame.place _).trans (hplaces k hk)) hend
      exact ⟨m'', by rw [hfetch, htext.mpr hbytes]⟩

/-- Two bytes on the last address of one page and the first of the next, with their zero. -/
theorem user2System_system2User_iff_two_pages :
    ∃ m', (Machine.mk (fun _ => 0#8) none (some (firstFrames 2))).system2User 127#32 3
        (textBuffer [72#8, 255#8]) = some (3, m') ∧
      ∃ m'', m'.user2System 127#32 32 = some (textBuffer [72#8, 255#8], m'') := by
  have hmapped : ∀ k ≤ [72#8, 255#8].length,
      (place ⟨fun _ => 0#8, none, some (firstFrames 2)⟩ (127#32 + BitVec.ofNat 32 k)).isSome ∧
        Writable ⟨fun _ => 0#8, none, some (firstFrames 2)⟩ (127#32 + BitVec.ofNat 32 k) := by
    intro k hk
    have hk' : k < 3 := Nat.lt_succ_of_le hk
    have hlt : (127#32 + BitVec.ofNat 32 k).toNat < 2 * pageSize := by
      rw [BitVec.toNat_add, BitVec.toNat_ofNat, BitVec.toNat_ofNat]
      simp only [pageSize, sectorSize]
      omega
    rw [place_firstFrames _ (by decide) hlt]
    exact ⟨rfl, writable_firstFrames _ hlt⟩
  have hhidden := unhidden_of_exclusive (exclusive_firstFrames (fun _ => 0#8) (n := 2) (by decide))
    (by decide) fun k hk => (hmapped k hk).1
  obtain ⟨m', hout, -, hback⟩ := user2System_system2User_iff rfl (by decide)
    (show 32 < 2 ^ 31 by decide) (by decide) hmapped
  exact ⟨m', hout, (hback.mpr ⟨by decide, hhidden⟩).2⟩

/-- With the largest `int` as its limit, `User2System` asks for a buffer of negative size. -/
theorem user2System_largest_limit :
    ∃ m', (Machine.mk (fun _ => 0#8) none (some (firstFrames 1))).system2User 0#32 1
        (textBuffer []) = some (1, m') ∧
      m'.user2System 0#32 2147483647 = none := by
  exact ⟨_, rfl, rfl⟩

end Nachos.Analysis
