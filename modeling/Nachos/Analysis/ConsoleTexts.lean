import Mathlib.Data.Nat.Digits.Lemmas
import Nachos.Analysis.UserMemory
import Nachos.Model.ConsoleCalls

/-!
# What the console calls print

`PrintNum` puts the digits of a number into its buffer with the last one first, the sign behind
them, and turns the buffer round. The digits are those of `Nat.digits`, so that what is sent is the
decimal representation of the number (`decimal`) as long as digits and sign fit into ten bytes. They
do for every number that is not negative; the sign of a negative one needs a byte of its own.

`PrintString` sends as many bytes as its buffer has, however long the string is.
-/

set_option autoImplicit false

namespace Nachos.Analysis

open Nachos.Library Nachos.Model

/-! ## Decimal representations -/

/-- The character of a decimal digit. -/
def digitChar (d : ℕ) : Byte := BitVec.ofNat 8 (0x30 + d)

/-- The decimal representation of an integer: a minus sign if it is negative, and the digits from
the first one on, which is zero for the number zero only. -/
def decimal (n : ℤ) : List Byte :=
  (if n < 0 then [Terminal.minusChar] else []) ++
    if n = 0 then [digitChar 0] else (Nat.digits 10 n.natAbs).reverse.map digitChar

theorem ofInt_digit (num : ℕ) :
    BitVec.ofInt 8 ((num : ℤ) % 10 + Terminal.zeroChar) = digitChar (num % 10) := by
  have hcast : (num : ℤ) % 10 + Terminal.zeroChar = ((0x30 + num % 10 : ℕ) : ℤ) := by
    unfold Terminal.zeroChar
    omega
  rw [hcast, BitVec.ofInt_natCast]
  rfl

theorem digits_of_pos {num : ℕ} (h : 0 < num) :
    Nat.digits 10 num = num % 10 :: Nat.digits 10 (num / 10) :=
  Nat.digits_def' (by omega) h

/-! ## The loops of `PrintNum` -/

/-- INTERNAL: the digit loop with room for all digits. -/
theorem digitsFrom_eq (num : ℕ) : ∀ (leng : ℕ) (out : Buffer),
    leng + (Nat.digits 10 num).length ≤ 10 →
    Terminal.digitsFrom num leng out = some (leng + (Nat.digits 10 num).length,
      placed out leng ((Nat.digits 10 num).map digitChar)) := by
  induction num using Nat.strong_induction_on with
  | _ num ih =>
    intro leng out hroom
    unfold Terminal.digitsFrom
    by_cases hpos : 0 < num
    · rw [digits_of_pos hpos, List.length_cons] at hroom ⊢
      have hstore : Terminal.storeOut out leng (BitVec.ofInt 8 ((num : ℤ) % 10 + Terminal.zeroChar)) =
          some (Function.update out leng (digitChar (num % 10))) := by
        rw [ofInt_digit]
        exact if_pos (by omega)
      rw [if_pos hpos]
      simp only [hstore]
      rw [ih (num / 10) (by omega) (leng + 1) _ (by omega), List.map_cons, placed_cons,
        show leng + 1 + (Nat.digits 10 (num / 10)).length =
          leng + ((Nat.digits 10 (num / 10)).length + 1) by omega]
    · obtain rfl : num = 0 := by omega
      rw [if_neg hpos, Nat.digits_zero, List.map_nil, placed_nil]
      rfl

theorem length_digits_le {num : ℕ} (h : num < 2 ^ 31) : (Nat.digits 10 num).length ≤ 10 := by
  rw [Nat.digits_length_le_iff (by omega)]
  omega

theorem reverseFrom_mirroredBy (u : Buffer) {leng : ℕ} (n : ℕ) : ∀ i, i + n ≤ leng / 2 →
    Terminal.reverseFrom leng i n (mirroredBy u leng i) = mirroredBy u leng (i + n) := by
  induction n with
  | zero => exact fun i _ => rfl
  | succ n ih =>
    intro i hi
    unfold Terminal.reverseFrom
    have hswap := swapped_mirroredBy u (show i < leng / 2 by omega)
    unfold swapped at hswap
    rw [hswap, ih (i + 1) (by omega), show i + 1 + n = i + (n + 1) by omega]

theorem write_reverseFrom (t : Terminal) (out : Buffer) (text : List Byte) :
    t.write (Terminal.reverseFrom text.length 0 (text.length / 2) (placed out 0 text)) text.length =
      { t with display := t.display ++ text.reverse } := by
  have hturn := reverseFrom_mirroredBy (placed out 0 text) (text.length / 2) 0 (Nat.zero_add _).le
  rw [mirroredBy_zero, Nat.zero_add] at hturn
  unfold Terminal.write
  rw [hturn, Int.toNat_natCast, map_mirroredBy, map_range_placed]

/-! ## Every number -/

theorem printNum_of_pos (t : Terminal) {num : BitVec 32} (hpos : 0 < num.toInt) :
    t.printNum num = some { t with display := t.display ++ decimal num.toInt } := by
  have htoInt := num.toInt_lt
  have hlt : num.toInt.natAbs < 2 ^ 31 := by omega
  have hdigits := digitsFrom_eq num.toInt.natAbs 0 (fun _ => 0#8)
    (by rw [Nat.zero_add]; exact length_digits_le hlt)
  have hnat : (toInt32 (num.toInt * 1)).toNat = num.toInt.natAbs := by
    rw [Int.mul_one, toInt32_of_lt (by omega) (by omega)]
    omega
  unfold Terminal.printNum
  simp only [if_neg hpos.ne', if_pos hpos, hnat, hdigits, Nat.zero_add]
  have hsend := write_reverseFrom t (fun _ => 0#8) ((Nat.digits 10 num.toInt.natAbs).map digitChar)
  rw [List.length_map] at hsend
  simp only [show ((1 : ℤ) = -1) = False by simp, if_false, Option.map_some, hsend]
  rw [decimal, if_neg (by omega), if_neg hpos.ne', List.nil_append, List.map_reverse]

theorem toNat_neg_toInt {num : BitVec 32} (hneg : num.toInt < 0) :
    (toInt32 (num.toInt * -1)).toNat = if num.toInt = -2 ^ 31 then 0 else num.toInt.natAbs := by
  have hle := num.le_toInt
  by_cases hmin : num.toInt = -2 ^ 31
  · rw [if_pos hmin, hmin]
    rfl
  · rw [if_neg hmin, toInt32_of_lt (by omega) (by omega)]
    omega

/-- INTERNAL: a negative number whose digits leave room for the sign. -/
theorem printNum_of_room (t : Terminal) {num : BitVec 32} (hneg : num.toInt < 0)
    (hroom : -10 ^ 9 < num.toInt) :
    t.printNum num = some { t with display := t.display ++ decimal num.toInt } := by
  have hlen : (Nat.digits 10 num.toInt.natAbs).length ≤ 9 := by
    rw [Nat.digits_length_le_iff (by omega)]
    omega
  have hdigits := digitsFrom_eq num.toInt.natAbs 0 (fun _ => 0#8) (by omega)
  have hnat := toNat_neg_toInt hneg
  rw [if_neg (by omega)] at hnat
  have hsign : Terminal.storeOut (placed (fun _ => 0#8) 0 ((Nat.digits 10 num.toInt.natAbs).map digitChar))
      (Nat.digits 10 num.toInt.natAbs).length Terminal.minusChar =
      some (placed (fun _ => 0#8) 0
        ((Nat.digits 10 num.toInt.natAbs).map digitChar ++ [Terminal.minusChar])) := by
    rw [Terminal.storeOut, if_pos (by omega), ← update_placed, Nat.zero_add, List.length_map]
  have hsend := write_reverseFrom t (fun _ => 0#8)
    ((Nat.digits 10 num.toInt.natAbs).map digitChar ++ [Terminal.minusChar])
  rw [List.length_append, List.length_map, List.length_singleton] at hsend
  unfold Terminal.printNum
  simp only [if_neg hneg.ne, if_neg (show ¬ num.toInt > 0 by omega), hnat, hdigits, Nat.zero_add,
    if_true, hsign, Option.map_some, hsend]
  rw [decimal, if_pos hneg, if_neg hneg.ne, List.reverse_append, List.map_reverse]
  rfl

theorem printNum_of_ten_digits (t : Terminal) {num : BitVec 32} (hmin : num.toInt ≠ -2 ^ 31)
    (htoo : num.toInt ≤ -10 ^ 9) : t.printNum num = none := by
  have hle := num.le_toInt
  have hlen : (Nat.digits 10 num.toInt.natAbs).length = 10 := by
    have hle10 : (Nat.digits 10 num.toInt.natAbs).length ≤ 10 := length_digits_le (by omega)
    have hnot9 : ¬ (Nat.digits 10 num.toInt.natAbs).length ≤ 9 := by
      rw [Nat.digits_length_le_iff (by omega)]
      omega
    omega
  have hdigits := digitsFrom_eq num.toInt.natAbs 0 (fun _ => 0#8) (by omega)
  have hnat := toNat_neg_toInt (show num.toInt < 0 by omega)
  rw [if_neg hmin] at hnat
  unfold Terminal.printNum
  simp only [if_neg (show ¬ num.toInt = 0 by omega), if_neg (show ¬ num.toInt > 0 by omega), hnat,
    hdigits, Nat.zero_add, if_true, hlen]
  rfl

theorem printNum_min (t : Terminal) {num : BitVec 32} (hmin : num.toInt = -2 ^ 31) :
    t.printNum num = some { t with display := t.display ++ [Terminal.minusChar] } := by
  have hnat := toNat_neg_toInt (show num.toInt < 0 by omega)
  rw [if_pos hmin] at hnat
  have hnone : Terminal.digitsFrom 0 0 (fun _ => 0#8) = some (0, fun _ => 0#8) := by
    unfold Terminal.digitsFrom
    rfl
  unfold Terminal.printNum
  simp only [if_neg (show ¬ num.toInt = 0 by omega), if_neg (show ¬ num.toInt > 0 by omega), hnat,
    hnone, if_true]
  rfl

theorem decimal_ne_minus {n : ℤ} (h : n < 0) : decimal n ≠ [Terminal.minusChar] := by
  intro heq
  have hdigits : Nat.digits 10 n.natAbs = [] := by
    rw [decimal, if_pos h, if_neg h.ne, List.singleton_append, List.cons.injEq, List.map_eq_nil_iff,
      List.reverse_eq_nil_iff] at heq
    exact heq.2
  have hzero := Nat.digits_eq_nil_iff_eq_zero.mp hdigits
  omega

/-- SOURCE: userprog/exception.cc:86-113 — **`PrintNum` sends the decimal representation exactly of
the numbers above −10⁹**, and for these it stays in its buffer. Below, the sign does not fit behind
ten digits, and −2³¹ has no absolute value. -/
theorem printNum_iff (t : Terminal) (num : BitVec 32) :
    t.printNum num = some { t with display := t.display ++ decimal num.toInt } ↔
      -10 ^ 9 < num.toInt := by
  constructor
  · intro h
    by_contra htoo
    have htoo : num.toInt ≤ -10 ^ 9 := by omega
    by_cases hmin : num.toInt = -2 ^ 31
    · rw [printNum_min t hmin, Option.some.injEq, Terminal.mk.injEq, List.append_cancel_left_eq] at h
      exact decimal_ne_minus (by omega) h.2.symm
    · rw [printNum_of_ten_digits t hmin htoo] at h
      cases h
  · intro hroom
    rcases lt_trichotomy num.toInt 0 with hneg | hzero | hpos
    · exact printNum_of_room t hneg hroom
    · rw [hzero]
      unfold Terminal.printNum
      rw [if_pos hzero]
      rfl
    · exact printNum_of_pos t hpos

/-- SOURCE: userprog/exception.cc:102 — −10⁹ has ten digits, and its sign is stored as the eleventh
byte. -/
theorem printNum_sign_overruns :
    Terminal.printNum ⟨[], []⟩ (BitVec.ofInt 32 (-10 ^ 9)) = none := by
  exact printNum_of_ten_digits _ (by decide) (by decide)

/-! ## Strings -/

/-- SOURCE: userprog/exception.cc:149-155 — **`PrintString` sends the string exactly if it has 255
bytes**: `Write` is called for 255 bytes, so zeros follow a shorter string and a longer one is
cut. -/
theorem printString_iff (t : Terminal) {m : Machine} {addr : BitVec 32} {text : List Byte}
    (htlb : m.tlb = none) (htext : 0#8 ∉ text) (hstored : HoldsText m addr (text ++ [0#8])) :
    (∃ m', t.printString m addr = some ({ t with display := t.display ++ text }, m')) ↔
      text.length = 255 := by
  obtain ⟨m', hcopy, -, -⟩ := user2System_text htlb (show 255 + 1 < 2 ^ 31 by omega) hstored
    (Or.inr (List.mem_append_right text List.mem_cons_self))
  have hsent : t.printString m addr = some (t.write (fetched (text ++ [0#8]) 255) 255, m') := by
    unfold Terminal.printString
    rw [show (255 : ℤ) = ((255 : ℕ) : ℤ) by rfl, hcopy]
    rfl
  rw [hsent]
  constructor
  · rintro ⟨_, h⟩
    rw [Option.some.injEq, Prod.mk.injEq, Terminal.write, Terminal.mk.injEq,
      List.append_cancel_left_eq] at h
    have hlen := congrArg List.length h.1.2
    simpa using hlen.symm
  · intro hlen
    refine ⟨m', ?_⟩
    have hcells : (List.range 255).map (fetched (text ++ [0#8]) 255) = text := by
      refine (map_range_eq_iff hlen).mpr fun i hi => ?_
      rw [(fetched_eq_iff hi (by simp; omega)).mpr fun hzero => ?_,
        List.getElem_append_left (by omega), List.getElem?_eq_getElem (by omega)]
      rw [List.take_append_of_le_length (by omega)] at hzero
      exact absurd (List.mem_of_mem_take hzero) htext
    rw [Terminal.write, show (255 : ℤ).toNat = 255 by rfl, hcells]

/-- SOURCE: userprog/exception.cc:149-155 — a string of 255 bytes, which lies in two pages. -/
theorem longest_string_printed : ∃ m', Terminal.printString ⟨[], []⟩
    ⟨textMemory (List.replicate 255 0x61#8), none, some (firstFrames 2)⟩ 0#32 =
      some (⟨[], [] ++ List.replicate 255 0x61#8⟩, m') := by
  have htext : 0#8 ∉ List.replicate 255 0x61#8 := fun h => by
    cases List.eq_of_mem_replicate h
  have hstored := holdsText_textMemory (show 2 ≤ numPhysPages by decide)
    (show (List.replicate 255 0x61#8).length < 2 * pageSize by
      rw [List.length_replicate]
      decide)
  exact (printString_iff ⟨[], []⟩ rfl htext hstored).mpr List.length_replicate

/-- SOURCE: userprog/exception.cc:152 — after the one byte of the string, 254 zeros are sent. -/
theorem short_string_padded : (Terminal.printString ⟨[], []⟩
    ⟨textMemory [0x61#8], none, some (firstFrames 2)⟩ 0#32).map (fun r => r.1.display) =
      some (0x61#8 :: List.replicate 254 0x00#8) := by
  decide +kernel

end Nachos.Analysis
