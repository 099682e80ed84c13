import Nachos.Analysis.TransferRanges
import Nachos.Analysis.ConsoleTexts

/-!
# What the console calls read

A line is what is typed before a newline. `SynchConsole::Read` takes the first bytes of it, as many
as it is asked for, and the newline only if it comes before that many bytes are in the buffer
(`read_line`). Everything the calls do differently from what their names say follows from there.

`ReadNum` asks for nine bytes. It takes the newline of the lines with at most eight characters, and
its loop computes the value of the digits, which cannot overflow; it has no branch for a line
without digits, and leaves at once for an empty one. `ReadString` leaves at once, too, without
writing the terminator.
-/

set_option autoImplicit false

namespace Nachos.Analysis

open Nachos.Library Nachos.Model

variable {line rest : List Byte} {n : ℕ} {t : Terminal}

/-! ## Lines -/

/-- A line, without the newline that ends it: it has no byte that ends it before, and none that is
passed over. -/
def ConsoleLine (line : List Byte) : Prop := ∀ c ∈ line, c ≠ eof ∧ c ≠ 0x0A#8 ∧ c ≠ 0x01#8

/-- What is left of a line and the bytes behind it once `Read` has taken at most `n` bytes. -/
def leftOver (n : ℕ) (line rest : List Byte) : List Byte :=
  if line.length < n then rest else line.drop n ++ 0x0A#8 :: rest

/-- INTERNAL: the loop of `Read` with `loop` bytes in the buffer. -/
theorem readFrom_line (line : List Byte) :
    ∀ (loop : ℕ) (into : Buffer) (ch : Byte), ConsoleLine line → loop ≤ n → (loop < n ∨ ch ≠ 0x01#8) →
      Terminal.readFrom n (line ++ 0x0A#8 :: rest) loop into ch =
        some (((loop + (line.take (n - loop)).length : ℕ) : ℤ),
          placed into loop (line.take (n - loop)), leftOver (n - loop) line rest) := by
  induction line with
  | nil =>
    intro loop into ch _ hloop hch
    rw [List.take_nil, placed_nil, List.nil_append, Terminal.readFrom, leftOver]
    by_cases hlt : loop < n
    · rw [if_pos (by omega), if_neg (by decide), if_pos (Or.inl rfl), if_pos (by simpa using hlt)]
      rfl
    · rw [if_neg (by omega), if_neg (by simpa using hlt), Terminal.readResult,
        if_neg (hch.resolve_left hlt), List.drop_nil]
      rfl
  | cons c line ih =>
    intro loop into ch hline hloop hch
    obtain ⟨heof, hnewline, hone⟩ := hline c List.mem_cons_self
    rw [List.cons_append, Terminal.readFrom]
    by_cases hlt : loop < n
    · have htake : n - loop = n - (loop + 1) + 1 := by omega
      have hleft : leftOver (n - loop) (c :: line) rest = leftOver (n - (loop + 1)) line rest := by
        rw [leftOver, leftOver, htake, List.drop_succ_cons, List.length_cons]
        exact if_congr (by omega) rfl rfl
      rw [if_pos (by omega), if_neg heof, if_neg (not_or.mpr ⟨hnewline, hone⟩),
        ih (loop + 1) _ c (fun d hd => hline d (List.mem_cons_of_mem c hd)) hlt (Or.inr hone),
        placed_cons, hleft, htake, List.take_succ_cons, List.length_cons,
        show loop + 1 + (line.take (n - (loop + 1))).length =
          loop + ((line.take (n - (loop + 1))).length + 1) by omega]
    · obtain rfl : loop = n := by omega
      rw [if_neg (by omega), Terminal.readResult, if_neg (hch.resolve_left hlt), Nat.sub_self,
        List.take_zero, placed_nil, leftOver, if_neg (by simp)]
      rfl

/-- The buffer after `Read` has taken `taken`. -/
def readBuffer (into : Buffer) (n : ℕ) (taken : List Byte) : Buffer :=
  placed (fun k => if (k : ℤ) < n then 0#8 else into k) 0 taken

/-- INTERNAL: **`Read` takes the first `n` bytes of a line.**
SRCLINE: threads/synchcons.cc:95-136 -/
theorem read_line (hline : ConsoleLine line) (htyped : t.typed = line ++ 0x0A#8 :: rest)
    (hn : 0 < n) (into : Buffer) (ch : Byte) :
    t.read into n ch = some (((line.take n).length : ℤ), readBuffer into n (line.take n),
      { t with typed := leftOver n line rest }) := by
  unfold Terminal.read
  rw [htyped, readFrom_line line 0 _ ch hline (Nat.zero_le n) (Or.inl hn), Nat.sub_zero, Nat.zero_add]
  rfl

theorem leftOver_eq_rest_iff : leftOver n line rest = rest ↔ line.length < n := by
  unfold leftOver
  constructor
  · intro h
    by_contra hlt
    rw [if_neg hlt] at h
    have hlen := congrArg List.length h
    rw [List.length_append, List.length_cons] at hlen
    omega
  · exact fun h => if_pos h

/-! ## Numbers -/

/-- A decimal digit. -/
def IsDigit (c : Byte) : Prop := 0x30 ≤ c.toNat ∧ c.toNat ≤ 0x39

instance (c : Byte) : Decidable (IsDigit c) := inferInstanceAs (Decidable (_ ∧ _))

/-- The number that the digits `ds` behind the digits of `v` make. -/
def digitsValue (v : ℕ) (ds : List Byte) : ℕ := ds.foldl (fun v c => v * 10 + (c.toNat - 0x30)) v

/-- The digits of a numeral: what follows an optional minus sign. -/
def numeralDigits (line : List Byte) : List Byte :=
  if line.head? = some Terminal.minusChar then line.tail else line

/-- The value of a numeral. -/
def numeralValue (line : List Byte) : ℤ :=
  if line.head? = some Terminal.minusChar then -digitsValue 0 (numeralDigits line)
  else digitsValue 0 (numeralDigits line)

/-- How a call that reads a number has to end on a line. -/
def lineFinish (line : List Byte) : Finish :=
  if numeralDigits line ≠ [] ∧ (∀ c ∈ numeralDigits line, IsDigit c) ∧
      -2 ^ 31 ≤ numeralValue line ∧ numeralValue line < 2 ^ 31 then
    .result (numeralValue line)
  else .halt

theorem isDigit_iff (c : Byte) :
    c.toInt ≥ Terminal.zeroChar ∧ c.toInt ≤ 0x39 ↔ IsDigit c := by
  have hlt := c.isLt
  unfold IsDigit Terminal.zeroChar
  rw [BitVec.toInt_eq_toNat_cond]
  split_ifs with h
  · omega
  · push_cast
    omega

theorem digitsValue_lt (v : ℕ) (ds : List Byte) (hds : ∀ c ∈ ds, IsDigit c) :
    digitsValue v ds < (v + 1) * 10 ^ ds.length := by
  induction ds generalizing v with
  | nil => simp [digitsValue]
  | cons c ds ih =>
    have hc := (hds c List.mem_cons_self).2
    have hnext := ih (v * 10 + (c.toNat - 0x30)) fun d hd => hds d (List.mem_cons_of_mem c hd)
    calc digitsValue v (c :: ds) = digitsValue (v * 10 + (c.toNat - 0x30)) ds := rfl
      _ < (v * 10 + (c.toNat - 0x30) + 1) * 10 ^ ds.length := hnext
      _ ≤ ((v + 1) * 10) * 10 ^ ds.length := Nat.mul_le_mul_right _ (by omega)
      _ = (v + 1) * 10 ^ (c :: ds).length := by rw [List.length_cons, Nat.pow_succ']; ring

/-- INTERNAL: **the loop computes the value**, and leaves at a character that is no digit. No
intermediate value is larger than `2³¹`.
SRCLINE: userprog/exception.cc:72-80 -/
theorem parseFrom_eq (num : Buffer) (ds : List Byte) : ∀ (i v : ℕ),
    (∀ k, (hk : k < ds.length) → num (i + k) = ds[k]) → (v + 1) * 10 ^ ds.length ≤ 2 ^ 31 →
    Terminal.parseFrom num i ds.length v =
      if ∀ c ∈ ds, IsDigit c then some (digitsValue v ds : ℤ) else none := by
  induction ds with
  | nil =>
    intro i v _ _
    rw [if_pos (by simp)]
    rfl
  | cons c ds ih =>
    intro i v hcells hbound
    have hc : num i = c := hcells 0 (by simp)
    rw [List.length_cons, Terminal.parseFrom, hc]
    by_cases hdigit : IsDigit c
    · have hpow : 1 ≤ 10 ^ ds.length := Nat.one_le_pow _ _ (by omega)
      have hnext : (v * 10 + (c.toNat - 0x30) + 1) * 10 ^ ds.length ≤ 2 ^ 31 := by
        calc (v * 10 + (c.toNat - 0x30) + 1) * 10 ^ ds.length
            ≤ ((v + 1) * 10) * 10 ^ ds.length := Nat.mul_le_mul_right _ (by unfold IsDigit at hdigit; omega)
          _ = (v + 1) * 10 ^ (c :: ds).length := by rw [List.length_cons, Nat.pow_succ']; ring
          _ ≤ 2 ^ 31 := hbound
      have hsmall : v * 10 + (c.toNat - 0x30) + 1 ≤ 2 ^ 31 :=
        (Nat.le_mul_of_pos_right _ hpow).trans hnext
      have hans : toInt32 ((v : ℤ) * 10 + (c.toInt - Terminal.zeroChar)) =
          ((v * 10 + (c.toNat - 0x30) : ℕ) : ℤ) := by
        obtain ⟨hlow, hhigh⟩ := hdigit
        have hsigned : c.toInt = c.toNat := by
          rw [BitVec.toInt_eq_toNat_cond, if_pos (by omega)]
        unfold Terminal.zeroChar
        rw [hsigned, toInt32_of_lt (by omega) (by omega)]
        omega
      rw [if_pos ((isDigit_iff c).mpr hdigit), hans, ih (i + 1) _ ?_ hnext]
      · exact if_congr (by simp [hdigit]) rfl rfl
      · intro k hk
        have hcell := hcells (k + 1) (by simpa using hk)
        rw [show i + 1 + k = i + (k + 1) by omega, hcell]
        rfl
    · rw [if_neg fun h => hdigit ((isDigit_iff c).mp h), if_neg fun h => hdigit (h c List.mem_cons_self)]

theorem digitsValue_numeral_lt (hlen : line.length ≤ 9) (hall : ∀ c ∈ numeralDigits line, IsDigit c) :
    digitsValue 0 (numeralDigits line) < 10 ^ 9 := by
  have hle : (numeralDigits line).length ≤ 9 := by
    unfold numeralDigits
    split_ifs
    · rw [List.length_tail]
      omega
    · exact hlen
  calc digitsValue 0 (numeralDigits line) < (0 + 1) * 10 ^ (numeralDigits line).length :=
        digitsValue_lt 0 _ hall
    _ = 10 ^ (numeralDigits line).length := Nat.one_mul _
    _ ≤ 10 ^ 9 := Nat.pow_le_pow_right (by omega) hle

/-- INTERNAL: the loop on what `Read` has taken, behind an optional sign. -/
theorem parseFrom_taken (num : Buffer) {c : Byte} {ds : List Byte} (hlen : ds.length ≤ 8) :
    Terminal.parseFrom (readBuffer num 9 (c :: ds)) (if c = Terminal.minusChar then 1 else 0)
        ((c :: ds).length - if c = Terminal.minusChar then 1 else 0) 0 =
      if ∀ d ∈ numeralDigits (c :: ds), IsDigit d then
        some (digitsValue 0 (numeralDigits (c :: ds)) : ℤ)
      else none := by
  have hpow : (0 + 1) * 10 ^ ds.length ≤ 10 ^ 8 := by
    rw [Nat.zero_add, Nat.one_mul]
    exact Nat.pow_le_pow_right (by omega) hlen
  by_cases hminus : c = Terminal.minusChar
  · have hdigits : numeralDigits (c :: ds) = ds := if_pos (by rw [hminus]; rfl)
    rw [if_pos hminus, hdigits, List.length_cons, Nat.add_sub_cancel]
    refine parseFrom_eq _ ds 1 0 (fun k hk => ?_) (by omega)
    rw [Nat.add_comm 1 k]
    exact placed_apply _ (c :: ds) (by simpa using hk)
  · have hdigits : numeralDigits (c :: ds) = c :: ds := if_neg (by simpa using hminus)
    rw [if_neg hminus, hdigits, Nat.sub_zero]
    refine parseFrom_eq _ (c :: ds) 0 0 (fun k hk => ?_) (by rw [List.length_cons, Nat.pow_succ]; omega)
    rw [Nat.zero_add]
    exact placed_apply _ _ hk

/-- How `ReadNum` ends when `Read` has taken `taken`. -/
def takenFinish (taken : List Byte) : Finish :=
  if taken = [] then .silent
  else if ∀ c ∈ numeralDigits taken, IsDigit c then .result (numeralValue taken)
  else .halt

/-- INTERNAL: the branches behind `Read`. -/
theorem readNum_eq (hline : ConsoleLine line) (htyped : t.typed = line ++ 0x0A#8 :: rest)
    (num : Buffer) (ch : Byte) :
    t.readNum num ch =
      some (takenFinish (line.take 9), { t with typed := leftOver 9 line rest }) := by
  have hread := read_line hline htyped (show 0 < 9 by omega) num ch
  have hlen : (line.take 9).length ≤ 9 := List.length_take_le 9 line
  generalize line.take 9 = taken at hread hlen ⊢
  unfold Terminal.readNum
  rw [show (9 : ℤ) = ((9 : ℕ) : ℤ) by rfl, hread]
  simp only
  rw [if_neg (by omega)]
  cases taken with
  | nil => rfl
  | cons c ds =>
    have hfirst : readBuffer num 9 (c :: ds) 0 = c := placed_apply _ _ (by simp)
    have hds : ds.length ≤ 8 := by
      rw [List.length_cons] at hlen
      omega
    rw [hfirst, if_neg (by simp; omega), takenFinish, if_neg (List.cons_ne_nil c ds), Int.toNat_natCast,
      parseFrom_taken num hds]
    by_cases hall : ∀ d ∈ numeralDigits (c :: ds), IsDigit d
    · have hvalue := digitsValue_numeral_lt hlen hall
      rw [if_pos hall, if_pos hall, numeralValue, List.head?_cons]
      simp only [toInt32_of_lt (show -2 ^ 31 ≤ -(digitsValue 0 (numeralDigits (c :: ds)) : ℤ) by omega)
        (by omega), Option.some.injEq]
    · rw [if_neg hall, if_neg hall]

/-- INTERNAL: where the branches agree with the line. -/
theorem takenFinish_eq_lineFinish_iff (hlen : line.length ≤ 9) :
    takenFinish line = lineFinish line ↔ line ≠ [] ∧ line ≠ [Terminal.minusChar] := by
  have hfits : (∀ c ∈ numeralDigits line, IsDigit c) →
      -2 ^ 31 ≤ numeralValue line ∧ numeralValue line < 2 ^ 31 := by
    intro hall
    have hlt := digitsValue_numeral_lt hlen hall
    unfold numeralValue
    split_ifs <;> omega
  have hnone : numeralDigits line = [] ↔ line = [] ∨ line = [Terminal.minusChar] := by
    cases line with
    | nil => simp [numeralDigits]
    | cons c ds =>
      unfold numeralDigits
      by_cases hminus : c = Terminal.minusChar
      · simp [hminus]
      · simp [hminus]
  unfold takenFinish lineFinish
  by_cases hempty : line = []
  · subst hempty
    simp [numeralDigits]
  · rw [if_neg hempty]
    by_cases hsign : line = [Terminal.minusChar]
    · subst hsign
      decide
    · have hsome : numeralDigits line ≠ [] := fun h => (hnone.mp h).elim hempty hsign
      simp only [ne_eq, hempty, hsign, not_false_eq_true, and_self, iff_true, hsome, true_and]
      by_cases hall : ∀ c ∈ numeralDigits line, IsDigit c
      · rw [if_pos hall, if_pos ⟨hall, hfits hall⟩]
      · rw [if_neg hall, if_neg fun h => hall h.1]

/-- SOURCE: userprog/exception.cc:62-85 — **`ReadNum` does with a line what it should exactly if the
line has one to eight characters and is not a sign alone.** -/
theorem readNum_iff {t : Terminal} {line rest : List Byte} (hline : ConsoleLine line)
    (htyped : t.typed = line ++ 0x0A#8 :: rest) (num : Buffer) (ch : Byte) :
    t.readNum num ch = some (lineFinish line, { t with typed := rest }) ↔
      1 ≤ line.length ∧ line.length ≤ 8 ∧ line ≠ [Terminal.minusChar] := by
  rw [readNum_eq hline htyped, Option.some.injEq, Prod.mk.injEq, Terminal.mk.injEq,
    leftOver_eq_rest_iff, and_iff_left rfl]
  constructor
  · rintro ⟨hfinish, hlen⟩
    rw [List.take_of_length_le (by omega), takenFinish_eq_lineFinish_iff (by omega)] at hfinish
    exact ⟨List.length_pos_iff.mpr hfinish.1, by omega, hfinish.2⟩
  · rintro ⟨hpos, hlen, hsign⟩
    rw [List.take_of_length_le (by omega), takenFinish_eq_lineFinish_iff (by omega)]
    exact ⟨⟨List.length_pos_iff.mp hpos, hsign⟩, by omega⟩

/-- SOURCE: userprog/exception.cc:62-85 — the line `-12`. -/
theorem readNum_minus_twelve : Terminal.readNum ⟨[0x2D#8, 0x31#8, 0x32#8, 0x0A#8, 0x78#8], []⟩
    (fun _ => 0#8) 0#8 = some (lineFinish [0x2D#8, 0x31#8, 0x32#8], ⟨[0x78#8], []⟩) ∧
      lineFinish [0x2D#8, 0x31#8, 0x32#8] = .result (-12) := by
  have hline : ConsoleLine [0x2D#8, 0x31#8, 0x32#8] := by
    unfold ConsoleLine
    decide
  exact ⟨(readNum_iff hline rfl (fun _ => 0#8) 0#8).mpr (by decide), by decide⟩

/-- SOURCE: userprog/exception.cc:70 — for an empty line the call returns without a result. -/
theorem readNum_empty_line : Terminal.readNum ⟨[0x0A#8], []⟩ (fun _ => 0#8) 0#8 =
    some (.silent, ⟨[], []⟩) ∧ lineFinish [] = .halt := by
  decide

/-! ## Strings -/

/-- The user has `text`, with its terminator, in a buffer of `n + 1` bytes, and no other byte has
changed. -/
structure StringRead (m m' : Machine) (addr : BitVec 32) (n : ℕ) (text : List Byte) : Prop where
  holds : HoldsText m' addr (text ++ [0#8])
  others : ∀ a, (∀ k < n + 1, a ≠ addr + BitVec.ofNat 32 k) → seenByte m' a = seenByte m a

theorem CopiedOut.stringRead {m m' : Machine} {addr : BitVec 32} {buffer : Buffer}
    {text : List Byte} (h : CopiedOut m m' addr buffer (n + 1)) (htext : 0#8 ∉ text)
    (hlen : text.length ≤ n) (hbuffer : ∀ k, (hk : k < text.length) → buffer k = text[k])
    (hend : buffer text.length = 0#8) : StringRead m m' addr n text := by
  have hreached : ∀ k ≤ text.length, Reached 0#8 buffer k := by
    intro k hk j hj hzero
    rw [hbuffer j (by omega)] at hzero
    exact htext (hzero ▸ List.getElem_mem (by omega))
  refine ⟨fun k hk => ?_, fun a ha => h.others a fun k hk _ => ha k hk⟩
  rw [List.length_append, List.length_singleton] at hk
  rw [h.bytes k (by omega) (hreached k (by omega))]
  by_cases hlt : k < text.length
  · rw [hbuffer k hlt, List.getElem_append_left hlt]
  · obtain rfl : k = text.length := by omega
    rw [hend, List.getElem_concat_length rfl]

/-- INTERNAL: the call with a line that is not empty. -/
theorem readString_of_ne_nil {m : Machine}
    (hline : ConsoleLine line) (hnul : 0#8 ∉ line) (htyped : t.typed = line ++ 0x0A#8 :: rest)
    (hne : line ≠ []) (htlb : m.tlb = none) (hx : Exclusive m) {addr leng : BitVec 32}
    (hleng : leng.toInt = n) (hpos : 0 < n) (hfit : n + 1 < 2 ^ 31)
    (hmapped : ∀ k < n + 1, (place m (addr + BitVec.ofNat 32 k)).isSome ∧
      Writable m (addr + BitVec.ofNat 32 k)) (string : Buffer) (ch : Byte) :
    ∃ t' m', t.readString m addr leng string ch = some (.silent, t', m') ∧
      StringRead m m' addr n (line.take n) := by
  have hread := read_line hline htyped hpos string ch
  have htaken : 0 < (line.take n).length := by
    rw [List.length_take]
    have := List.length_pos_iff.mpr hne
    omega
  have hlen : (line.take n).length ≤ n := List.length_take_le n line
  have hnul' : 0#8 ∉ line.take n := fun h => hnul (List.mem_of_mem_take h)
  generalize line.take n = taken at hread htaken hlen hnul' ⊢
  have hend : Function.update (readBuffer string n taken) taken.length 0#8 taken.length = 0#8 :=
    Function.update_self _ _ _
  have hbuffer : ∀ k, (hk : k < taken.length) →
      Function.update (readBuffer string n taken) taken.length 0#8 k = taken[k] := by
    intro k hk
    rw [Function.update_of_ne (by omega)]
    exact placed_apply _ _ hk
  obtain ⟨count, m', hcopy, hcopied⟩ := system2User_eq htlb hx (show 0 < n + 1 by omega)
    (by omega) hmapped
  refine ⟨{ t with typed := leftOver n line rest }, m', ?_, hcopied.stringRead hnul' hlen hbuffer hend⟩
  unfold Terminal.readString
  rw [hleng, if_neg (by omega), allocates_succ (by omega), hread]
  simp only [Bool.not_true, Bool.false_eq_true, if_false, Int.toNat_natCast]
  rw [if_neg (by omega), if_neg (by omega), show ((n : ℤ) + 1) = ((n + 1 : ℕ) : ℤ) by rfl, hcopy]
  rfl

/-- SOURCE: userprog/exception.cc:130-148 — **`ReadString` leaves the first characters of the line as
a string exactly if the line is not empty**, or the buffer was an empty string before. -/
theorem readString_iff {t : Terminal} {m : Machine} {line rest : List Byte} (hline : ConsoleLine line)
    (hnul : 0#8 ∉ line) (htyped : t.typed = line ++ 0x0A#8 :: rest) (htlb : m.tlb = none)
    (hx : Exclusive m) {addr leng : BitVec 32} (hpos : 0 < leng.toInt)
    (hmapped : ∀ k < leng.toInt.toNat + 1, (place m (addr + BitVec.ofNat 32 k)).isSome ∧
      Writable m (addr + BitVec.ofNat 32 k)) (string : Buffer) (ch : Byte) :
    (∃ t' m', t.readString m addr leng string ch = some (.silent, t', m') ∧
      StringRead m m' addr leng.toInt.toNat (line.take leng.toInt.toNat)) ↔
      line ≠ [] ∨ seenByte m addr = some 0#8 := by
  have hlt := leng.toInt_lt
  obtain ⟨n, hleng⟩ := Int.eq_ofNat_of_zero_le hpos.le
  rw [hleng, Int.toNat_natCast] at hmapped ⊢
  have hfit : n + 1 ≤ memorySize := hx.le_memorySize (by omega) fun k hk => (hmapped k hk).1
  simp only [memorySize, numPhysPages, pageSize, sectorSize] at hfit
  by_cases hne : line = []
  · -- the call returns before it writes anything
    subst hne
    have hread := read_line hline htyped (show 0 < n by omega) string ch
    have hcall : t.readString m addr leng string ch =
        some (.silent, { t with typed := leftOver n [] rest }, m) := by
      unfold Terminal.readString
      rw [hleng, if_neg (by omega), allocates_succ (by omega), hread, List.take_nil]
      rfl
    rw [hcall, List.take_nil, or_iff_right (not_not_intro rfl)]
    constructor
    · rintro ⟨t', m', heq, hread'⟩
      cases heq
      have hfirst := hread'.holds 0 (by simp)
      rwa [BitVec.add_zero] at hfirst
    · intro hzero
      refine ⟨_, m, rfl, fun k hk => ?_, fun a _ => rfl⟩
      obtain rfl : k = 0 := by simpa using hk
      rw [BitVec.add_zero, hzero]
      rfl
  · simp only [ne_eq, hne, not_false_eq_true, true_or, iff_true]
    exact readString_of_ne_nil hline hnul htyped hne htlb hx hleng (by omega) (by omega) hmapped
      string ch

/-- SOURCE: userprog/exception.cc:130-148 — the line `hello` read with a length of three. -/
theorem readString_first_three : ∃ t' m', Terminal.readString
    ⟨[0x68#8, 0x65#8, 0x6C#8, 0x6C#8, 0x6F#8, 0x0A#8], []⟩
    ⟨textMemory [], none, some (firstFrames 2)⟩ 126#32 3#32 (fun _ => 0#8) 0#8 =
      some (.silent, t', m') ∧ StringRead ⟨textMemory [], none, some (firstFrames 2)⟩ m' 126#32 3
        [0x68#8, 0x65#8, 0x6C#8] := by
  have hline : ConsoleLine [0x68#8, 0x65#8, 0x6C#8, 0x6C#8, 0x6F#8] := by
    unfold ConsoleLine
    decide
  have hmapped : ∀ k < (3#32).toInt.toNat + 1,
      (place ⟨textMemory [], none, some (firstFrames 2)⟩ (126#32 + BitVec.ofNat 32 k)).isSome ∧
        Writable ⟨textMemory [], none, some (firstFrames 2)⟩ (126#32 + BitVec.ofNat 32 k) := by
    intro k hk
    have hk' : (126#32 + BitVec.ofNat 32 k).toNat < 2 * pageSize := by
      have h4 : k < 4 := hk
      rw [BitVec.toNat_add, BitVec.toNat_ofNat, BitVec.toNat_ofNat]
      simp only [pageSize, sectorSize]
      omega
    rw [place_firstFrames _ (by decide) hk']
    exact ⟨rfl, writable_firstFrames _ hk'⟩
  exact (readString_iff hline (by decide) rfl rfl (exclusive_firstFrames _ (by decide)) (by decide)
    hmapped (fun _ => 0#8) 0#8).mpr (Or.inl (by decide))

/-- SOURCE: userprog/exception.cc:143 — after an empty line the buffer still holds `a`. -/
theorem readString_empty_line : ((Terminal.readString ⟨[0x0A#8], []⟩
    ⟨textMemory [0x61#8], none, some (firstFrames 1)⟩ 0#32 3#32 (fun _ => 0#8) 0#8).map fun r =>
      (r.1, seenByte r.2.2 0#32)) = some (.silent, some 0x61#8) := by
  decide

end Nachos.Analysis
