import Nachos.Analysis.UserMemory
import Nachos.Library.WordBits
import Nachos.Model.Mipssim

/-!
# The computational instructions against the architecture

What the MIPS R2000 computes is stated on its own: which instruction a word encodes (`encodedOp`), its
operands as fields of the word, and its result in terms of signed and unsigned values (`AluOp.result`).
The simulator decodes the same instruction (`decode_encodes`) and computes the same result
(`execute_alu`), but for three instructions: `OR` has only one of its operands, and `SRL` and `SRLV`
shift an `int`. A result that goes to register 0 is lost, so that these do not matter there.
-/

set_option autoImplicit false

namespace Nachos.Analysis

open Nachos.Library Nachos.Model

/-! ## The architecture -/

/-- The arithmetic, logical, shift, compare and load-immediate instructions. -/
inductive AluOp where
  | add | addi | addiu | addu | and | andi | lui | nor | or | ori
  | sll | sllv | slt | slti | sltiu | sltu | sra | srav | srl | srlv
  | sub | subu | xor | xori
deriving DecidableEq, Repr

namespace AluOp

/-- The three-register instructions and the shifts put their result into `rd`, those with an immediate
operand into `rt`. -/
def toRd : AluOp → Bool
  | .addi | .addiu | .andi | .lui | .ori | .slti | .sltiu | .xori => false
  | _ => true

/-- A signed result that must fit into a word. -/
def inWord (z : ℤ) : Option (BitVec 32) :=
  if -2 ^ 31 ≤ z ∧ z < 2 ^ 31 then some (BitVec.ofInt 32 z) else none

/-- The result of a comparison. -/
def truth (p : Bool) : BitVec 32 := if p then 1#32 else 0#32

/-- The result for the contents of `rs` and `rt`, a shift amount and an immediate operand; `none` is an
overflow. -/
def result (rs rt : BitVec 32) (sa : BitVec 5) (imm : BitVec 16) : AluOp → Option (BitVec 32)
  | .add => inWord (rs.toInt + rt.toInt)
  | .addi => inWord (rs.toInt + imm.toInt)
  | .addiu => some (BitVec.ofInt 32 (rs.toInt + imm.toInt))
  | .addu => some (BitVec.ofInt 32 (rs.toInt + rt.toInt))
  | .and => some (rs &&& rt)
  | .andi => some (rs &&& imm.setWidth 32)
  | .lui => some (BitVec.ofNat 32 (imm.toNat * 2 ^ 16))
  | .nor => some (~~~(rs ||| rt))
  | .or => some (rs ||| rt)
  | .ori => some (rs ||| imm.setWidth 32)
  | .sll => some (BitVec.ofNat 32 (rt.toNat * 2 ^ sa.toNat))
  | .sllv => some (BitVec.ofNat 32 (rt.toNat * 2 ^ (rs.toNat % 32)))
  | .slt => some (truth (rs.toInt < rt.toInt))
  | .slti => some (truth (rs.toInt < imm.toInt))
  | .sltiu => some (truth (rs.toNat < (imm.signExtend 32).toNat))
  | .sltu => some (truth (rs.toNat < rt.toNat))
  | .sra => some (BitVec.ofInt 32 (rt.toInt / 2 ^ sa.toNat))
  | .srav => some (BitVec.ofInt 32 (rt.toInt / 2 ^ (rs.toNat % 32)))
  | .srl => some (BitVec.ofNat 32 (rt.toNat / 2 ^ sa.toNat))
  | .srlv => some (BitVec.ofNat 32 (rt.toNat / 2 ^ (rs.toNat % 32)))
  | .sub => inWord (rs.toInt - rt.toInt)
  | .subu => some (BitVec.ofInt 32 (rs.toInt - rt.toInt))
  | .xor => some (rs ^^^ rt)
  | .xori => some (rs ^^^ imm.setWidth 32)

end AluOp

/-- The instruction for a value of the function field, in words whose first field is 0. -/
def specialOp : ℕ → Option AluOp
  | 0x00 => some .sll | 0x02 => some .srl | 0x03 => some .sra
  | 0x04 => some .sllv | 0x06 => some .srlv | 0x07 => some .srav
  | 0x20 => some .add | 0x21 => some .addu | 0x22 => some .sub | 0x23 => some .subu
  | 0x24 => some .and | 0x25 => some .or | 0x26 => some .xor | 0x27 => some .nor
  | 0x2A => some .slt | 0x2B => some .sltu
  | _ => none

/-- The instruction for another value of the first field. -/
def immediateOp : ℕ → Option AluOp
  | 0x08 => some .addi | 0x09 => some .addiu | 0x0A => some .slti | 0x0B => some .sltiu
  | 0x0C => some .andi | 0x0D => some .ori | 0x0E => some .xori | 0x0F => some .lui
  | _ => none

/-- The instruction that a word encodes, if it is one of these. -/
def encodedOp (word : BitVec 32) : Option AluOp :=
  if word.extractLsb' 26 6 = 0#6 then specialOp (word.extractLsb' 0 6).toNat
  else immediateOp (word.extractLsb' 26 6).toNat

/-- The register that a field of a word names. -/
def registerNamed (word : BitVec 32) (start : ℕ) : Fin 32 := Fin.ofNat 32 (word.extractLsb' start 5).toNat

/-- Where the result goes. -/
def destination (op : AluOp) (word : BitVec 32) : Fin 32 :=
  if op.toRd then registerNamed word 11 else registerNamed word 16

/-- The result for a word and the registers before it. -/
def referenceResult (op : AluOp) (word : BitVec 32) (gp : Fin 32 → BitVec 32) : Option (BitVec 32) :=
  op.result (gp (registerNamed word 21)) (gp (registerNamed word 16)) (word.extractLsb' 6 5)
    (word.extractLsb' 0 16)

/-! ## Decoding -/

/-- The opcode of the simulator. -/
def AluOp.opCode : AluOp → OpCode
  | .add => .add | .addi => .addi | .addiu => .addiu | .addu => .addu | .and => .and | .andi => .andi
  | .lui => .lui | .nor => .nor | .or => .or | .ori => .ori | .sll => .sll | .sllv => .sllv
  | .slt => .slt | .slti => .slti | .sltiu => .sltiu | .sltu => .sltu | .sra => .sra | .srav => .srav
  | .srl => .srl | .srlv => .srlv | .sub => .sub | .subu => .subu | .xor => .xor | .xori => .xori

theorem registerField_eq (word : BitVec 32) (start : ℕ) :
    Instruction.registerField word start = registerNamed word start := by
  unfold Instruction.registerField registerNamed
  rw [show (0x1f#32) = BitVec.ofNat 32 (2 ^ 5 - 1) by rfl, toNat_shift_and_mask _ _ (by omega)]

theorem opInfo_eq (word : BitVec 32) :
    Instruction.opInfo word = opTable.getD (word.extractLsb' 26 6).toNat (.res, .ifmt) := by
  unfold Instruction.opInfo
  rw [show (0x3f#32) = BitVec.ofNat 32 (2 ^ 6 - 1) by rfl, toNat_shift_and_mask _ _ (by omega)]

theorem opTable_immediate (op : AluOp) : ∀ i : Fin 64, (opTable.getD i (.res, .ifmt)).1 = op.opCode →
    i ≠ 0 ∧ immediateOp i = some op ∧ (opTable.getD i (.res, .ifmt)).2 = .ifmt ∧ op.toRd = false := by
  cases op <;> decide

theorem opTable_special : ∀ i : Fin 64, (opTable.getD i (.res, .ifmt)).1 = .special →
    i = 0 ∧ (opTable.getD i (.res, .ifmt)).2 = .rfmt := by
  decide

theorem specialTable_eq (op : AluOp) : ∀ f : Fin 64, specialTable.getD f .res = op.opCode →
    specialOp f = some op ∧ op.toRd = true := by
  cases op <;> decide

/-- INTERNAL: **a word that is decoded as one of these instructions encodes it**, and its `extra` is the
field the instruction has.
SRCLINE: machine/mipssim.cc:589-626 -/
theorem decode_encodes {op : AluOp} {word : BitVec 32}
    (h : (Instruction.decode word).opCode = op.opCode) : encodedOp word = some op ∧
      (Instruction.decode word).extra =
        Instruction.extraField word (if op.toRd then .rfmt else .ifmt) := by
  have hi : (word.extractLsb' 26 6).toNat < 64 := (word.extractLsb' 26 6).isLt
  have hf : (word.extractLsb' 0 6).toNat < 64 := (word.extractLsb' 0 6).isLt
  have hzero : word.extractLsb' 26 6 = 0#6 ↔ (⟨_, hi⟩ : Fin 64) = 0 := by
    rw [Fin.ext_iff, ← BitVec.toNat_inj]
    rfl
  have hcode : Instruction.finalOpCode word (Instruction.opInfo word).1 = op.opCode := h
  show encodedOp word = some op ∧ Instruction.extraField word (Instruction.opInfo word).2 = _
  rw [opInfo_eq] at hcode ⊢
  by_cases hspecial : (opTable.getD (word.extractLsb' 26 6).toNat (.res, .ifmt)).1 = .special
  · obtain ⟨hindex, hformat⟩ := opTable_special ⟨_, hi⟩ hspecial
    have hmask : (word &&& 0x3f#32).toNat = (word.extractLsb' 0 6).toNat := by
      have hfield := toNat_shift_and_mask word 0 (show 6 ≤ 32 by omega)
      rwa [BitVec.ushiftRight_zero] at hfield
    rw [hspecial, Instruction.finalOpCode, hmask] at hcode
    obtain ⟨hop, hrd⟩ := specialTable_eq op ⟨_, hf⟩ hcode
    rw [encodedOp, if_pos (hzero.mpr hindex), hformat, hrd]
    exact ⟨hop, rfl⟩
  · have hplain : (opTable.getD (word.extractLsb' 26 6).toNat (.res, .ifmt)).1 = op.opCode := by
      generalize (opTable.getD (word.extractLsb' 26 6).toNat (.res, .ifmt)).1 = code at hspecial hcode
      cases code with
      | special => exact absurd rfl hspecial
      | bcond =>
        -- the branches that this mark stands for are none of these instructions
        simp only [Instruction.finalOpCode] at hcode
        split_ifs at hcode <;> cases op <;> cases hcode
      | _ => exact hcode
    obtain ⟨hindex, hop, hformat, hrd⟩ := opTable_immediate op ⟨_, hi⟩ hplain
    rw [encodedOp, if_neg fun h0 => hindex (hzero.mp h0), hformat, hrd]
    exact ⟨hop, rfl⟩

/-! ## Operands -/

theorem toNat_extra_rfmt (word : BitVec 32) :
    (Instruction.extraField word .rfmt).toNat = (word.extractLsb' 6 5).toNat :=
  toNat_shift_and_mask word 6 (show 5 ≤ 32 by omega)

/-- INTERNAL: the immediate operand is sign extended. -/
theorem extra_ifmt (word : BitVec 32) :
    Instruction.extraField word .ifmt = (word.extractLsb' 0 16).signExtend 32 := by
  have hlow : ∀ i : Fin 32, (0xffff#32).getLsbD i = decide (i.val < 16) := by decide
  have hhigh : ∀ i : Fin 32, (0xffff0000#32).getLsbD i = decide (16 ≤ i.val) := by decide
  have hsign : word &&& 0xffff#32 &&& 0x8000#32 ≠ 0#32 ↔ word.getLsbD 15 = true := by
    rw [show (0x8000#32) = BitVec.twoPow 32 15 by rfl, BitVec.and_twoPow, BitVec.getLsbD_and,
      hlow ⟨15, by omega⟩]
    cases word.getLsbD 15 with
    | false => decide
    | true => decide
  unfold Instruction.extraField
  simp only
  apply BitVec.eq_of_getLsbD_eq
  intro i hi
  rw [BitVec.getLsbD_signExtend, BitVec.msb_eq_getLsbD_last]
  simp only [BitVec.getLsbD_extractLsb', hi, decide_true, Bool.true_and, Nat.zero_add]
  split_ifs with h hi16
  · rw [BitVec.getLsbD_or, BitVec.getLsbD_and, hlow ⟨i, hi⟩, hhigh ⟨i, hi⟩]
    simp [hi16]
  · rw [BitVec.getLsbD_or, BitVec.getLsbD_and, hlow ⟨i, hi⟩, hhigh ⟨i, hi⟩]
    simp [hi16, hsign.mp h, Nat.le_of_not_lt hi16]
  · rw [BitVec.getLsbD_and, hlow ⟨i, hi⟩]
    simp_all
  · rw [BitVec.getLsbD_and, hlow ⟨i, hi⟩]
    simp_all

theorem hasSign_eq (x : BitVec 32) : hasSign x = x.msb := by
  unfold hasSign
  rw [Bool.eq_iff_iff, decide_eq_true_iff]
  exact and_signBit_ne_zero x

/-! ## Overflows -/

theorem add_overflows_iff (x y : BitVec 32) :
    (!hasSign (x ^^^ y) && hasSign (x ^^^ (x + y))) = true ↔
      ¬ (-2 ^ 31 ≤ x.toInt + y.toInt ∧ x.toInt + y.toInt < 2 ^ 31) := by
  have hx := And.intro x.le_toInt x.toInt_lt
  have hy := And.intro y.le_toInt y.toInt_lt
  rw [hasSign_eq, hasSign_eq, BitVec.msb_xor, BitVec.msb_xor, BitVec.msb_eq_toInt, BitVec.msb_eq_toInt,
    BitVec.msb_eq_toInt, BitVec.toInt_add, Int.bmod_def]
  simp only [Bool.and_eq_true, Bool.not_eq_true', bne_eq_false_iff_eq, bne_iff_ne, ne_eq,
    decide_eq_decide]
  omega

theorem sub_overflows_iff (x y : BitVec 32) :
    (hasSign (x ^^^ y) && hasSign (x ^^^ (x - y))) = true ↔
      ¬ (-2 ^ 31 ≤ x.toInt - y.toInt ∧ x.toInt - y.toInt < 2 ^ 31) := by
  have hx := And.intro x.le_toInt x.toInt_lt
  have hy := And.intro y.le_toInt y.toInt_lt
  rw [hasSign_eq, hasSign_eq, BitVec.msb_xor, BitVec.msb_xor, BitVec.msb_eq_toInt, BitVec.msb_eq_toInt,
    BitVec.msb_eq_toInt, BitVec.toInt_sub, Int.bmod_def]
  simp only [Bool.and_eq_true, bne_iff_ne, ne_eq, decide_eq_decide]
  omega

/-! ## Results -/

/-- What the simulator computes: the result of the architecture, but for three instructions. -/
def AluOp.computed (rs rt : BitVec 32) (sa : BitVec 5) (imm : BitVec 16) : AluOp → Option (BitVec 32)
  | .or => some rs
  | .srl => some (rt.sshiftRight sa.toNat)
  | .srlv => some (rt.sshiftRight (rs.toNat % 32))
  | op => op.result rs rt sa imm

/-- What the simulator computes for a word. -/
def computedResult (op : AluOp) (word : BitVec 32) (gp : Fin 32 → BitVec 32) : Option (BitVec 32) :=
  op.computed (gp (registerNamed word 21)) (gp (registerNamed word 16)) (word.extractLsb' 6 5)
    (word.extractLsb' 0 16)

/-- The `switch` for a computed result. -/
def computedOutcome (m : Machine) (r : Registers) (dest : Fin 32) : Option (BitVec 32) → Option Outcome
  | some value => m.break_ r (r.set dest value)
  | none => some (.raise .overflowException 0#32 m)

theorem toNat_and_five (x : BitVec 32) : (x &&& 0x1f#32).toNat = x.toNat % 32 :=
  toNat_and_mask x (show 5 ≤ 32 by omega)

theorem and_half_extra (imm : BitVec 16) : imm.signExtend 32 &&& 0xffff#32 = imm.setWidth 32 :=
  and_mask_signExtend imm (show 16 ≤ 32 by omega)

theorem signExtend_shiftLeft (imm : BitVec 16) :
    imm.signExtend 32 <<< 16 = BitVec.ofNat 32 (imm.toNat * 2 ^ 16) := by
  have hlow : (imm.signExtend 32).toNat % 2 ^ 16 = imm.toNat := by
    rw [← BitVec.toNat_setWidth, setWidth_signExtend_self imm (by omega)]
  apply BitVec.eq_of_toNat_eq
  rw [BitVec.toNat_shiftLeft, BitVec.toNat_ofNat, Nat.shiftLeft_eq]
  omega

theorem ofInt_toInt_add (x y : BitVec 32) : BitVec.ofInt 32 (x.toInt + y.toInt) = x + y := by
  rw [BitVec.ofInt_add, BitVec.ofInt_toInt, BitVec.ofInt_toInt]

theorem ofInt_toInt_sub (x y : BitVec 32) : BitVec.ofInt 32 (x.toInt - y.toInt) = x - y := by
  apply BitVec.eq_of_toInt_eq
  rw [BitVec.toInt_ofInt, BitVec.toInt_sub]

theorem computedOutcome_add (m : Machine) (r : Registers) (dest : Fin 32) (x y : BitVec 32) :
    computedOutcome m r dest (AluOp.inWord (x.toInt + y.toInt)) =
      if !hasSign (x ^^^ y) && hasSign (x ^^^ (x + y)) then some (.raise .overflowException 0#32 m)
      else m.break_ r (r.set dest (x + y)) := by
  unfold AluOp.inWord
  by_cases hfits : -2 ^ 31 ≤ x.toInt + y.toInt ∧ x.toInt + y.toInt < 2 ^ 31
  · rw [if_pos hfits, if_neg fun h => (add_overflows_iff x y).mp h hfits, ofInt_toInt_add]
    rfl
  · rw [if_neg hfits, if_pos ((add_overflows_iff x y).mpr hfits)]
    rfl

theorem computedOutcome_sub (m : Machine) (r : Registers) (dest : Fin 32) (x y : BitVec 32) :
    computedOutcome m r dest (AluOp.inWord (x.toInt - y.toInt)) =
      if hasSign (x ^^^ y) && hasSign (x ^^^ (x - y)) then some (.raise .overflowException 0#32 m)
      else m.break_ r (r.set dest (x - y)) := by
  unfold AluOp.inWord
  by_cases hfits : -2 ^ 31 ≤ x.toInt - y.toInt ∧ x.toInt - y.toInt < 2 ^ 31
  · rw [if_pos hfits, if_neg fun h => (sub_overflows_iff x y).mp h hfits, ofInt_toInt_sub]
    rfl
  · rw [if_neg hfits, if_pos ((sub_overflows_iff x y).mpr hfits)]
    rfl

/-- INTERNAL: **what the `switch` does for these instructions.**
SRCLINE: machine/mipssim.cc:123-553 -/
theorem execute_alu {op : AluOp} {word : BitVec 32}
    (h : (Instruction.decode word).opCode = op.opCode) (m : Machine) (r : Registers) :
    m.execute (.decode word) r =
      computedOutcome m r (destination op word) (computedResult op word r.gp) := by
  have hextra := (decode_encodes h).2
  have himm := extra_ifmt word
  have hsa := toNat_extra_rfmt word
  have hrs : (Instruction.decode word).rs = registerNamed word 21 := registerField_eq word 21
  have hrt : (Instruction.decode word).rt = registerNamed word 16 := registerField_eq word 16
  have hrd : (Instruction.decode word).rd = registerNamed word 11 := registerField_eq word 11
  unfold Machine.execute destination computedResult
  rw [h, hrs, hrt, hrd, hextra]
  generalize r.gp (registerNamed word 21) = rs
  generalize r.gp (registerNamed word 16) = rt
  generalize word.extractLsb' 6 5 = sa at hsa
  generalize word.extractLsb' 0 16 = imm at himm
  have himmInt : (imm.signExtend 32).toInt = imm.toInt := BitVec.toInt_signExtend_of_le (by omega)
  cases op with
  | add => exact (computedOutcome_add m r _ rs rt).symm
  | sub => exact (computedOutcome_sub m r _ rs rt).symm
  | addi =>
    have hsum := computedOutcome_add m r (registerNamed word 16) (imm.signExtend 32) rs
    rw [BitVec.xor_comm (imm.signExtend 32) rs, BitVec.add_comm (imm.signExtend 32) rs, himmInt,
      Int.add_comm] at hsum
    simp only [AluOp.toRd, Bool.false_eq_true, if_false, himm]
    exact hsum.symm
  | addu =>
    simp only [AluOp.toRd, if_true, AluOp.computed, AluOp.result, ofInt_toInt_add]
    rfl
  | subu =>
    simp only [AluOp.toRd, if_true, AluOp.computed, AluOp.result, ofInt_toInt_sub]
    rfl
  | addiu =>
    simp only [AluOp.toRd, Bool.false_eq_true, if_false, himm, AluOp.computed, AluOp.result, ← himmInt,
      ofInt_toInt_add]
    rfl
  | and | nor | xor => rfl
  | or =>
    simp only [AluOp.opCode, BitVec.or_self]
    rfl
  | andi | ori | xori =>
    simp only [AluOp.opCode, AluOp.toRd, Bool.false_eq_true, if_false, himm, and_half_extra]
    rfl
  | lui =>
    simp only [AluOp.opCode, AluOp.toRd, Bool.false_eq_true, if_false, himm, signExtend_shiftLeft]
    rfl
  | sll | sllv | sra | srav | srl | srlv =>
    simp only [AluOp.opCode, AluOp.toRd, if_true, hsa, toNat_and_five, AluOp.computed, AluOp.result,
      ← shiftLeft_eq_ofNat, ← sshiftRight_eq_ofInt]
    rfl
  | slt | sltu => rfl
  | slti | sltiu =>
    simp only [AluOp.opCode, AluOp.toRd, Bool.false_eq_true, if_false, himm, AluOp.computed, AluOp.result,
      ← himmInt]
    rfl

/-! ## The registers behind an instruction -/

/-- The general registers with `value` in `dest`; register 0 stays 0. -/
def written (gp : Fin 32 → BitVec 32) (dest : Fin 32) (value : BitVec 32) : Fin 32 → BitVec 32 :=
  fun i => if i = 0 then 0#32 else if i = dest then value else gp i

/-- The instruction leaves the result of the architecture in its destination, or raises an overflow if
there is none, and no other general register has changed. -/
def FollowsReference (m m' : Machine) (r : Registers) (op : AluOp) (word : BitVec 32) : Prop :=
  match referenceResult op word r.gp with
  | some value => ∃ r', m.oneInstruction r = some (.done r' m') ∧
      r'.gp = written r.gp (destination op word) value
  | none => ∃ r', m.oneInstruction r = some (.raised .overflowException r' m') ∧ r'.gp = written r.gp 0 0#32

/-- The instructions that are not simulated as they should be do no harm for these operands. -/
def AluOp.Harmless (rs rt : BitVec 32) (sa : BitVec 5) : AluOp → Prop
  | .or => rs ||| rt = rs
  | .srl => rt.msb = false ∨ sa.toNat = 0
  | .srlv => rt.msb = false ∨ rs.toNat % 32 = 0
  | _ => True

/-- INTERNAL: **when the simulator computes the result of the architecture.**
SRCLINE: machine/mipssim.cc:375-377, 445-455 -/
theorem computed_eq_result_iff (op : AluOp) (rs rt : BitVec 32) (sa : BitVec 5) (imm : BitVec 16) :
    op.computed rs rt sa imm = op.result rs rt sa imm ↔ op.Harmless rs rt sa := by
  cases op with
  | or =>
    simp only [AluOp.computed, AluOp.result, AluOp.Harmless, Option.some.injEq]
    exact eq_comm
  | srl | srlv =>
    simp only [AluOp.computed, AluOp.result, AluOp.Harmless, Option.some.injEq, ← ushiftRight_eq_ofNat]
    exact sshiftRight_eq_ushiftRight_iff rt _
  | _ => exact iff_of_true rfl trivial

theorem computed_isSome {op : AluOp} {rs rt : BitVec 32} {sa : BitVec 5} {imm : BitVec 16}
    (h : op.computed rs rt sa imm ≠ op.result rs rt sa imm) :
    ∃ v v', op.computed rs rt sa imm = some v ∧ op.result rs rt sa imm = some v' ∧ v ≠ v' := by
  cases op with
  | or | srl | srlv => exact ⟨_, _, rfl, rfl, fun heq => h (congrArg some heq)⟩
  | _ => exact absurd rfl h

section Step

variable {m m' : Machine} {r : Registers} {op : AluOp} {word : BitVec 32} (hload : r.loadReg = 0)
  (hfetch : m.readMem r.pc 4 = some (.ok (word, m')))
  (hop : (Instruction.decode word).opCode = op.opCode)

include hload hfetch hop

theorem oneInstruction_of_some {value : BitVec 32} (h : computedResult op word r.gp = some value) :
    ∃ r', m.oneInstruction r = some (.done r' m') ∧ r'.gp = written r.gp (destination op word) value := by
  have hexecute := execute_alu hop m' r
  rw [h] at hexecute
  unfold Machine.oneInstruction
  rw [hfetch]
  simp only [hexecute, computedOutcome, Machine.break_]
  refine ⟨_, rfl, funext fun i => ?_⟩
  simp only [Registers.delayedLoad, Registers.set, hload, written]
  by_cases hi : i = 0
  · rw [hi, Function.update_self, if_pos rfl]
  · rw [Function.update_of_ne hi, Function.update_of_ne hi, if_neg hi, Function.update_apply]

theorem oneInstruction_of_none (h : computedResult op word r.gp = none) :
    ∃ r', m.oneInstruction r = some (.raised .overflowException r' m') ∧
      r'.gp = written r.gp 0 0#32 := by
  have hexecute := execute_alu hop m' r
  rw [h] at hexecute
  unfold Machine.oneInstruction
  rw [hfetch]
  simp only [hexecute, computedOutcome]
  refine ⟨_, rfl, funext fun i => ?_⟩
  simp only [Registers.raiseException, Registers.delayedLoad, hload, written]
  by_cases hi : i = 0
  · rw [hi, Function.update_self, if_pos rfl]
  · rw [Function.update_of_ne hi, Function.update_of_ne hi, if_neg hi, if_neg hi]

end Step

/-- SOURCE: machine/mipssim.cc:93-565, 589-626, machine/mipssim.h:117-150 — **a computational instruction
does what the architecture says exactly if its result goes to register 0 or its operands hide that `OR`
has one operand and that `SRL` and `SRLV` copy the sign.** Its word is the encoding of the instruction,
and overflows are raised exactly if the signed result does not fit. -/
theorem followsReference_iff {m m' : Machine} {r : Registers} {op : AluOp} {word : BitVec 32}
    (hload : r.loadReg = 0) (hfetch : m.readMem r.pc 4 = some (.ok (word, m')))
    (hop : (Instruction.decode word).opCode = op.opCode) :
    (encodedOp word = some op ∧ FollowsReference m m' r op word) ↔
      (destination op word = 0 ∨
        op.Harmless (r.gp (registerNamed word 21)) (r.gp (registerNamed word 16))
          (word.extractLsb' 6 5)) := by
  have hencodes := (decode_encodes hop).1
  have hharmless : computedResult op word r.gp = referenceResult op word r.gp ↔ _ :=
    computed_eq_result_iff op (r.gp (registerNamed word 21)) (r.gp (registerNamed word 16))
      (word.extractLsb' 6 5) (word.extractLsb' 0 16)
  rw [and_iff_right hencodes, ← hharmless]
  by_cases heq : computedResult op word r.gp = referenceResult op word r.gp
  · refine iff_of_true ?_ (Or.inr heq)
    unfold FollowsReference
    rw [← heq]
    cases h : computedResult op word r.gp with
    | some value => exact oneInstruction_of_some hload hfetch hop h
    | none => exact oneInstruction_of_none hload hfetch hop h
  · -- the two results are different words
    obtain ⟨v, v', hcomputed, hresult, hne⟩ := computed_isSome heq
    obtain ⟨r', hstep, hgp⟩ := oneInstruction_of_some hload hfetch hop hcomputed
    have hreference : referenceResult op word r.gp = some v' := hresult
    rw [or_iff_left heq]
    unfold FollowsReference
    rw [hreference]
    constructor
    · rintro ⟨r'', hstep', hgp'⟩
      rw [hstep] at hstep'
      cases hstep'
      by_contra hdest
      have hcell := congrFun (hgp.symm.trans hgp') (destination op word)
      simp only [written, if_neg hdest, if_true] at hcell
      exact hne hcell
    · intro hdest
      refine ⟨r', hstep, hgp.trans (funext fun i => ?_)⟩
      unfold written
      rw [hdest]
      by_cases hi : i = 0
      · rw [if_pos hi, if_pos hi]
      · rw [if_neg hi, if_neg hi, if_neg hi, if_neg hi]

/-- A process with a word of its program at address 0. -/
def program (word : BitVec 32) : Machine :=
  ⟨textMemory ((List.range 4).map fun k => word.extractLsb' (8 * k) 8), none, some (firstFrames 1)⟩

/-- Its registers, about to execute that word. -/
def atProgram (gp : Fin 32 → BitVec 32) : Registers :=
  ⟨gp, 0#32, 0#32, 0#32, 4#32, 0#32, 0, 0#32, 0#32⟩

/-- SOURCE: machine/mipssim.cc:145-147 — `ADDIU r1,r0,5`. -/
theorem addiu_follows_reference : ∃ m', encodedOp 0x24010005#32 = some .addiu ∧
    FollowsReference (program 0x24010005#32) m' (atProgram fun _ => 0#32) .addiu 0x24010005#32 :=
  ⟨_, (followsReference_iff rfl
    (show (program 0x24010005#32).readMem 0#32 4 = some (.ok (0x24010005#32, _)) from rfl) rfl).mpr
      (Or.inr trivial)⟩

/-- SOURCE: machine/mipssim.cc:375-377, 445-449 — `OR r3,r1,r2` of 1 and 2 leaves 1, and
`SRL r3,r2,1` of the sign bit leaves two bits. -/
theorem or_and_srl_differ :
    (∃ r' m', (program 0x00221825#32).oneInstruction
        (atProgram fun i => if i = 1 then 1#32 else if i = 2 then 2#32 else 0#32) =
        some (.done r' m') ∧ r'.gp 3 = 1#32) ∧
    referenceResult .or 0x00221825#32 (fun i => if i = 1 then 1#32 else if i = 2 then 2#32 else 0#32) =
      some 3#32 ∧
    (∃ r' m', (program 0x00021842#32).oneInstruction
        (atProgram fun i => if i = 2 then 0x80000000#32 else 0#32) =
        some (.done r' m') ∧ r'.gp 3 = 0xC0000000#32) ∧
    referenceResult .srl 0x00021842#32 (fun i => if i = 2 then 0x80000000#32 else 0#32) =
      some 0x40000000#32 := by
  exact ⟨⟨_, _, rfl, rfl⟩, rfl, ⟨_, _, rfl, rfl⟩, rfl⟩

end Nachos.Analysis
