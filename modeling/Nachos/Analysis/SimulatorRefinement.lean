import Nachos.Analysis.PreciseExceptions

/-!
# The array of registers and its named fields

`Nachos.Model.Mipssim` has the registers as a record in which `LoadReg` is the number of a general register.
`flat` lays such a record out in the array. On arrays of this form `OneInstruction` with its assignments
is `Machine.oneInstruction` (`oneInstruction_refines`), so what is proved of the one holds of the
other. Between two instructions the array has this form (`atBoundary_iff_flat`), along every run
(`always_runsAs`).
-/

set_option autoImplicit false

namespace Nachos.Analysis

open Nachos.Library Nachos.Model

/-! ## Records as arrays -/

/-- The record `r` as an array. -/
def flat (r : Registers) (i : Fin 40) : BitVec 32 :=
  if h : i.val < 32 then r.gp ⟨i.val, h⟩
  else match i.val with
    | 32 => r.hi
    | 33 => r.lo
    | 34 => r.pc
    | 35 => r.nextPC
    | 36 => r.prevPC
    | 37 => BitVec.ofNat 32 r.loadReg.val
    | 38 => r.loadValue
    | _ => r.badVAddr

section Flat

variable {r : Registers} {registers : Fin 40 → BitVec 32}

@[simp] theorem flat_gp (r : Registers) (num : Fin 32) : flat r (gpReg num) = r.gp num :=
  dif_pos num.isLt

@[simp] theorem flat_hi (r : Registers) : flat r hiReg = r.hi := rfl

@[simp] theorem flat_lo (r : Registers) : flat r loReg = r.lo := rfl

@[simp] theorem flat_nextPC (r : Registers) : flat r nextPCReg = r.nextPC := rfl

@[simp] theorem flat_loadReg (r : Registers) : flat r loadReg = BitVec.ofNat 32 r.loadReg.val := rfl

@[simp] theorem flat_loadValue (r : Registers) : flat r loadValueReg = r.loadValue := rfl

/-- INTERNAL: an array is laid out like a record if it is so at every register. -/
theorem eq_flat (hgp : ∀ num, registers (gpReg num) = r.gp num) (hhi : registers hiReg = r.hi)
    (hlo : registers loReg = r.lo) (hpc : registers pcReg = r.pc)
    (hnextPC : registers nextPCReg = r.nextPC) (hprevPC : registers prevPCReg = r.prevPC)
    (hload : registers loadReg = BitVec.ofNat 32 r.loadReg.val)
    (hvalue : registers loadValueReg = r.loadValue) (hbad : registers badVAddrReg = r.badVAddr) :
    registers = flat r := by
  funext i
  by_cases hi : i.val < 32
  · have hgpReg : i = gpReg ⟨i.val, hi⟩ := rfl
    rw [hgpReg, flat_gp]
    exact hgp _
  · obtain ⟨i, hlt⟩ := i
    have hcases : i = 32 ∨ i = 33 ∨ i = 34 ∨ i = 35 ∨ i = 36 ∨ i = 37 ∨ i = 38 ∨ i = 39 := by
      dsimp only at hi
      omega
    rcases hcases with rfl | rfl | rfl | rfl | rfl | rfl | rfl | rfl
    · exact hhi
    · exact hlo
    · exact hpc
    · exact hnextPC
    · exact hprevPC
    · exact hload
    · exact hvalue
    · exact hbad

theorem update_flat_gp (r : Registers) (num : Fin 32) (value : BitVec 32) :
    Function.update (flat r) (gpReg num) value = flat (r.set num value) := by
  refine eq_flat (fun n => ?_) ?_ ?_ ?_ ?_ ?_ ?_ ?_ ?_
  · by_cases hn : n = num
    · rw [hn, Function.update_self]
      exact (Function.update_self num value r.gp).symm
    · have hne : gpReg n ≠ gpReg num := by
        intro he
        have hval : (gpReg n).val = (gpReg num).val := congrArg Fin.val he
        exact hn (Fin.ext hval)
      rw [Function.update_of_ne hne, flat_gp]
      exact (Function.update_of_ne hn value r.gp).symm
  all_goals exact Function.update_of_ne (Ne.symm (gpReg_ne (by decide))) _ _

theorem update_flat_other {i : Fin 40} (hi : 32 ≤ i.val) (value : BitVec 32) (num : Fin 32) :
    Function.update (flat r) i value (gpReg num) = r.gp num := by
  rw [Function.update_of_ne (gpReg_ne hi), flat_gp]

theorem update_flat_hi (r : Registers) (value : BitVec 32) :
    Function.update (flat r) hiReg value = flat { r with hi := value } :=
  eq_flat (update_flat_other (by decide) value) rfl rfl rfl rfl rfl rfl rfl rfl

theorem update_flat_lo (r : Registers) (value : BitVec 32) :
    Function.update (flat r) loReg value = flat { r with lo := value } :=
  eq_flat (update_flat_other (by decide) value) rfl rfl rfl rfl rfl rfl rfl rfl

theorem update_flat_prevPC (r : Registers) (value : BitVec 32) :
    Function.update (flat r) prevPCReg value = flat { r with prevPC := value } :=
  eq_flat (update_flat_other (by decide) value) rfl rfl rfl rfl rfl rfl rfl rfl

theorem update_flat_pc (r : Registers) (value : BitVec 32) :
    Function.update (flat r) pcReg value = flat { r with pc := value } :=
  eq_flat (update_flat_other (by decide) value) rfl rfl rfl rfl rfl rfl rfl rfl

theorem update_flat_nextPC (r : Registers) (value : BitVec 32) :
    Function.update (flat r) nextPCReg value = flat { r with nextPC := value } :=
  eq_flat (update_flat_other (by decide) value) rfl rfl rfl rfl rfl rfl rfl rfl

theorem update_flat_badVAddr (r : Registers) (value : BitVec 32) :
    Function.update (flat r) badVAddrReg value = flat { r with badVAddr := value } :=
  eq_flat (update_flat_other (by decide) value) rfl rfl rfl rfl rfl rfl rfl rfl

theorem loadReg_lt (r : Registers) : (flat r loadReg).toNat < 32 := toNat_ofNat_reg r.loadReg

theorem toNat_loadReg (r : Registers) : (flat r loadReg).toNat = r.loadReg.val := by
  have hlt := r.loadReg.isLt
  rw [flat_loadReg, BitVec.toNat_ofNat]
  omega

/-- INTERNAL: `DelayedLoad` on the record. -/
theorem loaded_flat (r : Registers) (nextReg : Fin 32) (nextValue : BitVec 32) :
    loaded (flat r) (BitVec.ofNat 32 nextReg.val) nextValue = flat (r.delayedLoad nextReg nextValue) := by
  have hother : ∀ i : Fin 40, 32 ≤ i.val → i ≠ loadValueReg → i ≠ loadReg →
      loaded (flat r) (BitVec.ofNat 32 nextReg.val) nextValue i = flat r i := by
    intro i hi hvalue hreg
    have hzero : i ≠ 0 := by
      rintro rfl
      exact absurd hi (by decide)
    have hlt := loadReg_lt r
    rw [loaded_of_ne hzero hvalue hreg, if_neg (by omega)]
  refine eq_flat (fun num => ?_) (hother _ (by decide) (by decide) (by decide))
    (hother _ (by decide) (by decide) (by decide)) (hother _ (by decide) (by decide) (by decide))
    (hother _ (by decide) (by decide) (by decide)) (hother _ (by decide) (by decide) (by decide)) rfl rfl
    (hother _ (by decide) (by decide) (by decide))
  change _ = Function.update (Function.update r.gp r.loadReg r.loadValue) 0 0#32 num
  by_cases hnum : num = 0
  · rw [hnum, Function.update_self]
    rfl
  · rw [Function.update_of_ne hnum, loaded_of_ne (gpReg_ne_zero hnum) (gpReg_ne (by decide))
      (gpReg_ne (by decide)), toNat_loadReg, flat_gp, flat_loadValue, Function.update_apply]
    have hiff : (gpReg num).val = r.loadReg.val ↔ num = r.loadReg := (Fin.ext_iff (a := num)).symm
    simp only [hiff]

theorem exists_flat (h : (registers loadReg).toNat < 32) : ∃ r, registers = flat r := by
  refine ⟨⟨fun num => registers (gpReg num), registers hiReg, registers loReg, registers pcReg,
    registers nextPCReg, registers prevPCReg, ⟨(registers loadReg).toNat, h⟩, registers loadValueReg,
    registers badVAddrReg⟩, eq_flat (fun _ => rfl) rfl rfl rfl rfl rfl ?_ rfl rfl⟩
  simp

end Flat

/-! ## The cases of the `switch` -/

/-- The `switch` is left as the record says. -/
def Breaks (o : Option Outcome) (after : After) (s' : Simulator) : Prop :=
  ∃ r m num, o = some (.next r m num after.nextLoadValue after.pcAfter) ∧
    after.nextLoadReg = BitVec.ofNat 32 num.val ∧ s' = ⟨flat r, m⟩

/-- The handler is called as the record says, or the simulator stops. -/
def Raises (r : Registers) (o : Option Outcome) (e : SimStop) (s' : Simulator) : Prop :=
  (∃ which badVAddr m, o = some (.raise which badVAddr m) ∧ e = .handler which badVAddr ∧
    s' = ⟨flat (r.raiseException badVAddr), m⟩) ∨
  o = none ∧ (e = .assertion ∨ e = .undefinedDivision)

section Cases

variable {r : Registers} {m : Machine} {instr : Instruction} {α : Type} {Q : α → Simulator → Prop}
  {E : SimStop → Simulator → Prop}

theorem delayedLoad_flat (r : Registers) (m : Machine) (num : Fin 32) (value : BitVec 32) :
    Simulator.delayedLoad (BitVec.ofNat 32 num.val) value ⟨flat r, m⟩ =
      .ok () ⟨flat (r.delayedLoad num value), m⟩ := by
  rw [delayedLoad_of_lt _ _ (lt_trans (loadReg_lt r) (by decide)), loaded_flat]

theorem raiseException_refines (which : ExceptionType) (badVAddr : BitVec 32) :
    Ends (Simulator.raiseException which badVAddr : Sim α) ⟨flat r, m⟩ Q
      (Raises r (some (.raise which badVAddr m))) := by
  refine ends_modify_bind ?_
  simp only [update_flat_badVAddr]
  refine ends_of_error (bind_of_ok (delayedLoad_flat _ m 0 0#32)) ?_
  exact Or.inl ⟨which, badVAddr, m, rfl, rfl, rfl⟩

theorem assign_refines (num : Fin 32) (value pcAfter : BitVec 32) :
    Ends (Simulator.assign num value ⟨0#32, 0#32, pcAfter⟩) ⟨flat r, m⟩
      (Breaks (some (.next (r.set num value) m 0 0#32 pcAfter))) E := by
  refine ends_modify_bind (ends_pure ⟨_, m, 0, rfl, rfl, ?_⟩)
  rw [update_flat_gp]

theorem assignHiLo_refines (hi lo pcAfter : BitVec 32) :
    Ends (Simulator.assignHiLo hi lo ⟨0#32, 0#32, pcAfter⟩) ⟨flat r, m⟩
      (Breaks (some (.next { r with hi := hi, lo := lo } m 0 0#32 pcAfter))) E := by
  refine ends_modify_bind (ends_modify_bind (ends_pure ⟨_, m, 0, rfl, rfl, ?_⟩))
  simp only [update_flat_lo, update_flat_hi]

theorem branch_refines (r r' : Registers) (taken : Bool) :
    Ends (Simulator.branch instr.extra taken ⟨0#32, 0#32, Machine.pcAfter r⟩) ⟨flat r', m⟩
      (Breaks (m.branch instr r r' taken)) E := by
  refine (reg_ends nextPCReg).bind ?_
  rintro nextPC s ⟨rfl, rfl⟩
  refine ends_pure ⟨r', m, 0, ?_, ?_, rfl⟩
  · cases taken
    · rfl
    · rfl
  · cases taken
    · rfl
    · rfl

theorem reg_flat_gp (num : Fin 32) :
    Ends (Simulator.reg (gpReg num)) ⟨flat r, m⟩ (fun value s' => value = r.gp num ∧ s' = ⟨flat r, m⟩)
      E :=
  ends_get_bind (ends_pure ⟨flat_gp r num, rfl⟩)

/-- A `ReadMem` or `WriteMem` at `addr` has raised its exception, or an `ASSERT` in it has failed. -/
def Refused {β : Type} (r : Registers) (m : Machine) (addr : BitVec 32)
    (access : Option (Except ExceptionType β)) (e : SimStop) (s' : Simulator) : Prop :=
  (∃ which, access = some (.error which) ∧ Raises r (some (.raise which addr m)) e s') ∨
    access = none ∧ e = .assertion

theorem Refused.raises {β : Type} {addr : BitVec 32} {access : Option (Except ExceptionType β)} {e : SimStop}
    {s' : Simulator} {o : Option Outcome} (h : Refused r m addr access e s')
    (herror : ∀ which, access = some (.error which) → o = some (.raise which addr m))
    (hnone : access = none → o = none) : Raises r o e s' := by
  rcases h with ⟨which, haccess, hraises⟩ | ⟨haccess, he⟩
  · rw [herror which haccess]
    exact hraises
  · exact Or.inr ⟨hnone haccess, Or.inl he⟩

theorem readMem_refines (addr : BitVec 32) (size : ℕ) :
    Ends (Simulator.readMem addr size) ⟨flat r, m⟩
      (fun value s' => ∃ m', m.readMem addr size = some (.ok (value, m')) ∧ s' = ⟨flat r, m'⟩)
      (Refused r m addr (m.readMem addr size)) := by
  refine ends_get_bind ?_
  rw [readMemInPlace_eq]
  cases hread : m.readMem addr size with
  | none => exact ends_throw (Or.inr ⟨rfl, rfl⟩)
  | some a =>
    rcases a with which | ⟨value, m'⟩
    · exact ends_set_bind ((raiseException_refines which addr).imp_error fun _ _ h =>
        Or.inl ⟨which, rfl, h⟩)
    · exact ends_set_bind (ends_pure ⟨m', rfl, rfl⟩)

theorem readMem_bind_refines {addr : BitVec 32} {size : ℕ} {x : BitVec 32 → Sim After} {o : Option Outcome}
    (herror : ∀ which, m.readMem addr size = some (.error which) → o = some (.raise which addr m))
    (hnone : m.readMem addr size = none → o = none)
    (hok : ∀ value m', m.readMem addr size = some (.ok (value, m')) →
      Ends (x value) ⟨flat r, m'⟩ (Breaks o) (Raises r o)) :
    Ends (Simulator.readMem addr size >>= x) ⟨flat r, m⟩ (Breaks o) (Raises r o) := by
  refine ((readMem_refines addr size).imp_error fun e s' hrefused => hrefused.raises herror hnone).bind ?_
  rintro value s' ⟨m', hread, rfl⟩
  exact hok value m' hread

theorem writeMem_refines (addr value : BitVec 32) (size : ℕ) :
    Ends (Simulator.writeMem addr size value) ⟨flat r, m⟩
      (fun _ s' => ∃ m', m.writeMem addr size value = some (.ok m') ∧ s' = ⟨flat r, m'⟩)
      (Refused r m addr (m.writeMem addr size value)) := by
  refine ends_get_bind ?_
  rw [writeMemInPlace_eq]
  cases hwrite : m.writeMem addr size value with
  | none => exact ends_throw (Or.inr ⟨rfl, rfl⟩)
  | some a =>
    rcases a with which | m'
    · exact ends_set_bind ((raiseException_refines which addr).imp_error fun _ _ h =>
        Or.inl ⟨which, rfl, h⟩)
    · exact ends_set ⟨m', rfl, rfl⟩

theorem load_refines (tmp : BitVec 32) (size : ℕ) (convert : BitVec 32 → BitVec 32) :
    Ends (Simulator.load instr.rt tmp size convert ⟨0#32, 0#32, Machine.pcAfter r⟩) ⟨flat r, m⟩
      (Breaks (m.load instr r tmp size convert)) (Raises r (m.load instr r tmp size convert)) := by
  unfold Machine.load
  refine readMem_bind_refines (fun which hread => by rw [hread]) (fun hread => by rw [hread]) ?_
  intro value m' hread
  rw [hread]
  exact ends_pure ⟨r, m', instr.rt, rfl, rfl, rfl⟩

theorem unaligned_flat (instr : Instruction) (r : Registers) :
    (if flat r loadReg = BitVec.ofNat 32 instr.rt.val then r.loadValue else r.gp instr.rt) =
      Machine.unaligned instr r := by
  have hiff : flat r loadReg = BitVec.ofNat 32 instr.rt.val ↔ r.loadReg = instr.rt := by
    refine ⟨fun h => ?_, fun h => by rw [flat_loadReg, h]⟩
    have hnat := congrArg BitVec.toNat h
    have hlt := instr.rt.isLt
    rw [toNat_loadReg, BitVec.toNat_ofNat] at hnat
    exact Fin.ext (by omega)
  simp only [hiff, Machine.unaligned]

/-- INTERNAL: `LWL` and `LWR`. -/
theorem loadPart_refines (tmp : BitVec 32) (merge : BitVec 32 → BitVec 32 → BitVec 32 → BitVec 32) :
    Ends (Simulator.loadPart instr.rt tmp merge ⟨0#32, 0#32, Machine.pcAfter r⟩) ⟨flat r, m⟩
      (Breaks (if tmp &&& 3#32 ≠ 0#32 then none
        else m.load instr r tmp 4 fun value => merge tmp value (Machine.unaligned instr r)))
      (Raises r (if tmp &&& 3#32 ≠ 0#32 then none
        else m.load instr r tmp 4 fun value => merge tmp value (Machine.unaligned instr r))) := by
  unfold Simulator.loadPart Machine.load
  split
  · exact ends_throw (Or.inr ⟨rfl, Or.inl rfl⟩)
  · refine readMem_bind_refines (fun which hread => by rw [hread]) (fun hread => by rw [hread]) ?_
    intro value m' hread
    rw [hread]
    refine (reg_ends Model.loadReg).bind ?_
    rintro num s ⟨rfl, rfl⟩
    refine (reg_ends loadValueReg).bind ?_
    rintro loadedValue s ⟨rfl, rfl⟩
    refine (reg_flat_gp instr.rt).bind ?_
    rintro old s ⟨rfl, rfl⟩
    refine ends_pure ⟨r, m', instr.rt, ?_, rfl, rfl⟩
    rw [← unaligned_flat]
    rfl

theorem store_refines (tmp : BitVec 32) (size : ℕ) (value : BitVec 32) :
    Ends (Simulator.store tmp size value ⟨0#32, 0#32, Machine.pcAfter r⟩) ⟨flat r, m⟩
      (Breaks (m.store r tmp size value)) (Raises r (m.store r tmp size value)) := by
  unfold Machine.store
  refine ((writeMem_refines tmp value size).imp_error fun e s' hrefused => ?_).bind ?_
  · exact hrefused.raises (fun which hwrite => by rw [hwrite]) (fun hwrite => by rw [hwrite])
  · rintro - s' ⟨m', hwrite, rfl⟩
    rw [hwrite]
    exact ends_pure ⟨r, m', 0, rfl, rfl, rfl⟩

theorem storePart_refines (tmp : BitVec 32) (merge : BitVec 32 → BitVec 32 → BitVec 32 → BitVec 32) :
    Ends (Simulator.storePart instr.rt tmp merge ⟨0#32, 0#32, Machine.pcAfter r⟩) ⟨flat r, m⟩
      (Breaks (m.storePart instr r tmp merge)) (Raises r (m.storePart instr r tmp merge)) := by
  unfold Simulator.storePart Machine.storePart
  split
  · exact ends_throw (Or.inr ⟨rfl, Or.inl rfl⟩)
  · refine readMem_bind_refines (fun which hread => by rw [hread]) (fun hread => by rw [hread]) ?_
    intro value m' hread
    rw [hread]
    refine (reg_flat_gp instr.rt).bind ?_
    rintro old s ⟨rfl, rfl⟩
    exact store_refines _ 4 _

theorem assignUnless_refines (overflow : Bool) (num : Fin 32) (value pcAfter : BitVec 32) :
    Ends (Simulator.assignUnless overflow num value ⟨0#32, 0#32, pcAfter⟩) ⟨flat r, m⟩
      (Breaks (if overflow then some (.raise .overflowException 0#32 m)
        else some (.next (r.set num value) m 0 0#32 pcAfter)))
      (Raises r (if overflow then some (.raise .overflowException 0#32 m)
        else some (.next (r.set num value) m 0 0#32 pcAfter))) := by
  cases overflow with
  | true => exact raiseException_refines _ _
  | false => exact assign_refines num value pcAfter

theorem loadAligned_refines (tmp mask : BitVec 32) (size : ℕ) (convert : BitVec 32 → BitVec 32) :
    Ends (Simulator.loadAligned instr.rt tmp mask size convert ⟨0#32, 0#32, Machine.pcAfter r⟩)
      ⟨flat r, m⟩
      (Breaks (if tmp &&& mask ≠ 0#32 then some (.raise .addressErrorException tmp m)
        else m.load instr r tmp size convert))
      (Raises r (if tmp &&& mask ≠ 0#32 then some (.raise .addressErrorException tmp m)
        else m.load instr r tmp size convert)) := by
  unfold Simulator.loadAligned
  split
  · exact raiseException_refines _ _
  · exact load_refines tmp size convert

theorem link_refines {x : Unit → Sim α} (num : Fin 32)
    (h : Ends (x ()) ⟨flat (Machine.link r num), m⟩ Q E) :
    Ends (Simulator.setReg (gpReg num) (r.nextPC + 4#32) >>= x) ⟨flat r, m⟩ Q E := by
  refine ends_modify_bind ?_
  simp only [update_flat_gp]
  exact h

/-- INTERNAL: the `switch`. -/
theorem execute_refines (r : Registers) (m : Machine) (instr : Instruction) :
    Ends (Simulator.execute instr) ⟨flat r, m⟩ (Breaks (m.execute instr r))
      (Raises r (m.execute instr r)) := by
  refine ends_get_bind ?_
  unfold Machine.execute
  simp only [flat_gp, flat_nextPC, flat_hi, flat_lo]
  cases hop : instr.opCode with
  | addiu | addu | and | andi | lui | mfhi | mflo | nor | or | ori | sll | sllv | slt | slti | sltiu | sltu
  | sra | srav | srl | srlv | subu | xor | xori => exact assign_refines _ _ _
  | add | addi | sub => exact assignUnless_refines _ _ _ _
  | beq | bgez | bgtz | blez | bltz | bne => exact branch_refines r r _
  | mult | multu => exact assignHiLo_refines _ _ _
  | lb | lbu => exact load_refines _ _ _
  | lh | lhu | lw => exact loadAligned_refines _ _ _ _
  | sb | sh | sw => exact store_refines _ _ _
  | lwl | lwr => exact loadPart_refines _ _
  | swl | swr => exact storePart_refines _ _
  | syscall | res | unimp => exact raiseException_refines _ _
  | rfe | special | bcond => exact ends_throw (Or.inr ⟨rfl, Or.inl rfl⟩)
  | j | jr => exact ends_pure ⟨r, m, 0, rfl, rfl, rfl⟩
  | bgezal | bltzal =>
    refine link_refines 31 ((reg_flat_gp instr.rs).bind ?_)
    rintro value s ⟨rfl, rfl⟩
    exact branch_refines r _ _
  | jal => exact link_refines 31 (ends_pure ⟨_, m, 0, rfl, rfl, rfl⟩)
  | jalr =>
    refine link_refines instr.rd ((reg_flat_gp instr.rs).bind ?_)
    rintro value s ⟨rfl, rfl⟩
    exact ends_pure ⟨_, m, 0, rfl, rfl, rfl⟩
  | mthi => exact ends_modify_bind (ends_pure ⟨_, m, 0, rfl, rfl, by rw [update_flat_hi]⟩)
  | mtlo => exact ends_modify_bind (ends_pure ⟨_, m, 0, rfl, rfl, by rw [update_flat_lo]⟩)
  | div =>
    unfold Simulator.divide
    dsimp only
    split_ifs
    · exact assignHiLo_refines _ _ _
    · exact ends_throw (Or.inr ⟨rfl, Or.inr rfl⟩)
    · exact assignHiLo_refines _ _ _
  | divu =>
    dsimp only
    split_ifs
    · exact assignHiLo_refines _ _ _
    · exact assignHiLo_refines _ _ _

end Cases

/-! ## One instruction -/

theorem finish_refines (r : Registers) (m : Machine) (num : Fin 32) (value pcAfter : BitVec 32) :
    Simulator.finish ⟨BitVec.ofNat 32 num.val, value, pcAfter⟩ ⟨flat r, m⟩ =
      .ok () ⟨flat { r.delayedLoad num value with
        prevPC := r.pc, pc := r.nextPC, nextPC := pcAfter }, m⟩ := by
  refine (bind_of_ok (delayedLoad_flat r m num value)).trans ?_
  change EStateM.Result.ok () (Simulator.mk (Function.update (Function.update (Function.update _ _ _) _ _) _ _) m)
    = _
  rw [update_flat_prevPC, update_flat_pc, update_flat_nextPC]
  rfl

/-- `OneInstruction` comes to its end, calls `ExceptionHandler` or stops the simulator as it does on the record `r`, and
leaves the array that the record is then laid out in. -/
def RunsAs (r : Registers) (s : Simulator) : Prop :=
  Ends Simulator.oneInstruction s
    (fun _ s' => ∃ r' m', s.machine.oneInstruction r = some (.done r' m') ∧ s' = ⟨flat r', m'⟩)
    (fun e s' =>
      (∃ which badVAddr r' m', s.machine.oneInstruction r = some (.raised which r' m') ∧
        e = .handler which badVAddr ∧ s' = ⟨flat r', m'⟩) ∨
      s.machine.oneInstruction r = none ∧ (e = .assertion ∨ e = .undefinedDivision))

/-- INTERNAL: **the array refines the record.**
SRCLINE: machine/mipssim.cc:93-565 -/
theorem oneInstruction_refines (r : Registers) (m : Machine) : RunsAs r ⟨flat r, m⟩ := by
  unfold RunsAs Machine.oneInstruction
  refine (reg_ends pcReg).bind ?_
  rintro pc s ⟨rfl, rfl⟩
  refine ((readMem_refines r.pc 4).imp_error fun e s' hrefused => ?_).bind ?_
  · rcases hrefused with ⟨which, hread, ⟨_, badVAddr, m', heq, he, hs⟩ | ⟨hnone, -⟩⟩ | ⟨hread, he⟩
    · cases heq
      exact Or.inl ⟨which, r.pc, _, m, by rw [hread], he, hs⟩
    · exact absurd hnone (by simp)
    · exact Or.inr ⟨by rw [hread], Or.inl he⟩
  · rintro raw s' ⟨m', hread, rfl⟩
    rw [hread]
    dsimp only
    refine ((execute_refines r m' (.decode raw)).imp_error fun e s' hraises => ?_).bind ?_
    · rcases hraises with ⟨which, badVAddr, m'', hexecute, he, hs⟩ | ⟨hexecute, he⟩
      · exact Or.inl ⟨which, badVAddr, _, m'', by rw [hexecute], he, hs⟩
      · exact Or.inr ⟨by rw [hexecute], he⟩
    · rintro ⟨nextLoadReg, nextLoadValue, pcAfter⟩ s' ⟨r', m'', num, hexecute, hnum, rfl⟩
      dsimp only at hexecute hnum
      rw [hnum]
      exact ends_of_ok (finish_refines r' m'' num nextLoadValue pcAfter) ⟨_, m'', by rw [hexecute]; rfl, rfl⟩

theorem atBoundary_iff_flat {registers : Fin 40 → BitVec 32} :
    AtBoundary registers ↔ ∃ r : Registers, registers = flat r ∧ r.gp 0 = 0#32 := by
  constructor
  · rintro ⟨hzero, hload⟩
    obtain ⟨r, rfl⟩ := exists_flat hload
    exact ⟨r, rfl, hzero⟩
  · rintro ⟨r, rfl, hzero⟩
    exact ⟨hzero, loadReg_lt r⟩

/-- SOURCE: machine/mipssim.cc:93-582, machine/machine.cc:56-82 — along every run the array is a record,
with 0 in register 0, and the next instruction ends on it as on the record. -/
theorem always_runsAs (machine : Machine) (es : List MachineEvent) :
    Always MachineState.step
      (fun t => ∃ r : Registers, t.sim.registers = flat r ∧ r.gp 0 = 0#32 ∧ RunsAs r t.sim)
      (MachineState.new machine) es := by
  refine (always_atBoundary machine es).imp fun t ht => ?_
  obtain ⟨r, hflat, hzero⟩ := atBoundary_iff_flat.mp ht
  refine ⟨r, hflat, hzero, ?_⟩
  have hsim : t.sim = ⟨flat r, t.sim.machine⟩ := by rw [← hflat]
  rw [hsim]
  exact oneInstruction_refines r _

end Nachos.Analysis
