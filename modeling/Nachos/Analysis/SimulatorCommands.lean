import Nachos.Analysis.MemoryIsolation
import Nachos.Analysis.PagedMemory
import Nachos.Library.Commands
import Nachos.Model.Simulator

/-!
# What one instruction can do

`execute_ends` says of every case of the `switch` how it ends. Either it goes on to the end of `OneInstruction`, with
`LoadReg` as it was and the number of a general register in `nextLoadReg`, or it raises an
exception, and then it has not assigned anything before (`Precise`), or the simulator stops: at an address that is no
multiple of four in the four instructions for parts of words, at a quotient that is no `int`, or at an
index in `LoadReg` that is not one of the array. Each helper of the `switch` has one lemma, and the cases
are instances of them.
-/

set_option autoImplicit false

namespace Nachos.Analysis

open Nachos.Library Nachos.Model

/-! ## Memory -/

/-- Addresses are translated with a page table. -/
def Paged (m : Machine) : Prop := m.tlb = none ∧ ∃ table, m.pageTable = some table

/-- INTERNAL: a translation sets bits in a table and leaves the memory alone. -/
theorem translate_leaves {m m' : Machine} {addr : BitVec 32} {size p : ℕ} {writing : Bool}
    (h : m.translate addr size writing = some (.ok (p, m'))) :
    m'.mainMemory = m.mainMemory ∧ (Paged m → Paged m') := by
  obtain ⟨mem, tlb, pageTable⟩ := m
  cases tlb with
  | none =>
    cases pageTable with
    | some table =>
      obtain ⟨-, entry, table', -, -, -, rfl, -⟩ := translate_ok h
      exact ⟨rfl, fun _ => ⟨rfl, table', rfl⟩⟩
    | none =>
      unfold Machine.translate at h
      split at h
      · cases h
      · cases h
  | some tlb =>
    have hno : ¬Paged ⟨mem, some tlb, pageTable⟩ := fun hp => absurd hp.1 (by simp)
    unfold Machine.translate at h
    split at h
    · cases h
    · cases pageTable with
      | some table => cases h
      | none =>
        simp only at h
        split at h
        · cases h
        · split at h
          · cases h
          · rename_i entry hentry
            generalize Machine.useEntry entry (addr.toNat % pageSize) size writing = r at h
            rcases r with _ | (e | ⟨q, entry'⟩)
            · cases h
            · cases h
            · cases h
              exact ⟨rfl, fun hp => absurd hp hno⟩

section Access

variable {m : Machine} {addr : BitVec 32} {size : ℕ}

theorem Paged.translate (hm : Paged m) (hsize : size = 1 ∨ size = 2 ∨ size = 4) (writing : Bool) :
    ∃ r, m.translate addr size writing = some r := by
  obtain ⟨mem, tlb, pageTable⟩ := m
  obtain ⟨htlb, table, htable⟩ := hm
  dsimp only at htlb htable
  subst htlb htable
  exact translate_isSome mem table addr hsize writing

/-- INTERNAL: `ReadMem` stops for want of a page table, fails without a change, or sets bits of a table. -/
theorem readMemInPlace_cases (m : Machine) (addr : BitVec 32)
    (hsize : size = 1 ∨ size = 2 ∨ size = 4) :
    m.readMemInPlace addr size = none ∧ ¬Paged m ∨
    (∃ which, m.readMemInPlace addr size = some (.error which, m)) ∨
    ∃ value m', m.readMemInPlace addr size = some (.ok value, m') ∧
      m'.mainMemory = m.mainMemory ∧ (Paged m → Paged m') := by
  unfold Machine.readMemInPlace
  rw [translateInPlace_eq]
  cases htranslate : m.translate addr size false with
  | none =>
    refine Or.inl ⟨rfl, fun hm => ?_⟩
    obtain ⟨r, hr⟩ := hm.translate hsize false
    rw [htranslate] at hr
    cases hr
  | some r =>
    rcases r with which | ⟨p, m'⟩
    · exact Or.inr (Or.inl ⟨which, rfl⟩)
    · obtain ⟨value, hvalue⟩ : ∃ value, Machine.loadValue m'.mainMemory p size = some value := by
        rcases hsize with rfl | rfl | rfl
        · exact ⟨_, rfl⟩
        · exact ⟨_, rfl⟩
        · exact ⟨_, rfl⟩
      refine Or.inr (Or.inr ⟨value, m', ?_, translate_leaves htranslate⟩)
      simp only [Option.map_some, inPlace, hvalue]

theorem writeMemInPlace_cases (m : Machine) (addr value : BitVec 32)
    (hsize : size = 1 ∨ size = 2 ∨ size = 4) :
    m.writeMemInPlace addr size value = none ∧ ¬Paged m ∨
    (∃ which, m.writeMemInPlace addr size value = some (.error which, m)) ∨
    ∃ m', m.writeMemInPlace addr size value = some (.ok (), m') := by
  unfold Machine.writeMemInPlace
  rw [translateInPlace_eq]
  cases htranslate : m.translate addr size true with
  | none =>
    refine Or.inl ⟨rfl, fun hm => ?_⟩
    obtain ⟨r, hr⟩ := hm.translate hsize true
    rw [htranslate] at hr
    cases hr
  | some r =>
    rcases r with which | ⟨p, m'⟩
    · exact Or.inr (Or.inl ⟨which, rfl⟩)
    · refine Or.inr (Or.inr ⟨{ m' with mainMemory := m'.mainMemory.store p size value }, ?_⟩)
      simp only [Option.map_some, inPlace, hsize, if_true]

end Access

/-! ## Registers -/

theorem gpReg_ne {num : Fin 32} {i : Fin 40} (h : 32 ≤ i.val) : gpReg num ≠ i := by
  intro he
  have hval : num.val = i.val := congrArg Fin.val he
  have hlt := num.isLt
  omega

/-- The array behind `DelayedLoad(nextReg, nextValue)`. -/
def loaded (registers : Fin 40 → BitVec 32) (nextReg nextValue : BitVec 32) (i : Fin 40) : BitVec 32 :=
  if i = 0 then 0#32
  else if i = loadValueReg then nextValue
  else if i = loadReg then nextReg
  else if i.val = (registers loadReg).toNat then registers loadValueReg
  else registers i

section Commands

variable {s s₀ : Simulator} (nextReg nextValue : BitVec 32)

theorem delayedLoad_of_lt (h : (s.registers loadReg).toNat < 40) :
    Simulator.delayedLoad nextReg nextValue s =
      .ok () { s with registers := loaded s.registers nextReg nextValue } := by
  have hindex : Simulator.index (s.registers loadReg) s = .ok ⟨(s.registers loadReg).toNat, h⟩ s := by
    rw [Simulator.index, dif_pos h]
    rfl
  have hrun : Simulator.delayedLoad nextReg nextValue s = .ok () { s with
      registers := Function.update (Function.update (Function.update (Function.update s.registers
        ⟨(s.registers loadReg).toNat, h⟩ (s.registers loadValueReg)) loadReg nextReg) loadValueReg
        nextValue) 0 0#32 } := by
    change (Simulator.index (s.registers loadReg) >>= _) s = _
    rw [bind_of_ok hindex]
    rfl
  rw [hrun]
  congr 2
  funext i
  simp only [loaded, Function.update_apply, Fin.ext_iff]

theorem delayedLoad_of_le (h : 40 ≤ (s.registers loadReg).toNat) :
    Simulator.delayedLoad nextReg nextValue s = .error .outOfRange s := by
  have hindex : Simulator.index (s.registers loadReg) s = .error .outOfRange s := by
    rw [Simulator.index, dif_neg (Nat.not_lt.mpr h)]
    rfl
  change (Simulator.index (s.registers loadReg) >>= _) s = _
  exact bind_of_error hindex

theorem delayedLoad_ends (s : Simulator) :
    Ends (Simulator.delayedLoad nextReg nextValue) s
      (fun _ s' => (s.registers loadReg).toNat < 40 ∧
        s' = { s with registers := loaded s.registers nextReg nextValue })
      (fun e _ => e = .outOfRange ∧ 40 ≤ (s.registers loadReg).toNat) := by
  by_cases hindex : (s.registers loadReg).toNat < 40
  · exact ends_of_ok (delayedLoad_of_lt _ _ hindex) ⟨hindex, rfl⟩
  · exact ends_of_error (delayedLoad_of_le _ _ (Nat.not_lt.mp hindex)) ⟨rfl, Nat.not_lt.mp hindex⟩

/-! ## Exceptions -/

/-- What `ExceptionHandler` finds when the instruction started in `s` has called `RaiseException(…, badVAddr)`:
the load that was pending is done, and else nothing. -/
structure Precise (s : Simulator) (badVAddr : BitVec 32) (s' : Simulator) : Prop where
  memory : s'.machine.mainMemory = s.machine.mainMemory
  registers : s'.registers = loaded (Function.update s.registers badVAddrReg badVAddr) 0#32 0#32

/-- Nothing has been assigned since `s₀`, except for the bits of the page table. -/
structure Unassigned (s₀ s : Simulator) : Prop where
  registers : s.registers = s₀.registers
  memory : s.machine.mainMemory = s₀.machine.mainMemory
  paged : Paged s₀.machine → Paged s.machine

theorem Unassigned.refl (s : Simulator) : Unassigned s s := ⟨rfl, rfl, fun h => h⟩

/-- How an instruction started in `s` stops; `fault` is that it makes the simulator stop. -/
inductive Stops (s : Simulator) (fault : Prop) : SimStop → Simulator → Prop where
  | handler {which : ExceptionType} {badVAddr : BitVec 32} {s' : Simulator} (hfine : ¬fault)
      (hindex : (s.registers loadReg).toNat < 40) (hprecise : Precise s badVAddr s') :
      Stops s fault (.handler which badVAddr) s'
  | outOfRange {s' : Simulator} (hfine : ¬fault) (hindex : 40 ≤ (s.registers loadReg).toNat) :
      Stops s fault .outOfRange s'
  | assertion {s' : Simulator} (h : fault ∨ ¬Paged s.machine) : Stops s fault .assertion s'
  | undefinedDivision {s' : Simulator} (h : fault) : Stops s fault .undefinedDivision s'

variable {fault : Prop} {α : Type} {Q : α → Simulator → Prop}

theorem loadReg_update (registers : Fin 40 → BitVec 32) (badVAddr : BitVec 32) :
    Function.update registers badVAddrReg badVAddr loadReg = registers loadReg :=
  Function.update_of_ne (by decide) _ _

theorem raiseException_ends (hsame : Unassigned s₀ s) (hfine : ¬fault) (which : ExceptionType)
    (badVAddr : BitVec 32) :
    Ends (Simulator.raiseException which badVAddr : Sim α) s Q (Stops s₀ fault) := by
  obtain ⟨t, ht⟩ : ∃ t : Simulator,
      t = { s with registers := Function.update s.registers badVAddrReg badVAddr } := ⟨_, rfl⟩
  have hload : t.registers loadReg = s₀.registers loadReg := by
    rw [ht, ← hsame.registers]
    exact loadReg_update s.registers badVAddr
  refine ends_modify_bind ?_
  rw [← ht]
  by_cases hindex : (s₀.registers loadReg).toNat < 40
  · have hrun := delayedLoad_of_lt 0#32 0#32 (by rw [hload]; exact hindex)
    refine ends_of_error (bind_of_ok hrun) (Stops.handler hfine hindex ⟨?_, ?_⟩)
    · rw [ht]
      exact hsame.memory
    · rw [ht, ← hsame.registers]
  · have hindex' : 40 ≤ (s₀.registers loadReg).toNat := Nat.not_lt.mp hindex
    have hrun := delayedLoad_of_le 0#32 0#32 (by rw [hload]; exact hindex')
    exact ends_of_error (bind_of_error hrun) (Stops.outOfRange hfine hindex')

theorem readMem_ends (hsame : Unassigned s₀ s) (hfine : ¬fault) (addr : BitVec 32) {size : ℕ}
    (hsize : size = 1 ∨ size = 2 ∨ size = 4) :
    Ends (Simulator.readMem addr size) s (fun _ s' => Unassigned s₀ s') (Stops s₀ fault) := by
  refine ends_get_bind ?_
  obtain ⟨hread, hno⟩ | ⟨which, hread⟩ | ⟨value, m, hread, hmemory, hpaged⟩ :=
    readMemInPlace_cases s.machine addr hsize
  · rw [hread]
    exact ends_throw (Stops.assertion (Or.inr fun hp => hno (hsame.paged hp)))
  · rw [hread]
    exact ends_set_bind (raiseException_ends hsame hfine which addr)
  · rw [hread]
    exact ends_set_bind (ends_pure ⟨hsame.registers, hmemory.trans hsame.memory, fun h =>
      hpaged (hsame.paged h)⟩)

theorem writeMem_ends (hsame : Unassigned s₀ s) (hfine : ¬fault) (addr value : BitVec 32) {size : ℕ}
    (hsize : size = 1 ∨ size = 2 ∨ size = 4) :
    Ends (Simulator.writeMem addr size value) s (fun _ s' => s'.registers = s₀.registers)
      (Stops s₀ fault) := by
  refine ends_get_bind ?_
  obtain ⟨hwrite, hno⟩ | ⟨which, hwrite⟩ | ⟨m, hwrite⟩ :=
    writeMemInPlace_cases s.machine addr value hsize
  · rw [hwrite]
    exact ends_throw (Stops.assertion (Or.inr fun hp => hno (hsame.paged hp)))
  · rw [hwrite]
    exact ends_set_bind (raiseException_ends hsame hfine which addr)
  · rw [hwrite]
    exact ends_set hsame.registers

/-! ## The cases of the `switch` -/

/-- The `switch` is left by a `break`. -/
structure Continues (s : Simulator) (fault : Prop) (after : After) (s' : Simulator) : Prop where
  fine : ¬fault
  nextLoadReg : after.nextLoadReg.toNat < 32
  loadReg : s'.registers loadReg = s.registers loadReg

theorem toNat_ofNat_reg (num : Fin 32) : (BitVec.ofNat 32 num).toNat < 32 := by
  rw [BitVec.toNat_ofNat]
  have hlt := num.isLt
  omega

section Cases

variable {after : After} {E : SimStop → Simulator → Prop}

theorem setReg_ends {i : Fin 40} (hi : i ≠ loadReg) (value : BitVec 32) :
    Ends (Simulator.setReg i value) s (fun _ s' => s'.registers loadReg = s.registers loadReg) E :=
  ends_modify (Function.update_of_ne (Ne.symm hi) _ _)

theorem reg_ends (i : Fin 40) :
    Ends (Simulator.reg i) s (fun value s' => value = s.registers i ∧ s' = s) E :=
  ends_get_bind (ends_pure ⟨rfl, rfl⟩)

variable (hfine : ¬fault) (hafter : after.nextLoadReg.toNat < 32)

include hfine hafter

theorem assign_ends (num : Fin 32) (value : BitVec 32) :
    Ends (Simulator.assign num value after) s (Continues s fault) E := by
  refine (setReg_ends (gpReg_ne (by decide)) value).bind fun _ s' hs' => ?_
  exact ends_pure ⟨hfine, hafter, hs'⟩

theorem assignHiLo_ends (hi lo : BitVec 32) :
    Ends (Simulator.assignHiLo hi lo after) s (Continues s fault) E := by
  refine (setReg_ends (by decide) lo).bind fun _ s₁ hs₁ => ?_
  refine (setReg_ends (by decide) hi).bind fun _ s₂ hs₂ => ?_
  exact ends_pure ⟨hfine, hafter, hs₂.trans hs₁⟩

theorem assignUnless_ends (overflow : Bool) (num : Fin 32) (value : BitVec 32) :
    Ends (Simulator.assignUnless overflow num value after) s (Continues s fault) (Stops s fault) := by
  unfold Simulator.assignUnless
  split
  · exact raiseException_ends (Unassigned.refl s) hfine _ _
  · exact assign_ends hfine hafter num value

theorem branchCase_ends (hs : s.registers loadReg = s₀.registers loadReg) (extra : BitVec 32) (taken : Bool) :
    Ends (Simulator.branch extra taken after) s (Continues s₀ fault) E := by
  refine (reg_ends nextPCReg).bind ?_
  rintro nextPC s ⟨-, rfl⟩
  refine ends_pure ⟨hfine, ?_, hs⟩
  cases taken
  · exact hafter
  · exact hafter

omit hafter in
theorem load_ends (rt : Fin 32) (tmp : BitVec 32) {size : ℕ} (hsize : size = 1 ∨ size = 2 ∨ size = 4)
    (convert : BitVec 32 → BitVec 32) :
    Ends (Simulator.load rt tmp size convert after) s (Continues s fault) (Stops s fault) := by
  refine (readMem_ends (Unassigned.refl s) hfine tmp hsize).bind fun value s₁ hs₁ => ?_
  exact ends_pure ⟨hfine, toNat_ofNat_reg rt, congrFun hs₁.registers loadReg⟩

omit hafter in
theorem loadAligned_ends (rt : Fin 32) (tmp mask : BitVec 32) {size : ℕ}
    (hsize : size = 1 ∨ size = 2 ∨ size = 4) (convert : BitVec 32 → BitVec 32) :
    Ends (Simulator.loadAligned rt tmp mask size convert after) s (Continues s fault)
      (Stops s fault) := by
  unfold Simulator.loadAligned
  split
  · exact raiseException_ends (Unassigned.refl s) hfine _ _
  · exact load_ends hfine rt tmp hsize convert

theorem store_ends (tmp value : BitVec 32) {size : ℕ} (hsize : size = 1 ∨ size = 2 ∨ size = 4) :
    Ends (Simulator.store tmp size value after) s (Continues s fault) (Stops s fault) := by
  refine (writeMem_ends (Unassigned.refl s) hfine tmp value hsize).bind fun _ s₁ hs₁ => ?_
  exact ends_pure ⟨hfine, hafter, congrFun hs₁ loadReg⟩

omit hfine in
theorem divide_ends (rs rt : BitVec 32) :
    Ends (Simulator.divide rs rt after) s
      (Continues s (rs = 0x80000000#32 ∧ rt = 0xffffffff#32))
      (Stops s (rs = 0x80000000#32 ∧ rt = 0xffffffff#32)) := by
  unfold Simulator.divide
  split
  · rename_i hzero
    refine assignHiLo_ends (fun h => ?_) hafter _ _
    rw [h.2] at hzero
    exact absurd hzero (by decide)
  · split
    · rename_i hfault
      exact ends_throw (Stops.undefinedDivision hfault)
    · rename_i hfine
      exact assignHiLo_ends hfine hafter _ _

omit hfine hafter in
theorem loadPart_ends (rt : Fin 32) (tmp : BitVec 32)
    (merge : BitVec 32 → BitVec 32 → BitVec 32 → BitVec 32) :
    Ends (Simulator.loadPart rt tmp merge after) s (Continues s (tmp &&& 3#32 ≠ 0#32))
      (Stops s (tmp &&& 3#32 ≠ 0#32)) := by
  unfold Simulator.loadPart
  split
  · rename_i hfault
    exact ends_throw (Stops.assertion (Or.inl hfault))
  · rename_i hfine
    refine (readMem_ends (Unassigned.refl s) hfine tmp (by decide)).bind fun value s₁ hs₁ => ?_
    refine (reg_ends Model.loadReg).bind ?_
    rintro num s₁ ⟨-, rfl⟩
    refine (reg_ends loadValueReg).bind ?_
    rintro loadedValue s₁ ⟨-, rfl⟩
    refine (reg_ends (gpReg rt)).bind ?_
    rintro old s₁ ⟨-, rfl⟩
    exact ends_pure ⟨hfine, toNat_ofNat_reg rt, congrFun hs₁.registers Model.loadReg⟩

omit hfine in
theorem storePart_ends (rt : Fin 32) (tmp : BitVec 32)
    (merge : BitVec 32 → BitVec 32 → BitVec 32 → BitVec 32) :
    Ends (Simulator.storePart rt tmp merge after) s (Continues s (tmp &&& 3#32 ≠ 0#32))
      (Stops s (tmp &&& 3#32 ≠ 0#32)) := by
  unfold Simulator.storePart
  split
  · rename_i hfault
    exact ends_throw (Stops.assertion (Or.inl hfault))
  · rename_i hfine
    refine (readMem_ends (Unassigned.refl s) hfine _ (by decide)).bind fun value s₁ hs₁ => ?_
    refine (reg_ends (gpReg rt)).bind ?_
    rintro old s₁ ⟨-, rfl⟩
    refine (writeMem_ends hs₁ hfine _ _ (by decide)).bind fun _ s₂ hs₂ => ?_
    exact ends_pure ⟨hfine, hafter, congrFun hs₂ Model.loadReg⟩

end Cases

/-! ## One instruction -/

/-- The instructions that make the simulator stop: parts of words at an address that is no multiple of four, and the
division without a quotient. The last three are not decoded. -/
def HostFault (registers : Fin 40 → BitVec 32) (instr : Instruction) : Prop :=
  match instr.opCode with
  | .lwl | .lwr | .swl | .swr => (registers (gpReg instr.rs) + instr.extra) &&& 3#32 ≠ 0#32
  | .div => registers (gpReg instr.rs) = 0x80000000#32 ∧ registers (gpReg instr.rt) = 0xffffffff#32
  | .rfe | .special | .bcond => True
  | _ => False

/-- INTERNAL: **every case of the `switch`.**
SRCLINE: machine/mipssim.cc:123-553 -/
theorem execute_ends (s : Simulator) (instr : Instruction) :
    Ends (Simulator.execute instr) s (Continues s (HostFault s.registers instr))
      (Stops s (HostFault s.registers instr)) := by
  obtain ⟨opCode, rs, rt, rd, extra⟩ := instr
  refine ends_get_bind ?_
  have hzero : (0#32).toNat < 32 := by decide
  have hsame := Unassigned.refl s
  cases opCode with
  | addiu | addu | and | andi | lui | mfhi | mflo | nor | or | ori | sll | sllv | slt | slti | sltiu | sltu
  | sra | srav | srl | srlv | subu | xor | xori => exact assign_ends id hzero _ _
  | add | addi | sub => exact assignUnless_ends id hzero _ _ _
  | beq | bgez | bgtz | blez | bltz | bne => exact branchCase_ends id hzero rfl _ _
  | mult | multu => exact assignHiLo_ends id hzero _ _
  | lb | lbu => exact load_ends id _ _ (by decide) _
  | lh | lhu | lw => exact loadAligned_ends id _ _ _ (by decide) _
  | sb | sh | sw => exact store_ends id hzero _ _ (by decide)
  | lwl | lwr => exact loadPart_ends _ _ _
  | swl | swr => exact storePart_ends hzero _ _ _
  | div => exact divide_ends hzero _ _
  | syscall | res | unimp => exact raiseException_ends hsame id _ _
  | rfe | special | bcond => exact ends_throw (Stops.assertion (Or.inl trivial))
  | j | jr => exact ends_pure ⟨id, hzero, rfl⟩
  | bgezal | bltzal =>
    refine (setReg_ends (by decide) _).bind fun _ s₁ hs₁ => ?_
    refine (reg_ends (gpReg rs)).bind ?_
    rintro value s₁ ⟨-, rfl⟩
    exact branchCase_ends id hzero hs₁ _ _
  | jal => exact (setReg_ends (by decide) _).bind fun _ s₁ hs₁ => ends_pure ⟨id, hzero, hs₁⟩
  | jalr =>
    refine (setReg_ends (gpReg_ne (by decide)) _).bind fun _ s₁ hs₁ => ?_
    refine (reg_ends (gpReg rs)).bind ?_
    rintro value s₁ ⟨-, rfl⟩
    exact ends_pure ⟨id, hzero, hs₁⟩
  | mthi | mtlo =>
    exact (setReg_ends (by decide) _).bind fun _ s₁ hs₁ => ends_pure ⟨id, hzero, hs₁⟩
  | divu =>
    dsimp only
    split
    · exact assignHiLo_ends id hzero _ _
    · exact assignHiLo_ends id hzero _ _

theorem finish_ends {after : After} (s : Simulator) :
    Ends (Simulator.finish after) s
      (fun _ s' => (s.registers loadReg).toNat < 40 ∧ s'.registers 0 = 0#32 ∧
        s'.registers loadReg = after.nextLoadReg)
      (fun e _ => e = .outOfRange ∧ 40 ≤ (s.registers loadReg).toNat) := by
  refine (delayedLoad_ends _ _ s).bind ?_
  rintro - s₁ ⟨hindex, rfl⟩
  exact ends_of_ok rfl ⟨hindex, rfl, rfl⟩

/-- The word at the program counter makes the simulator stop. -/
def FetchFault (s : Simulator) : Prop :=
  ∃ word m, s.machine.readMemInPlace (s.registers pcReg) 4 = some (.ok word, m) ∧
    HostFault s.registers (.decode word)

theorem Stops.of_unassigned {s₁ s' : Simulator} {e : SimStop} (hsame : Unassigned s s₁)
    (h : Stops s₁ fault e s') : Stops s fault e s' := by
  obtain ⟨hregisters, hmemory, hpaged⟩ := hsame
  cases h with
  | handler hfine hindex hprecise =>
    rw [hregisters] at hindex
    refine Stops.handler hfine hindex ⟨hprecise.memory.trans hmemory, ?_⟩
    rw [hprecise.registers, hregisters]
  | outOfRange hfine hindex =>
    rw [hregisters] at hindex
    exact Stops.outOfRange hfine hindex
  | assertion h => exact Stops.assertion (h.imp_right fun hno hp => hno (hpaged hp))
  | undefinedDivision h => exact Stops.undefinedDivision h

/-- INTERNAL: **one instruction.**
SRCLINE: machine/mipssim.cc:93-565 -/
theorem oneInstruction_ends (s : Simulator) :
    Ends Simulator.oneInstruction s
      (fun _ s' => ¬FetchFault s ∧ (s.registers loadReg).toNat < 40 ∧ s'.registers 0 = 0#32 ∧
        (s'.registers loadReg).toNat < 32)
      (Stops s (FetchFault s)) := by
  refine (reg_ends pcReg).bind ?_
  rintro pc s ⟨rfl, rfl⟩
  have hsize : 4 = 1 ∨ 4 = 2 ∨ 4 = 4 := by decide
  have hnone : (∀ word m, s.machine.readMemInPlace (s.registers pcReg) 4 ≠ some (.ok word, m)) →
      ¬FetchFault s := fun h ⟨word, m, hword, _⟩ => h word m hword
  obtain ⟨hread, hno⟩ | ⟨which, hread⟩ | ⟨word, m, hread, hmemory, hpaged⟩ :=
    readMemInPlace_cases s.machine (s.registers pcReg) hsize
  · refine Ends.bind (Q := fun _ _ => False) (ends_get_bind ?_) fun _ _ hf => hf.elim
    rw [hread]
    exact ends_throw (Stops.assertion (Or.inr hno))
  · have hfine := hnone fun word m h => by simp [hread] at h
    refine Ends.bind (Q := fun _ _ => False) (ends_get_bind ?_) fun _ _ hf => hf.elim
    rw [hread]
    exact ends_set_bind (raiseException_ends (Unassigned.refl s) hfine which _)
  · have hfault : FetchFault s ↔ HostFault s.registers (.decode word) := by
      refine ⟨?_, fun h => ⟨word, m, hread, h⟩⟩
      rintro ⟨word', m', hword, h⟩
      rw [hread] at hword
      cases hword
      exact h
    have hsame : Unassigned s { s with machine := m } := ⟨rfl, hmemory, hpaged⟩
    refine Ends.bind (Q := fun raw s₁ => raw = word ∧ s₁ = { s with machine := m }) ?_ ?_
    · refine ends_get_bind ?_
      rw [hread]
      exact ends_set_bind (ends_pure ⟨rfl, rfl⟩)
    · rintro raw s₁ ⟨rfl, rfl⟩
      rw [hfault]
      refine ((execute_ends _ _).imp_error fun e s' h => h.of_unassigned hsame).bind ?_
      rintro after s₁ ⟨hfine, hnext, hload⟩
      refine (finish_ends s₁).imp ?_ ?_
      · rintro - s₂ ⟨hindex, hzero, hload₂⟩
        rw [hload] at hindex
        rw [hload₂]
        exact ⟨hfine, hindex, hzero, hnext⟩
      · rintro e s₂ ⟨rfl, hindex⟩
        rw [hload] at hindex
        exact Stops.outOfRange hfine hindex

end Commands

end Nachos.Analysis
