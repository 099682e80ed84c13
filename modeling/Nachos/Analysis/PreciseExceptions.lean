import Nachos.Analysis.InstructionResults
import Nachos.Analysis.SimulatorCommands
import Nachos.Library.Runs

/-!
# Exceptions are precise, and where the simulator stops

Both are read off `oneInstruction_ends`. An instruction that raises an exception has assigned
nothing before, so the handler finds the array `loaded`: the pending load is done and `LoadReg` is 0. That
`LoadReg` is the number of a general register and that register 0 is 0 is kept by everything that writes the
array between two instructions.

Not every instruction completes or raises an exception: a program stops the simulator with `LWL`, `LWR`,
`SWL` and `SWR` at an address that is no multiple of four, and by dividing the least `int` by -1.
-/

set_option autoImplicit false

namespace Nachos.Analysis

open Nachos.Library Nachos.Model

/-! ## Instructions that stop the simulator -/

theorem opTable_decoded : ∀ i : Fin 64,
    (opTable.getD i (.res, .ifmt)).1 ≠ .rfe := by
  decide

theorem specialTable_decoded : ∀ i : Fin 64, specialTable.getD i .res ≠ .rfe ∧
    specialTable.getD i .res ≠ .special ∧ specialTable.getD i .res ≠ .bcond := by
  decide

/-- INTERNAL: **what `Decode` gives is a case of the `switch`.**
SRCLINE: machine/mipssim.cc:589-626 -/
theorem decode_opCode (word : BitVec 32) : (Instruction.decode word).opCode ≠ .rfe ∧
    (Instruction.decode word).opCode ≠ .special ∧ (Instruction.decode word).opCode ≠ .bcond := by
  have hentry := opTable_decoded ⟨(word.extractLsb' 26 6).toNat, (word.extractLsb' 26 6).isLt⟩
  have hindex : (word &&& 0x3f#32).toNat < 64 := by
    rw [BitVec.toNat_and]
    exact Nat.lt_of_le_of_lt Nat.and_le_right (by decide)
  have hspecial := specialTable_decoded ⟨(word &&& 0x3f#32).toNat, hindex⟩
  simp only [Instruction.decode, opInfo_eq]
  cases hop : (opTable.getD (word.extractLsb' 26 6).toNat (.res, .ifmt)).1 with
  | special => exact hspecial
  | bcond =>
    simp only [Instruction.finalOpCode]
    split_ifs <;> simp
  | rfe => exact absurd hop hentry
  | _ => simp [Instruction.finalOpCode]

/-- An instruction for a part of a word at an address that is no multiple of four, or a division
whose quotient is no `int`. -/
def Unsupported (registers : Fin 40 → BitVec 32) (instr : Instruction) : Prop :=
  (instr.opCode = .lwl ∨ instr.opCode = .lwr ∨ instr.opCode = .swl ∨ instr.opCode = .swr) ∧
      (registers (gpReg instr.rs) + instr.extra) &&& 3#32 ≠ 0#32 ∨
    instr.opCode = .div ∧ registers (gpReg instr.rs) = 0x80000000#32 ∧
      registers (gpReg instr.rt) = 0xffffffff#32

theorem hostFault_decode_iff (registers : Fin 40 → BitVec 32) (word : BitVec 32) :
    HostFault registers (.decode word) ↔ Unsupported registers (.decode word) := by
  obtain ⟨hrfe, hspecial, hbcond⟩ := decode_opCode word
  generalize Instruction.decode word = instr at *
  obtain ⟨opCode, rs, rt, rd, extra⟩ := instr
  cases opCode <;> simp_all [HostFault, Unsupported]

/-- SOURCE: machine/mipssim.cc:93-626; machine/translate.cc:186-255 — for every array of registers, memory and
page table `OneInstruction` completes or raises an exception exactly if `LoadReg` is an index of the array and the
word at the program counter is not one of the unsupported instructions. -/
theorem oneInstruction_completes_iff (registers : Fin 40 → BitVec 32) (mem : Memory)
    (table : List TranslationEntry) :
    ((∃ s', Simulator.oneInstruction ⟨registers, mem, none, some table⟩ = .ok () s') ∨
      ∃ which badVAddr s', Simulator.oneInstruction ⟨registers, mem, none, some table⟩ =
        .error (.handler which badVAddr) s') ↔
      (registers loadReg).toNat < 40 ∧
        ∀ word m, Machine.readMemInPlace ⟨mem, none, some table⟩ (registers pcReg) 4 =
          some (.ok word, m) → ¬Unsupported registers (.decode word) := by
  obtain ⟨s, hs⟩ : ∃ s : Simulator, s = ⟨registers, mem, none, some table⟩ := ⟨_, rfl⟩
  have hends := oneInstruction_ends s
  have hfault : ¬FetchFault s ↔ ∀ word m, Machine.readMemInPlace ⟨mem, none, some table⟩
      (registers pcReg) 4 = some (.ok word, m) → ¬Unsupported registers (.decode word) := by
    simp only [FetchFault, hs, hostFault_decode_iff, not_exists, not_and]
  have hindex : (s.registers loadReg).toNat = (registers loadReg).toNat := by rw [hs]
  have hpaged : Paged s.machine := by
    rw [hs]
    exact ⟨rfl, table, rfl⟩
  rw [← hs, ← hfault, ← hindex]
  constructor
  · rintro (⟨s', hrun⟩ | ⟨which, badVAddr, s', hrun⟩)
    · obtain ⟨hfine, hlt, -, -⟩ := hends.ok () s' hrun
      exact ⟨hlt, hfine⟩
    · cases hends.error _ s' hrun with
      | handler hfine hlt hprecise => exact ⟨hlt, hfine⟩
  · rintro ⟨hlt, hfine⟩
    cases hrun : Simulator.oneInstruction s with
    | ok u s' => exact Or.inl ⟨s', rfl⟩
    | error e s' =>
      cases hends.error e s' hrun with
      | handler _ _ _ => exact Or.inr ⟨_, _, s', rfl⟩
      | outOfRange _ hge => exact absurd hlt (Nat.not_lt.mpr hge)
      | assertion h => exact (h.elim hfine fun hno => hno hpaged).elim
      | undefinedDivision h => exact absurd h hfine

/-- The array of a process that is about to execute the word at address 0. -/
def arrayAtProgram (gp : Fin 32 → BitVec 32) : Fin 40 → BitVec 32 := fun i =>
  if h : i.val < 32 then gp ⟨i.val, h⟩ else if i = nextPCReg then 4#32 else 0#32

/-- SOURCE: machine/mipssim.cc:280-286, 195-203 — `LWL r2,1(r0)` fails an assertion, and `DIV r1,r2` divides the
least `int` by -1. -/
theorem lwl_and_div_stop :
    (∃ s', Simulator.oneInstruction ⟨arrayAtProgram fun _ => 0#32, program 0x88020001#32⟩ =
      .error .assertion s') ∧
    ∃ s', Simulator.oneInstruction ⟨arrayAtProgram fun i => if i = 1 then 0x80000000#32
        else if i = 2 then 0xffffffff#32 else 0#32, program 0x0022001a#32⟩ =
      .error .undefinedDivision s' :=
  ⟨⟨_, rfl⟩, ⟨_, rfl⟩⟩

/-! ## What the handler finds -/

/-- The registers and the memory at the entry of `ExceptionHandler`, for an instruction started in `s`. -/
structure HandlerFinds (s : Simulator) (badVAddr : BitVec 32) (s' : Simulator) : Prop where
  pc : s'.registers pcReg = s.registers pcReg
  nextPC : s'.registers nextPCReg = s.registers nextPCReg
  hi : s'.registers hiReg = s.registers hiReg
  lo : s'.registers loReg = s.registers loReg
  memory : s'.machine.mainMemory = s.machine.mainMemory
  general : ∀ num : Fin 32, s'.registers (gpReg num) =
    if num = 0 then 0#32
    else if num.val = (s.registers loadReg).toNat then s.registers loadValueReg
    else s.registers (gpReg num)
  noLoad : s'.registers loadReg = 0#32 ∧ s'.registers loadValueReg = 0#32
  badVAddr : s'.registers badVAddrReg = badVAddr

theorem loaded_of_ne {registers : Fin 40 → BitVec 32} {nextReg nextValue : BitVec 32} {i : Fin 40}
    (hzero : i ≠ 0) (hvalue : i ≠ loadValueReg) (hreg : i ≠ loadReg) :
    loaded registers nextReg nextValue i =
      if i.val = (registers loadReg).toNat then registers loadValueReg else registers i := by
  rw [loaded, if_neg hzero, if_neg hvalue, if_neg hreg]

theorem gpReg_ne_zero {num : Fin 32} (h : num ≠ 0) : gpReg num ≠ 0 := by
  intro he
  have hsame : (gpReg num).val = 0 := congrArg Fin.val he
  exact h (Fin.ext hsame)

/-- INTERNAL: a pending load of a general register leaves the other registers alone. -/
theorem Precise.finds {s s' : Simulator} {badVAddr : BitVec 32} (h : Precise s badVAddr s')
    (hload : (s.registers loadReg).toNat < 32) : HandlerFinds s badVAddr s' := by
  have hother : ∀ i : Fin 40, 32 ≤ i.val → i ≠ loadValueReg → i ≠ loadReg →
      s'.registers i = Function.update s.registers badVAddrReg badVAddr i := by
    intro i hi hvalue hreg
    have hzero : i ≠ 0 := by
      rintro rfl
      exact absurd hi (by decide)
    rw [h.registers, loaded_of_ne hzero hvalue hreg, loadReg_update, if_neg (by omega)]
  refine ⟨hother _ (by decide) (by decide) (by decide), hother _ (by decide) (by decide) (by decide),
    hother _ (by decide) (by decide) (by decide), hother _ (by decide) (by decide) (by decide),
    h.memory, fun num => ?_, ?_, ?_⟩
  · rw [h.registers]
    by_cases hnum : num = 0
    · rw [hnum, if_pos rfl]
      rfl
    · have hval : (gpReg num).val = num.val := rfl
      rw [if_neg hnum, loaded_of_ne (gpReg_ne_zero hnum) (gpReg_ne (by decide)) (gpReg_ne (by decide)),
        loadReg_update, hval, Function.update_of_ne (by decide), Function.update_of_ne (gpReg_ne (by decide))]
  · rw [h.registers]
    exact ⟨rfl, rfl⟩
  · rw [hother _ (by decide) (by decide) (by decide), Function.update_self]

/-! ## Between instructions -/

/-- Register 0 is 0, and a load is pending for a general register. -/
def AtBoundary (registers : Fin 40 → BitVec 32) : Prop :=
  registers 0 = 0#32 ∧ (registers loadReg).toNat < 32

theorem atBoundary_loaded (registers : Fin 40 → BitVec 32) {nextReg : BitVec 32} (nextValue : BitVec 32)
    (h : nextReg.toNat < 32) : AtBoundary (loaded registers nextReg nextValue) :=
  ⟨rfl, h⟩

theorem AtBoundary.update {registers : Fin 40 → BitVec 32} (h : AtBoundary registers) {i : Fin 40}
    {value : BitVec 32} (hvalue : i ≠ 0 ∧ i ≠ loadReg ∨ value = 0#32) :
    AtBoundary (Function.update registers i value) := by
  obtain ⟨hzero, hload⟩ := h
  rcases hvalue with ⟨hi, hi'⟩ | rfl
  · refine ⟨?_, ?_⟩
    · rw [Function.update_of_ne (Ne.symm hi)]
      exact hzero
    · rw [Function.update_of_ne (Ne.symm hi')]
      exact hload
  · refine ⟨?_, ?_⟩
    · rw [Function.update_apply]
      split
      · rfl
      · exact hzero
    · rw [Function.update_apply]
      split
      · decide
      · exact hload

section Boundaries

variable {s : Simulator} {α : Type} {E : SimStop → Simulator → Prop}

/-- The array is left as it has to be, also for the handler. -/
def Keeps (x : Sim α) (s : Simulator) : Prop :=
  Ends x s (fun _ s' => AtBoundary s'.registers)
    (fun e s' => ∀ which badVAddr, e = .handler which badVAddr → AtBoundary s'.registers)

theorem Precise.atBoundary {s' : Simulator} {badVAddr : BitVec 32} (h : Precise s badVAddr s') :
    AtBoundary s'.registers := by
  rw [h.registers]
  exact atBoundary_loaded _ _ (by decide)

theorem Stops.atBoundary {s' : Simulator} {fault : Prop} {e : SimStop} (h : Stops s fault e s') :
    ∀ which badVAddr, e = .handler which badVAddr → AtBoundary s'.registers := by
  rintro which badVAddr rfl
  cases h with
  | handler hfine hindex hprecise => exact hprecise.atBoundary

/-- INTERNAL: **an instruction, or the exception it raises, ends at a boundary.**
SRCLINE: machine/mipssim.cc:93-565 -/
theorem oneInstruction_keeps (s : Simulator) : Keeps Simulator.oneInstruction s :=
  (oneInstruction_ends s).imp (fun _ _ h => ⟨h.2.2.1, h.2.2.2⟩) fun _ _ h => h.atBoundary

theorem delayedLoad_keeps (s : Simulator) : Keeps (Simulator.delayedLoad 0#32 0#32) s := by
  refine (delayedLoad_ends 0#32 0#32 s).imp ?_ ?_
  · rintro - s' ⟨-, rfl⟩
    exact atBoundary_loaded _ _ (by decide)
  · rintro e s' ⟨rfl, -⟩ which badVAddr he
    cases he

theorem readMem_keeps (hs : AtBoundary s.registers) (addr : BitVec 32) (size : AccessSize) :
    Keeps (Simulator.readMem addr size.bytes) s := by
  refine (readMem_ends (Unassigned.refl s) not_false addr (bytes_cases size)).imp ?_ fun _ _ h => h.atBoundary
  intro _ s' h
  rw [h.registers]
  exact hs

theorem writeMem_keeps (hs : AtBoundary s.registers) (addr : BitVec 32) (size : AccessSize)
    (value : BitVec 32) : Keeps (Simulator.writeMem addr size.bytes value) s := by
  refine (writeMem_ends (Unassigned.refl s) not_false addr value (bytes_cases size)).imp ?_
    fun _ _ h => h.atBoundary
  intro _ s' h
  rw [h]
  exact hs

theorem setReg_keeps (hs : AtBoundary s.registers) {i : Fin 40} {value : BitVec 32}
    (hvalue : i ≠ 0 ∧ i ≠ loadReg ∨ value = 0#32) :
    Ends (Simulator.setReg i value) s (fun _ s' => AtBoundary s'.registers) E :=
  ends_modify (hs.update hvalue)

theorem increasePC_keeps (hs : AtBoundary s.registers) : Keeps Simulator.increasePC s := by
  refine (reg_ends pcReg).bind ?_
  rintro pc s ⟨-, rfl⟩
  refine (setReg_keeps hs (Or.inl (by decide))).bind fun _ s hs => ?_
  refine (reg_ends nextPCReg).bind ?_
  rintro nextPC s ⟨-, rfl⟩
  refine (setReg_keeps hs (Or.inl (by decide))).bind fun _ s hs => ?_
  exact setReg_keeps hs (Or.inl (by decide))

theorem initRegisters_keeps (hs : AtBoundary s.registers) (numPages : BitVec 32) :
    Keeps (Simulator.initRegisters numPages) s := by
  refine (Ends.forM (I := fun s => AtBoundary s.registers) hs fun i _ s hs =>
    setReg_keeps hs (Or.inr rfl)).bind fun _ s hs => ?_
  refine (setReg_keeps hs (Or.inl (by decide))).bind fun _ s hs => ?_
  refine (setReg_keeps hs (Or.inl (by decide))).bind fun _ s hs => ?_
  exact setReg_keeps hs (Or.inl (by decide))

end Boundaries

/-! ## Runs -/

/-- The machine and all the saved arrays are at a boundary. -/
def AllAtBoundary (t : MachineState) : Prop :=
  AtBoundary t.sim.registers ∧ ∀ thread registers, t.userRegisters thread = some registers →
    AtBoundary registers

theorem after_keeps {α : Type} {t t' : MachineState} {x : Sim α} (ht : AllAtBoundary t)
    (hx : Keeps x t.sim) (h : t.after x = some t') : AllAtBoundary t' := by
  unfold MachineState.after at h
  cases hrun : x t.sim with
  | ok a sim =>
    simp only [hrun, Option.some.injEq] at h
    subst h
    exact ⟨hx.ok a sim hrun, ht.2⟩
  | error e sim =>
    cases e with
    | handler which badVAddr =>
      simp only [hrun, Option.some.injEq] at h
      subst h
      exact ⟨hx.error _ sim hrun which badVAddr rfl, ht.2⟩
    | assertion => simp [hrun] at h
    | undefinedDivision => simp [hrun] at h
    | outOfRange => simp [hrun] at h

/-- INTERNAL: **one event.**
SRCLINE: machine/mipssim.cc:93-582; machine/interrupt.cc:324-325; threads/thread.cc:299-319;
userprog/addrspace.cc:233-254; userprog/exception.cc:35-39 -/
theorem step_atBoundary {t t' : MachineState} {e : MachineEvent} (ht : AllAtBoundary t)
    (h : t.step e = some t') : AllAtBoundary t' := by
  cases e with
  | oneInstruction => exact after_keeps ht (oneInstruction_keeps _) h
  | interrupt => exact after_keeps ht (delayedLoad_keeps _) h
  | writeResult value => exact after_keeps ht (setReg_keeps ht.1 (Or.inl (by decide))) h
  | increasePC => exact after_keeps ht (increasePC_keeps ht.1) h
  | readMem addr size => exact after_keeps ht (readMem_keeps ht.1 addr size) h
  | writeMem addr size value => exact after_keeps ht (writeMem_keeps ht.1 addr size value) h
  | initRegisters numPages => exact after_keeps ht (initRegisters_keeps ht.1 numPages) h
  | saveUserState thread =>
    cases h
    refine ⟨ht.1, fun thread' registers hr => ?_⟩
    by_cases he : thread' = thread
    · rw [he] at hr
      simp only [Function.update_self, Option.some.injEq] at hr
      rw [← hr]
      exact ht.1
    · simp only [Function.update_of_ne he] at hr
      exact ht.2 thread' registers hr
  | restoreUserState thread =>
    simp only [MachineState.step, Option.map_eq_some_iff] at h
    obtain ⟨registers, hr, rfl⟩ := h
    exact ⟨ht.2 thread registers hr, ht.2⟩
  | setMachine machine =>
    cases h
    exact ht

theorem atBoundary_new (machine : Machine) : AllAtBoundary (MachineState.new machine) := by
  have hzero : (0#32).toNat < 32 := by decide
  refine ⟨⟨rfl, hzero⟩, fun thread registers h => ?_⟩
  cases h

/-- INTERNAL: **a run.**
SRCLINE: machine/mipssim.cc:93-582; machine/machine.cc:56-82 -/
theorem always_atBoundary (machine : Machine) (es : List MachineEvent) :
    Always MachineState.step (fun t => AtBoundary t.sim.registers) (MachineState.new machine) es := by
  have hfree : Meets MachineState.step (fun _ _ => True) (MachineState.new machine) es :=
    meets_of_forall (fun _ _ _ => trivial) _
  exact always_of_meets (fun _ ht => ht.1) (fun _ _ _ ht _ h => step_atBoundary ht h)
    (atBoundary_new machine) hfree

/-- SOURCE: machine/mipssim.cc:93-582; machine/machine.cc:100-111; machine/translate.cc:87-169 — if an instruction
raises an exception, the handler finds the array as it was but for the load that was pending and for
`BadVAddrReg`, and the memory as it was. If the load was pending for a general register, then the program counters, `HiReg` and `LoReg`
are unchanged. Along every run it is, and register 0 is 0. -/
theorem exceptions_precise :
    (∀ s : Simulator, Ends Simulator.oneInstruction s (fun _ _ => True) (fun e s' =>
      ∀ which badVAddr, e = .handler which badVAddr →
        Precise s badVAddr s' ∧ ((s.registers loadReg).toNat < 32 → HandlerFinds s badVAddr s'))) ∧
    ∀ (machine : Machine) (es : List MachineEvent),
      Always MachineState.step (fun t => AtBoundary t.sim.registers) (MachineState.new machine) es := by
  refine ⟨fun s => (oneInstruction_ends s).imp (fun _ _ _ => trivial) ?_, always_atBoundary⟩
  rintro e s' hstops which badVAddr rfl
  cases hstops with
  | handler hfine hindex hprecise => exact ⟨hprecise, hprecise.finds⟩

/-- The array with a load of 7 pending for register 4. -/
def loadPending : Fin 40 → BitVec 32 :=
  Function.update (Function.update (arrayAtProgram fun _ => 0#32) loadReg 4#32) loadValueReg 7#32

/-- SOURCE: machine/mipssim.cc:534-536 — `SYSCALL` behind a load. -/
theorem exceptions_precise_syscall :
    ∃ s', Simulator.oneInstruction ⟨loadPending, program 0x0000000c#32⟩ =
        .error (.handler .syscallException 0#32) s' ∧ s'.registers (gpReg 4) = 7#32 ∧
      HandlerFinds ⟨loadPending, program 0x0000000c#32⟩ 0#32 s' := by
  refine ⟨_, rfl, rfl, ?_⟩
  exact ((exceptions_precise.1 _).error _ _ rfl _ _ rfl).2 (by decide)

end Nachos.Analysis
