import Nachos.Analysis.MemoryIsolation
import Nachos.Library.Simulation
import Nachos.Model.Mipssim

/-!
# A process among others runs as it does alone

An instruction comes to memory only through the page table that is installed, so it neither reads nor
writes a byte outside the frames of that table. `StaysInFrames` says both with one equation: under any other
memory outside the frames (`masked`) the instruction does the same, and leaves that memory as it is.

With the frames of different spaces disjoint, the instructions of one process are not seen by another.
By the unwinding rule (`run_filter`), the events of one process in any interleaving are a run of their
own, with the same registers and the same contents of its space.
-/

set_option autoImplicit false

namespace Nachos.Analysis

open Nachos.Library Nachos.Model

/-- INTERNAL: `mem` in the given frames, and `base` elsewhere.
SRCLINE: machine/translate.cc:251 -/
def mask (frames : List ℤ) (base mem : Memory) : Memory :=
  fun x => if x / pageSize ∈ frames then mem x else base x

/-- INTERNAL: a machine with another memory outside the given frames.
SRCLINE: machine/machine.h:143-148 -/
def masked (frames : List ℤ) (base : Memory) (m : Machine) : Machine :=
  { m with mainMemory := mask frames base m.mainMemory }

/-- INTERNAL: the machine works with a page table of the given frames.
SRCLINE: userprog/addrspace.cc:274-278 -/
def Mapped (frames : List ℤ) (m : Machine) : Prop :=
  ∃ mem table, m = ⟨mem, none, some table⟩ ∧ table.map TranslationEntry.physicalPage = frames

theorem eqOn_mask (frames : List ℤ) (base mem : Memory) :
    Set.EqOn (mask frames base mem) mem (frameBytes frames) :=
  fun _ hx => if_pos hx

theorem mask_self (frames : List ℤ) (mem : Memory) : mask frames mem mem = mem := by
  funext x
  exact ite_self _

theorem mask_store {frames : List ℤ} (base mem : Memory) {p size : ℕ} (value : BitVec 32)
    (h : ∀ x : ℤ, (p : ℤ) ≤ x → x < p + size → x ∈ frameBytes frames) :
    mask frames base (mem.store p size value) = (mask frames base mem).store p size value := by
  funext x
  unfold mask Memory.store
  by_cases hx : (p : ℤ) ≤ x ∧ x < p + size
  · rw [if_pos (show x / pageSize ∈ frames from h x hx.1 hx.2), if_pos hx, if_pos hx]
  · rw [if_neg hx, if_neg hx]

/-- INTERNAL: an outcome with the machine changed.
SRCLINE: machine/mipssim.cc:123-553 -/
def onMachine (g : Machine → Machine) : Outcome → Outcome
  | .next r m num value pcAfter => .next r (g m) num value pcAfter
  | .raise which badVAddr m => .raise which badVAddr (g m)

/-- INTERNAL: the machine of an outcome.
SRCLINE: machine/mipssim.cc:123-553 -/
def outcomeMachine : Outcome → Machine
  | .next _ m _ _ _ | .raise _ _ m => m

/-- INTERNAL: the same for the end of an instruction.
SRCLINE: machine/mipssim.cc:93-565 -/
def onExecuted (g : Machine → Machine) : Machine.Executed → Machine.Executed
  | .done r m => .done r (g m)
  | .raised which r m => .raised which r (g m)

/-- INTERNAL: the machine at the end of an instruction.
SRCLINE: machine/mipssim.cc:93-565 -/
def executedMachine : Machine.Executed → Machine
  | .done _ m | .raised _ _ m => m

/-- INTERNAL: a piece of `OneInstruction` that does the same whatever lies outside the frames, does not
change it, and keeps the frames.
SRCLINE: machine/mipssim.cc:93-565 -/
def StaysInFrames (frames : List ℤ) (base : Memory) (m : Machine) (f : Machine → Option Outcome) : Prop :=
  f (masked frames base m) = (f m).map (onMachine (masked frames base)) ∧
    ∀ o, f m = some o → Mapped frames (outcomeMachine o)

theorem staysInFrames_none (frames : List ℤ) (base : Memory) (m : Machine) :
    StaysInFrames frames base m fun _ => none :=
  ⟨rfl, nofun⟩

section Instructions

variable {frames : List ℤ} {m : Machine} (base : Memory)
  (hframes : ∀ f ∈ frames, 0 ≤ f ∧ f < numPhysPages) (h : Mapped frames m)

include hframes h

/-- INTERNAL: `ReadMem` reads in the frames, and keeps them. -/
theorem readMem_masked (addr : BitVec 32) (size : ℕ) :
    (masked frames base m).readMem addr size =
      (m.readMem addr size).map (Except.map (Prod.map id (masked frames base))) ∧
    ∀ value m', m.readMem addr size = some (.ok (value, m')) → Mapped frames m' := by
  obtain ⟨mem, table, rfl, rfl⟩ := h
  unfold Machine.readMem masked
  rw [translate_mainMemory mem]
  rcases htr : Machine.translate ⟨mem, none, some table⟩ addr size false with _ | (e | ⟨p, m'⟩)
  · exact ⟨rfl, nofun⟩
  · exact ⟨rfl, nofun⟩
  · obtain ⟨-, entry, table', -, -, -, rfl, hkept⟩ := translate_ok htr
    have hload : Machine.loadValue (mask (table.map TranslationEntry.physicalPage) base mem) p size =
        Machine.loadValue mem p size :=
      loadValue_congr fun hsize x hx hx' =>
        eqOn_mask _ _ _ (mem_frameBytes_of_translate hframes hsize htr hx hx')
    simp only [Option.map_some, Except.map, hload]
    cases Machine.loadValue mem p size with
    | none => exact ⟨rfl, nofun⟩
    | some value =>
      refine ⟨rfl, fun value' m' heq => ?_⟩
      cases heq
      exact ⟨mem, table', rfl, hkept⟩

/-- INTERNAL: `WriteMem` writes in the frames, and keeps them. -/
theorem writeMem_masked (addr : BitVec 32) (size : ℕ) (value : BitVec 32) :
    (masked frames base m).writeMem addr size value =
      (m.writeMem addr size value).map (Except.map (masked frames base)) ∧
    ∀ m', m.writeMem addr size value = some (.ok m') → Mapped frames m' := by
  obtain ⟨mem, table, rfl, rfl⟩ := h
  unfold Machine.writeMem masked
  rw [translate_mainMemory mem]
  rcases htr : Machine.translate ⟨mem, none, some table⟩ addr size true with _ | (e | ⟨p, m'⟩)
  · exact ⟨rfl, nofun⟩
  · exact ⟨rfl, nofun⟩
  · obtain ⟨-, entry, table', -, -, -, rfl, hkept⟩ := translate_ok htr
    simp only [Option.map_some, Except.map]
    split_ifs with hsize
    · have hstore := mask_store base mem value fun x hx hx' =>
        mem_frameBytes_of_translate hframes hsize htr hx hx'
      refine ⟨by rw [← hstore]; rfl, fun m' heq => ?_⟩
      cases heq
      exact ⟨_, table', rfl, hkept⟩
    · exact ⟨rfl, nofun⟩

omit hframes in
theorem staysInFrames_next (r : Registers) (num : Fin 32) (value pcAfter : BitVec 32) :
    StaysInFrames frames base m fun m => some (.next r m num value pcAfter) := by
  refine ⟨rfl, fun o ho => ?_⟩
  cases ho
  exact h

omit hframes in
theorem staysInFrames_raise (which : ExceptionType) (badVAddr : BitVec 32) :
    StaysInFrames frames base m fun m => some (.raise which badVAddr m) := by
  refine ⟨rfl, fun o ho => ?_⟩
  cases ho
  exact h

theorem staysInFrames_load (instr : Instruction) (r : Registers) (addr : BitVec 32) (size : ℕ)
    (convert : BitVec 32 → BitVec 32) :
    StaysInFrames frames base m fun m => m.load instr r addr size convert := by
  obtain ⟨hread, hmapped⟩ := readMem_masked base hframes h addr size
  simp only [StaysInFrames, Machine.load, hread]
  rcases hm : m.readMem addr size with _ | (which | ⟨value, m'⟩)
  · exact ⟨rfl, nofun⟩
  · exact staysInFrames_raise base h which addr
  · exact staysInFrames_next base (hmapped value m' hm) _ _ _ _

theorem staysInFrames_store (r : Registers) (addr : BitVec 32) (size : ℕ) (value : BitVec 32) :
    StaysInFrames frames base m fun m => m.store r addr size value := by
  obtain ⟨hwrite, hmapped⟩ := writeMem_masked base hframes h addr size value
  simp only [StaysInFrames, Machine.store, hwrite]
  rcases hm : m.writeMem addr size value with _ | (which | m')
  · exact ⟨rfl, nofun⟩
  · exact staysInFrames_raise base h which addr
  · exact staysInFrames_next base (hmapped m' hm) _ _ _ _

theorem staysInFrames_storePart (instr : Instruction) (r : Registers) (tmp : BitVec 32)
    (merge : BitVec 32 → BitVec 32 → BitVec 32 → BitVec 32) :
    StaysInFrames frames base m fun m => m.storePart instr r tmp merge := by
  obtain ⟨hread, hmapped⟩ := readMem_masked base hframes h (tmp &&& ~~~3#32) 4
  unfold Machine.storePart
  split_ifs
  · exact staysInFrames_none _ _ _
  simp only [StaysInFrames, hread]
  rcases hm : m.readMem (tmp &&& ~~~3#32) 4 with _ | (which | ⟨value, m'⟩)
  · exact ⟨rfl, nofun⟩
  · exact staysInFrames_raise base h which _
  · exact staysInFrames_store base hframes (hmapped value m' hm) _ _ _ _

/-- INTERNAL: the `switch`, by what its cases do with memory. -/
theorem staysInFrames_execute (instr : Instruction) (r : Registers) :
    StaysInFrames frames base m fun m => m.execute instr r := by
  unfold Machine.execute
  cases instr.opCode with
  | lb | lbu => exact staysInFrames_load base hframes h _ _ _ _ _
  | sb | sh | sw => exact staysInFrames_store base hframes h _ _ _ _
  | swl | swr => exact staysInFrames_storePart base hframes h _ _ _ _
  | syscall | res | unimp => exact staysInFrames_raise base h _ _
  | rfe | special | bcond => exact staysInFrames_none _ _ _
  | lh | lhu | lw =>
    dsimp only
    split_ifs
    · exact staysInFrames_raise base h _ _
    · exact staysInFrames_load base hframes h _ _ _ _ _
  | lwl | lwr =>
    dsimp only
    split_ifs
    · exact staysInFrames_none _ _ _
    · exact staysInFrames_load base hframes h _ _ _ _ _
  | add | addi | sub =>
    dsimp only
    split_ifs
    · exact staysInFrames_raise base h _ _
    · exact staysInFrames_next base h _ _ _ _
  | div =>
    dsimp only
    split_ifs
    · exact staysInFrames_next base h _ _ _ _
    · exact staysInFrames_none _ _ _
    · exact staysInFrames_next base h _ _ _ _
  | divu =>
    dsimp only
    split_ifs
    · exact staysInFrames_next base h _ _ _ _
    · exact staysInFrames_next base h _ _ _ _
  | _ => exact staysInFrames_next base h _ _ _ _

/-- INTERNAL: **an instruction stays in the frames of its page table.**
SRCLINE: machine/mipssim.cc:93-565 -/
theorem oneInstruction_masked (r : Registers) :
    (masked frames base m).oneInstruction r =
      (m.oneInstruction r).map (onExecuted (masked frames base)) ∧
    ∀ x, m.oneInstruction r = some x → Mapped frames (executedMachine x) := by
  obtain ⟨hread, hmapped⟩ := readMem_masked base hframes h r.pc 4
  simp only [Machine.oneInstruction, hread]
  rcases hm : m.readMem r.pc 4 with _ | (which | ⟨raw, m'⟩)
  · exact ⟨rfl, nofun⟩
  · refine ⟨rfl, fun x hx => ?_⟩
    cases hx
    exact h
  · obtain ⟨hexecute, hmapped'⟩ := staysInFrames_execute base hframes (hmapped raw m' hm) (.decode raw) r
    simp only [Option.map_some, Except.map, Prod.map, id_eq, hexecute]
    rcases ho : m'.execute (.decode raw) r with _ | o
    · exact ⟨rfl, nofun⟩
    · have hmo := hmapped' o ho
      cases o <;>
      · refine ⟨rfl, fun x hx => ?_⟩
        cases hx
        exact hmo

end Instructions

/-! ## Steps -/

theorem mapped_restoreState (s : SpaceState) (a : AddrSpace) : Mapped a.frames (s.restoreState a) :=
  ⟨_, _, rfl, rfl⟩

/-- INTERNAL: an instruction keeps the other spaces, the registers of their threads and all bytes but
those of its own frames. -/
theorem instruction_keeps {s s' : CodeState} (hs : FramesOwned s.kernel) {id : SpaceId} {a : AddrSpace}
    (ha : s.kernel.spaces id = some a) (h : s.oneInstruction id = some s') :
    FramesOwned s'.kernel ∧ (∀ id', id' ≠ id → s'.kernel.spaces id' = s.kernel.spaces id' ∧
      s'.userRegisters id' = s.userRegisters id') ∧
    Set.EqOn s'.kernel.mainMemory s.kernel.mainMemory (frameBytes a.frames)ᶜ := by
  obtain ⟨hmask, hmapped⟩ := oneInstruction_masked s.kernel.mainMemory (hs.exclusive.inRange id a ha)
    (mapped_restoreState s.kernel a) (s.userRegisters id)
  -- Masked with its own memory the machine is the same, so its outcome is.
  have hself : masked a.frames s.kernel.mainMemory (s.kernel.restoreState a) = s.kernel.restoreState a :=
    congrArg (Machine.mk · none (some a.pageTable)) (mask_self _ _)
  simp only [CodeState.oneInstruction, ha, Option.map_eq_some_iff] at h
  obtain ⟨x, hx, rfl⟩ := h
  rw [hself, hx, Option.map_some, Option.some.injEq] at hmask
  obtain ⟨mem, table, hm, hframes⟩ := hmapped x hx
  have hmem : mem = mask a.frames s.kernel.mainMemory mem := by
    have := congrArg (fun x => (executedMachine x).mainMemory) hmask
    cases x <;> (cases hm; exact this)
  have heq : Set.EqOn mem s.kernel.mainMemory (frameBytes a.frames)ᶜ := fun x hx =>
    (congrFun hmem x).trans (if_neg hx)
  cases x <;>
  · cases hm
    exact ⟨hs.saveMachine ha hframes, fun id' hne => ⟨Function.update_of_ne hne _ _,
      Function.update_of_ne hne _ _⟩, heq⟩

/-- Whether an event is one of the process `id`: an access to its memory, for itself or by the kernel, an
instruction or a change of its registers. -/
def isOf (id : SpaceId) : CodeEvent → Bool
  | .space (.readMem id' _ _) | .space (.writeMem id' _ _ _) => id' = id
  | .space _ => false
  | .oneInstruction id' | .writeRegisters id' _ => id' = id

/-- An event of the process `id` or of another one. -/
def Beside (id : SpaceId) (e : CodeEvent) : Prop :=
  match e with
  | .space e' => isOf id e ∨ Foreign id e'
  | _ => True

/-- The file that a construction by name asks for opens. -/
def CodeOpens : CodeEvent → Prop
  | .space e => Opens e
  | _ => True

theorem Beside.opens {id : SpaceId} {e : CodeEvent} (h : Beside id e) : CodeOpens e := by
  cases e with
  | space e' =>
    cases e' with
    | newFilename id' file uninit =>
      rcases h with h | ⟨executable, rfl, -⟩
      · cases h
      · rfl
    | _ => trivial
  | _ => trivial

theorem FramesOwned.codeStep {s s' : CodeState} {e : CodeEvent} (hs : FramesOwned s.kernel)
    (hopen : CodeOpens e) (h : s.step e = some s') : FramesOwned s'.kernel := by
  cases e with
  | space e =>
    simp only [CodeState.step, Option.map_eq_some_iff] at h
    obtain ⟨kernel, hstep, rfl⟩ := h
    refine hs.step ?_ hstep
    rintro id uninit rfl
    cases hopen
  | oneInstruction id =>
    cases ha : s.kernel.spaces id with
    | none => simp [CodeState.step, CodeState.oneInstruction, ha] at h
    | some a => exact (instruction_keeps hs ha h).1
  | writeRegisters id r =>
    cases h
    exact hs

/-- INTERNAL: `t` is `s` as the process `id` sees it, with `base` outside its frames.
SRCLINE: userprog/addrspace.cc:274-278 -/
structure Alone (id : SpaceId) (frames : List ℤ) (base : Memory) (s t : CodeState) : Prop where
  space : ∃ a, s.kernel.spaces id = some a ∧ t.kernel.spaces id = some a ∧ a.frames = frames
  memory : t.kernel.mainMemory = mask frames base s.kernel.mainMemory
  registers : t.userRegisters id = s.userRegisters id

section Steps

variable {id : SpaceId} {frames : List ℤ} {base : Memory} {s s' t : CodeState}

/-- INTERNAL: the same access to memory on both sides. -/
theorem Alone.saveMachine {m : Machine} (h : Mapped frames m) {rs rt : SpaceId → Registers}
    (hr : rt id = rs id) : Alone id frames base ⟨s.kernel.saveMachine id m, rs⟩
      ⟨t.kernel.saveMachine id (masked frames base m), rt⟩ := by
  obtain ⟨mem, table, rfl, rfl⟩ := h
  exact ⟨⟨⟨table⟩, Function.update_self .., Function.update_self .., rfl⟩, rfl, hr⟩

theorem Alone.restoreState (h : Alone id frames base s t) (a : AddrSpace) :
    t.kernel.restoreState a = masked frames base (s.kernel.restoreState a) :=
  congrArg (Machine.mk · none (some a.pageTable)) h.memory

/-- INTERNAL: what the process does not see. -/
theorem Alone.congr (h : Alone id frames base s t) (hspace : s'.kernel.spaces id = s.kernel.spaces id)
    (hmem : Set.EqOn s'.kernel.mainMemory s.kernel.mainMemory (frameBytes frames))
    (hr : s'.userRegisters id = s.userRegisters id) : Alone id frames base s' t := by
  refine ⟨hspace ▸ h.space, h.memory.trans ?_, h.registers.trans hr.symm⟩
  funext x
  unfold mask
  split_ifs with hx
  · exact (hmem hx).symm
  · rfl

/-- INTERNAL: the process takes its own steps alone as well. -/
theorem Alone.own (h : Alone id frames base s t) (hs : FramesOwned s.kernel) {e : CodeEvent}
    (he : isOf id e = true) (hstep : s.step e = some s') :
    ∃ t', t.step e = some t' ∧ Alone id frames base s' t' := by
  obtain ⟨a, ha, ha', rfl⟩ := h.space
  have hin := hs.exclusive.inRange id a ha
  have hmapped := mapped_restoreState s.kernel a
  cases e with
  | space e =>
    simp only [CodeState.step, Option.map_eq_some_iff] at hstep
    obtain ⟨kernel, hstep, rfl⟩ := hstep
    cases e with
    | readMem id' addr size =>
      obtain rfl : id' = id := by simpa [isOf] using he
      obtain ⟨hread, hkept⟩ := readMem_masked base hin hmapped addr size
      simp only [SpaceState.step, ha, Option.map_eq_some_iff] at hstep
      obtain ⟨x, hx, rfl⟩ := hstep
      simp only [CodeState.step, SpaceState.step, ha', h.restoreState, hread, hx, Option.map_some]
      rcases x with e | ⟨value, m⟩
      · exact ⟨t, rfl, h⟩
      · exact ⟨_, rfl, Alone.saveMachine (hkept value m hx) h.registers⟩
    | writeMem id' addr size value =>
      obtain rfl : id' = id := by simpa [isOf] using he
      obtain ⟨hwrite, hkept⟩ := writeMem_masked base hin hmapped addr size value
      simp only [SpaceState.step, ha, Option.map_eq_some_iff] at hstep
      obtain ⟨x, hx, rfl⟩ := hstep
      simp only [CodeState.step, SpaceState.step, ha', h.restoreState, hwrite, hx, Option.map_some]
      rcases x with e | m
      · exact ⟨t, rfl, h⟩
      · exact ⟨_, rfl, Alone.saveMachine (hkept m hx) h.registers⟩
    | _ => cases he
  | oneInstruction id' =>
    obtain rfl : id' = id := by simpa [isOf] using he
    obtain ⟨hone, hkept⟩ := oneInstruction_masked base hin hmapped (s.userRegisters id')
    simp only [CodeState.step, CodeState.oneInstruction, ha, Option.map_eq_some_iff] at hstep
    obtain ⟨x, hx, rfl⟩ := hstep
    simp only [CodeState.step, CodeState.oneInstruction, ha', h.restoreState, h.registers, hone, hx,
      Option.map_some]
    cases x <;>
    · exact ⟨_, rfl, Alone.saveMachine (hkept _ hx) (by simp)⟩
  | writeRegisters id' r =>
    obtain rfl : id' = id := by simpa [isOf] using he
    cases hstep
    exact ⟨_, rfl, h.space, h.memory, by simp⟩

/-- INTERNAL: the process does not see the steps of others. -/
theorem Alone.other (h : Alone id frames base s t) (hs : FramesOwned s.kernel) {e : CodeEvent}
    (hbeside : Beside id e) (he : isOf id e = false) (hstep : s.step e = some s') :
    Alone id frames base s' t := by
  obtain ⟨a, ha, -, rfl⟩ := h.space
  cases e with
  | space e =>
    simp only [CodeState.step, Option.map_eq_some_iff] at hstep
    obtain ⟨kernel, hstep, rfl⟩ := hstep
    have hforeign : Foreign id e := hbeside.resolve_left (by simp [he])
    obtain ⟨ha', hmem⟩ := eqOn_step hs ha hforeign hstep
    exact h.congr (ha'.trans ha.symm) hmem rfl
  | oneInstruction id' =>
    have hne : id ≠ id' := fun heq => by simp [isOf, heq] at he
    cases hc : s.kernel.spaces id' with
    | none => simp [CodeState.step, CodeState.oneInstruction, hc] at hstep
    | some c =>
      obtain ⟨-, hkeep, hmem⟩ := instruction_keeps hs hc hstep
      exact h.congr (hkeep id hne).1
        (eqOn_frameBytes (hs.exclusive.disjoint id id' a c hne ha hc) hmem) (hkeep id hne).2
  | writeRegisters id' r =>
    have hne : id ≠ id' := fun heq => by simp [isOf, heq] at he
    cases hstep
    exact h.congr rfl (Set.eqOn_refl _ _) (Function.update_of_ne hne _ _)

theorem Alone.readResult_eq (h : Alone id frames base s t) (hs : FramesOwned s.kernel) :
    readResult t.kernel id = readResult s.kernel id := by
  obtain ⟨a, ha, ha', rfl⟩ := h.space
  funext addr size
  simp only [readResult, ha, ha', h.restoreState]
  exact readMem_congr (hs.exclusive.inRange id a ha) (eqOn_mask _ _ _) addr size

end Steps

/-! ## Runs -/

/-- SOURCE: machine/mipssim.cc:31-44, 93-565, machine/translate.cc:87-255, userprog/addrspace.cc:123-221 —
take a process that is alive at some time since the page map was clear, and any interleaving from there
of its instructions, the accesses of the kernel to its memory and registers, and whatever the others do:
execute instructions, be loaded by name from well-formed images, access memory and be destroyed. The
events of the process are a run of their own from the same state, and end with the same registers and
the same answer to every `ReadMem`. -/
theorem process_runs_as_alone (mem : Memory) (b : BitMap) (hb : AllClear b)
    (registers : SpaceId → Registers) (xs es : List CodeEvent) (s t : CodeState) (id : SpaceId)
    (hxs : ∀ e ∈ xs, CodeOpens e)
    (hs : run CodeState.step ⟨SpaceState.init mem b, registers⟩ xs = some s)
    (hlive : (s.kernel.spaces id).isSome) (hes : ∀ e ∈ es, Beside id e)
    (ht : run CodeState.step s es = some t) :
    ∃ t', run CodeState.step s (es.filter (isOf id)) = some t' ∧
      t'.userRegisters id = t.userRegisters id ∧ readResult t'.kernel id = readResult t.kernel id := by
  have hstep : ∀ (u : CodeState) e u', FramesOwned u.kernel → CodeOpens e → u.step e = some u' →
      FramesOwned u'.kernel := fun u e u' hu => hu.codeStep
  have hown : FramesOwned s.kernel := run_invariant (I := fun u : CodeState => FramesOwned u.kernel)
    hstep (framesOwned_init hb) (meets_of_forall (fun _ => hxs) _) hs
  have hown' : FramesOwned t.kernel := run_invariant (I := fun u : CodeState => FramesOwned u.kernel)
    hstep hown (meets_of_forall (fun _ e he => (hes e he).opens) _) ht
  obtain ⟨a, ha⟩ := Option.isSome_iff_exists.mp hlive
  have halone : Alone id a.frames s.kernel.mainMemory s s :=
    ⟨⟨a, ha, ha, rfl⟩, (mask_self _ _).symm, rfl⟩
  obtain ⟨t', hrun, hview⟩ := run_filter (I := fun u : CodeState => FramesOwned u.kernel)
    (R := Alone id a.frames s.kernel.mainMemory)
    (fun u e u' hu he => hstep u e u' hu he.opens) (fun u v e u' hu h _ => h.own hu)
    (fun u v e u' hu h => h.other hu) hown halone hes ht
  exact ⟨t', hrun, hview.registers, hview.readResult_eq hown'⟩

/-- INTERNAL: an image of one instruction.
SRCLINE: bin/noff.h:18-25 -/
def oneWordImage (code : List Byte) : Executable :=
  ⟨⟨noffMagicNumber, ⟨0, 0, 4⟩, ⟨4, 4, 0⟩, ⟨4, 0, 0⟩⟩, code⟩

/-- INTERNAL: programs that load the word at 100 into register 1, and store register 1 there.
SRCLINE: userprog/addrspace.cc:123-210 -/
def loadAndStore : List CodeEvent :=
  [.space (.newFilename 0 (some (oneWordImage [0x64, 0x00, 0x01, 0x8c])) ⟨[]⟩),
    .space (.newFilename 1 (some (oneWordImage [0x64, 0x00, 0x01, 0xac])) ⟨[]⟩)]

/-- INTERNAL: a machine before the two programs.
SRCLINE: threads/system.cc:130 -/
def beforeLoads : CodeState where
  kernel := SpaceState.init (fun _ => 0#8) ⟨numPhysPages, fun _ => 0#32⟩
  userRegisters := fun id => ⟨fun _ => BitVec.ofNat 32 id, 0, 0, 0, 4, 0, 0, 0, 0⟩

/-- Process 0 loads while process 1 stores to the same address and is destroyed. -/
theorem process_runs_as_alone_load :
    ∃ s t t' : CodeState, run CodeState.step beforeLoads loadAndStore = some s ∧
      run CodeState.step s
        [.oneInstruction 1, .oneInstruction 0, .space (.delete 1), .oneInstruction 0] = some t ∧
      run CodeState.step s [.oneInstruction 0, .oneInstruction 0] = some t' ∧
      t'.userRegisters 0 = t.userRegisters 0 ∧ readResult t'.kernel 0 = readResult t.kernel 0 := by
  have hrun : (run CodeState.step beforeLoads (loadAndStore ++
      [.oneInstruction 1, .oneInstruction 0, .space (.delete 1), .oneInstruction 0])).isSome := by
    decide +kernel
  obtain ⟨t, ht⟩ := Option.isSome_iff_exists.mp hrun
  obtain ⟨s, hs, ht⟩ := run_append_eq_some.mp ht
  have hlive : ((run CodeState.step beforeLoads loadAndStore).map fun s =>
      (s.kernel.spaces 0).isSome) = some true := by decide +kernel
  rw [hs, Option.map_some, Option.some.injEq] at hlive
  have hopens : ∀ e ∈ loadAndStore, CodeOpens e := by
    simp [loadAndStore, CodeOpens, Opens]
  have hbeside : ∀ e ∈ [CodeEvent.oneInstruction 1, .oneInstruction 0, .space (.delete 1),
      .oneInstruction 0], Beside 0 e := by
    simp [Beside, Foreign, isOf]
  have hclear : AllClear ⟨numPhysPages, fun _ => 0#32⟩ := by
    refine ⟨rfl, fun f => ?_⟩
    unfold BitMap.test
    split <;> simp
  obtain ⟨t', hrun', hregisters, hread⟩ := process_runs_as_alone _ _ hclear _ loadAndStore _ s t 0
    hopens hs hlive hbeside ht
  exact ⟨s, t, t', hs, ht, hrun', hregisters, hread⟩

end Nachos.Analysis
