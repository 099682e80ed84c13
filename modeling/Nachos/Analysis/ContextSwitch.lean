import Nachos.Model.Switch

/-!
# A thread comes back from `SWITCH` as it went in

`SWITCH` saves the registers of the old thread into its `Thread` object and loads those of the
new one. Up to its middle it is a list of stores (`saveStores`), all apart from each other, so each
of them can be read back. A thread off the CPU `HoldsContext` a context: its object has the registers,
its stack the return address and the bytes above it. All of this lies in memory the thread owns, so
nothing that other threads do disturbs it, and the second half of `SWITCH` gives it back.

A thread that has never run holds the context `StackAllocate` makes, whose return address is
`ThreadRoot`; `ThreadRoot` then calls what it finds in the registers.
-/

set_option autoImplicit false

namespace Nachos.Analysis

open Nachos.Library Nachos.Model

section Save

variable {sym : HostSymbols} {t : HostThread} {cpu : HostCpu} {arg ra : BitVec 32}

/-- INTERNAL: the stack pointer is in the stack of `t`, with room for the call.
SRCLINE: threads/scheduler.cc:116 -/
def RoomOn (t : HostThread) (esp : BitVec 32) : Prop :=
  t.stack.toNat + 12 ≤ esp.toNat ∧ esp.toNat ≤ t.stack.toNat + t.size

/-- INTERNAL: the words of the call's frame.
SRCLINE: threads/switch.c:296-302 -/
def frameStores (esp t1 t2 ra : BitVec 32) : List (BitVec 32 × BitVec 32) :=
  [(esp + 8, t2), (esp + 4, t1), (esp, ra)]

/-- INTERNAL: the words `SWITCH` saves into the object at `t`.
SRCLINE: threads/switch.c:315-325 -/
def objectStores (t esp ra : BitVec 32) (regs : HostReg → BitVec 32) : List (BitVec 32 × BitVec 32) :=
  [(HostReg.ebx.offset, regs .ebx), (HostReg.ecx.offset, regs .ecx), (HostReg.edx.offset, regs .edx),
    (HostReg.esi.offset, regs .esi), (HostReg.edi.offset, regs .edi), (HostReg.ebp.offset, regs .ebp),
    (HostReg.esp.offset, esp), (HostReg.eax.offset, regs .eax), (pcOffset, ra)].map
      fun d => (t + d.1, d.2)

/-- INTERNAL: all that a call of `SWITCH` stores up to its middle.
SRCLINE: threads/switch.c:296-325 -/
def saveStores (sym : HostSymbols) (t arg ra : BitVec 32) (cpu : HostCpu) :
    List (BitVec 32 × BitVec 32) :=
  frameStores (cpu.regs .esp - 12) t arg ra ++ (sym.eaxSave, cpu.regs .eax) ::
    objectStores t (cpu.regs .esp - 12) ra cpu.regs

/-- INTERNAL: the state at the entry of `SWITCH`.
SRCLINE: threads/switch.c:296-302 -/
def entry (sym : HostSymbols) (t arg ra : BitVec 32) (cpu : HostCpu) : HostCpu :=
  { regs := Function.update cpu.regs .esp (cpu.regs .esp - 12)
    mem := writeAll cpu.mem (frameStores (cpu.regs .esp - 12) t arg ra)
    eip := sym.switch }

/-- INTERNAL: instructions none of which gives control away.
SRCLINE: threads/switch.c:312-342 -/
def runAll (sym : HostSymbols) (is : List HostInstr) (cpu : HostCpu) : HostCpu :=
  is.foldl (fun c i => i.exec sym c) cpu

theorem runFrom_append {is : List HostInstr} (hstay : ∀ i ∈ is, i.leaves = false)
    (js : List HostInstr) (cpu : HostCpu) :
    runFrom sym (is ++ js) cpu = runFrom sym js (runAll sym is cpu) := by
  induction is generalizing cpu with
  | nil => rfl
  | cons i is ih =>
    rw [List.forall_mem_cons] at hstay
    rw [List.cons_append, runFrom, hstay.1, if_neg Bool.false_ne_true, ih hstay.2]
    rfl

theorem offsets_apart (base : BitVec 32) {ds : List (BitVec 32 × BitVec 32)}
    (h : (ds.map Prod.fst).Pairwise WordsApart) :
    (ds.map fun d => (base + d.1, d.2)).Pairwise fun st st' => WordsApart st.1 st'.1 :=
  List.pairwise_map.mpr ((List.pairwise_map.mp h).imp fun h => h.add base)

theorem offsets_in {base : BitVec 32} {n : ℕ} (hfit : base.toNat + n ≤ 2 ^ 32)
    {ds : List (BitVec 32 × BitVec 32)} (h : ∀ d ∈ ds.map Prod.fst, d.toNat + 4 ≤ n) :
    ∀ st ∈ ds.map fun d => (base + d.1, d.2), WordIn base n st.1 := by
  rw [List.forall_mem_map] at h ⊢
  exact fun d hd => wordIn_add hfit (h d hd)

theorem toNat_esp_sub (hroom : RoomOn t (cpu.regs .esp)) :
    (cpu.regs .esp - 12).toNat = (cpu.regs .esp).toNat - 12 := by
  obtain ⟨hlow, -⟩ := hroom
  rw [BitVec.toNat_sub_of_le]
  · rfl
  · rw [BitVec.le_def]
    show 12 ≤ _
    omega

theorem frameStores_in (hroom : RoomOn t (cpu.regs .esp)) (t1 : BitVec 32) :
    ∀ st ∈ frameStores (cpu.regs .esp - 12) t1 arg ra, WordIn (cpu.regs .esp - 12) 12 st.1 := by
  have hbase := toNat_esp_sub hroom
  have hfit : (cpu.regs .esp - 12).toNat + 12 ≤ 2 ^ 32 := by
    have hlow := hroom.1
    omega
  simp only [frameStores, List.forall_mem_cons, List.not_mem_nil, false_implies, implies_true, and_true]
  exact ⟨wordIn_add hfit (by decide), wordIn_add hfit (by decide), le_rfl, by omega, hfit⟩

theorem frameStores_on (ht : t.Placed sym) (hroom : RoomOn t (cpu.regs .esp)) (t1 : BitVec 32) :
    ∀ st ∈ frameStores (cpu.regs .esp - 12) t1 arg ra, WordIn t.stack t.size st.1 := by
  intro st hst
  have hbase := toNat_esp_sub hroom
  obtain ⟨hlow, hhigh⟩ := id hroom
  have hfit := ht.2.1
  exact (frameStores_in hroom t1 st hst).mono (by omega) (by omega) (by omega)

theorem objectStores_in (ht : t.Placed sym) (esp : BitVec 32) (regs : HostReg → BitVec 32) :
    ∀ st ∈ objectStores t.object esp ra regs, WordIn t.object contextSize st.1 :=
  offsets_in ht.1 (by simp [HostReg.offset, pcOffset, contextSize])

theorem eaxSave_in (ht : t.Placed sym) : WordIn sym.eaxSave 4 sym.eaxSave :=
  ⟨le_rfl, le_rfl, ht.2.2.1⟩

/-- INTERNAL: no word is stored twice, so that each can be read back. -/
theorem saveStores_apart (ht : t.Placed sym) (hroom : RoomOn t (cpu.regs .esp)) :
    (saveStores sym t.object arg ra cpu).Pairwise fun st st' => WordsApart st.1 st'.1 := by
  have hframe := @frameStores_on sym t cpu arg ra ht hroom t.object
  have hobject := @objectStores_in sym t ra ht (cpu.regs .esp - 12) cpu.regs
  obtain ⟨-, -, -, hapart, hobj, hstack⟩ := id ht
  refine List.pairwise_append.mpr ⟨?_, List.pairwise_cons.mpr ⟨?_, ?_⟩, fun st hst st' hst' => ?_⟩
  · have h₈₀ := (by decide : WordsApart 8 0).add (cpu.regs .esp - 12)
    have h₄₀ := (by decide : WordsApart 4 0).add (cpu.regs .esp - 12)
    rw [add_zero] at h₈₀ h₄₀
    have h₈₄ := (by decide : WordsApart 8 4).add (cpu.regs .esp - 12)
    exact .cons (by simpa using ⟨h₈₄, h₈₀⟩) (.cons (by simpa using h₄₀) (List.pairwise_singleton _ _))
  · exact fun st hst => hobj.words (eaxSave_in ht) (hobject st hst)
  · exact offsets_apart _ (by decide : [8, 12, 16, 24, 28, 20, 0, 4, 32].Pairwise WordsApart)
  · rcases List.mem_cons.mp hst' with rfl | hst'
    · exact hstack.symm.words (hframe st hst) (eaxSave_in ht)
    · exact hapart.symm.words (hframe st hst) (hobject st' hst')

theorem runAll_saves (rs : List (HostReg × BitVec 32)) (c : HostCpu) :
    let c' := runAll sym (rs.map fun p => .movl (.reg p.1) (.disp p.2 .eax)) c
    c'.regs = c.regs ∧ c'.mem = writeAll c.mem (rs.map fun p => (c.regs .eax + p.2, c.regs p.1)) := by
  induction rs generalizing c with
  | nil => exact ⟨rfl, rfl⟩
  | cons p rs ih => exact ih ((HostInstr.movl (.reg p.1) (.disp p.2 .eax)).exec sym c)

/-- INTERNAL: the first half of `SWITCH` is its stores. -/
theorem switchSave_mem (ht : t.Placed sym) (hroom : RoomOn t (cpu.regs .esp)) :
    let c := runAll sym switchSave (entry sym t.object arg ra cpu)
    c.regs .esp = cpu.regs .esp - 12 ∧ c.mem = writeAll cpu.mem (saveStores sym t.object arg ra cpu) := by
  have hapart := @saveStores_apart sym t cpu arg ra ht hroom
  have hread : ∀ {n : ℕ} {a v : BitVec 32}, (a, v) ∈ (saveStores sym t.object arg ra cpu).take n →
      readWord (writeAll cpu.mem ((saveStores sym t.object arg ra cpu).take n)) a = v :=
    fun h => readWord_writeAll_of_mem (hapart.sublist (List.take_sublist _ _)) h
  -- `%eax` is put aside and then points to the object
  obtain ⟨c₁, hc₁, hregs₁, hmem₁⟩ : ∃ c, c = runAll sym (switchSave.take 2) (entry sym t.object arg ra cpu) ∧
      c.regs = Function.update (entry sym t.object arg ra cpu).regs .eax t.object ∧
      c.mem = writeAll cpu.mem ((saveStores sym t.object arg ra cpu).take 4) := by
    have heax : readWord (writeAll cpu.mem ((saveStores sym t.object arg ra cpu).take 4))
        (cpu.regs .esp - 12 + 4) = t.object := hread (by simp [saveStores, frameStores])
    exact ⟨_, rfl, congrArg (Function.update _ _) heax, rfl⟩
  obtain ⟨hregs₂, hmem₂⟩ := @runAll_saves sym [(.ebx, HostReg.ebx.offset), (.ecx, HostReg.ecx.offset),
    (.edx, HostReg.edx.offset), (.esi, HostReg.esi.offset), (.edi, HostReg.edi.offset),
    (.ebp, HostReg.ebp.offset), (.esp, HostReg.esp.offset)] c₁
  rw [hregs₁, hmem₁] at hmem₂
  have hcode : runAll sym switchSave (entry sym t.object arg ra cpu) =
      runAll sym (switchSave.drop 9) (runAll sym ((switchSave.drop 2).take 7) c₁) := by
    rw [hc₁]
    rfl
  -- `%ebx` is saved by now, and carries the old `%eax` and the return address to their places
  obtain ⟨c₂, hc₂⟩ : ∃ c, c = runAll sym ((switchSave.drop 2).take 7) c₁ := ⟨_, rfl⟩
  replace hregs₂ : c₂.regs = c₁.regs := hc₂ ▸ hregs₂
  replace hmem₂ : c₂.mem = writeAll cpu.mem ((saveStores sym t.object arg ra cpu).take 11) := hc₂ ▸ hmem₂
  have heax : c₂.regs .eax = t.object := by rw [hregs₂, hregs₁, Function.update_self]
  have hesp : c₂.regs .esp = cpu.regs .esp - 12 := by
    rw [hregs₂, hregs₁]
    rfl
  have hold : readWord c₂.mem sym.eaxSave = cpu.regs .eax := by
    rw [hmem₂]
    exact hread (by simp [saveStores, frameStores])
  have hret := @hread 12 (cpu.regs .esp - 12) ra (by simp [saveStores, frameStores])
  rw [hcode, ← hc₂]
  refine ⟨hesp, ?_⟩
  show writeWord (writeWord c₂.mem (c₂.regs .eax + HostReg.eax.offset) (readWord c₂.mem sym.eaxSave))
    (c₂.regs .eax + pcOffset) (readWord (writeWord c₂.mem (c₂.regs .eax + HostReg.eax.offset)
      (readWord c₂.mem sym.eaxSave)) (c₂.regs .esp + 0)) = _
  rw [heax, hesp, hold, hmem₂, add_zero]
  exact congrArg (writeWord _ _) hret

end Save

section Contexts

/-- INTERNAL: what a thread goes on with: its registers at the entry of `SWITCH`, the return
address, and the bytes of the stack above the arguments of the call.
SRCLINE: threads/switch.c:296-307 -/
structure HostContext where
  regs : HostReg → BitVec 32
  pc : BitVec 32
  bytes : BitVec 32 → BitVec 8

/-- INTERNAL: the memory has the context `c` in the object and on the stack of `t`.
SRCLINE: threads/switch.c:296-307 -/
structure HoldsContext (t : HostThread) (c : HostContext) (mem : BitVec 32 → BitVec 8) : Prop where
  regs : ∀ r, readWord mem (t.object + HostReg.offset r) = c.regs r
  pc : readWord mem (c.regs .esp) = c.pc
  low : t.stack.toNat ≤ (c.regs .esp).toNat
  high : (c.regs .esp).toNat + 8 ≤ t.stack.toNat + t.size
  bytes : ∀ a, (c.regs .esp).toNat + 12 ≤ a.toNat → a.toNat < t.stack.toNat + t.size →
    mem a = c.bytes a

/-- INTERNAL: the context of a thread that calls `SWITCH` in the state `cpu` and is to return to `ra`.
SRCLINE: threads/scheduler.cc:116 -/
def suspension (cpu : HostCpu) (ra : BitVec 32) : HostContext :=
  { regs := Function.update cpu.regs .esp (cpu.regs .esp - 12), pc := ra, bytes := cpu.mem }

variable {sym : HostSymbols} {t u : HostThread} {c : HostContext} {cpu : HostCpu}
  {mem mem' : BitVec 32 → BitVec 8} {arg ra a : BitVec 32}

theorem suspension_esp (cpu : HostCpu) (ra : BitVec 32) :
    (suspension cpu ra).regs .esp = cpu.regs .esp - 12 := rfl

theorem offset_in (ht : t.Placed sym) (r : HostReg) :
    WordIn t.object contextSize (t.object + r.offset) :=
  wordIn_add ht.1 (by cases r <;> decide)

theorem eaxSave_not_owned (ht : t.Placed sym) (ha : t.Owns a) : ¬ Within sym.eaxSave 4 a := by
  obtain ⟨-, -, -, -, hobject, hstack⟩ := ht
  rcases ha with ha | ha
  · exact hobject.symm.not_within ha
  · exact hstack.symm.not_within ha

theorem HoldsContext.esp_in (h : HoldsContext t c mem) (ht : t.Placed sym) : WordIn t.stack t.size (c.regs .esp) := by
  have hlow := h.low
  have hhigh := h.high
  have hfit := ht.2.1
  exact ⟨hlow, by omega, by omega⟩

theorem HoldsContext.congr (h : HoldsContext t c mem) (ht : t.Placed sym)
    (hsame : ∀ a, t.Owns a → mem' a = mem a) : HoldsContext t c mem' := by
  refine ⟨fun r => ?_, ?_, h.low, h.high, fun a hlow hhigh => ?_⟩
  · rw [(offset_in ht r).readWord_congr fun a ha => hsame a (.inl ha), h.regs r]
  · rw [(h.esp_in ht).readWord_congr fun a ha => hsame a (.inr ha), h.pc]
  · have hesp := h.low
    rw [hsame a (.inr ⟨by omega, hhigh⟩), h.bytes a hlow hhigh]

/-- INTERNAL: the state when `SWITCH` has saved the calling thread `t`: it holds its suspension,
the other thread's address is on top of the stack, and only memory of `t` and `_eax_save`
have changed.
SRCLINE: threads/switch.c:313-325 -/
structure Suspended (sym : HostSymbols) (t : HostThread) (arg ra : BitVec 32) (cpu c : HostCpu) :
    Prop where
  arg : readWord c.mem (c.regs .esp + 8) = arg
  holds : HoldsContext t (suspension cpu ra) c.mem
  frame : ∀ a, ¬ t.Owns a → ¬ Within sym.eaxSave 4 a → c.mem a = cpu.mem a

/-- INTERNAL: the call of `SWITCH` up to its second half. -/
theorem switchSave_suspends (ht : t.Placed sym) (hroom : RoomOn t (cpu.regs .esp)) :
    Suspended sym t arg ra cpu (runAll sym switchSave (entry sym t.object arg ra cpu)) := by
  obtain ⟨hesp, hmem⟩ := @switchSave_mem sym t cpu arg ra ht hroom
  have hread : ∀ {a v : BitVec 32}, (a, v) ∈ saveStores sym t.object arg ra cpu →
      readWord (writeAll cpu.mem (saveStores sym t.object arg ra cpu)) a = v :=
    readWord_writeAll_of_mem (saveStores_apart ht hroom)
  -- a byte of none of the three places stays
  have hkeep : ∀ a, ¬ Within (cpu.regs .esp - 12) 12 a → ¬ Within sym.eaxSave 4 a →
      ¬ Within t.object contextSize a →
      writeAll cpu.mem (saveStores sym t.object arg ra cpu) a = cpu.mem a := by
    refine fun a hframe hsave hobject => writeAll_of_outside fun st hst => ?_
    rcases List.mem_append.mp hst with hst | hst
    · exact (frameStores_in hroom t.object st hst).outside hframe
    · rcases List.mem_cons.mp hst with rfl | hst
      · exact (eaxSave_in ht).outside hsave
      · exact (objectStores_in ht _ _ st hst).outside hobject
  have hbase := toNat_esp_sub hroom
  obtain ⟨hlow, hhigh⟩ := hroom
  refine ⟨?_, ⟨fun r => ?_, ?_, ?_, ?_, fun a hal hah => ?_⟩, fun a ha hsave => ?_⟩
  · rw [hmem, hesp]
    exact hread (by simp [saveStores, frameStores])
  · rw [hmem]
    refine hread ?_
    cases r <;> simp [saveStores, objectStores, suspension]
  · rw [hmem]
    exact hread (by simp [saveStores, frameStores, suspension])
  · rw [suspension_esp]
    omega
  · rw [suspension_esp]
    omega
  · rw [suspension_esp] at hal
    have hown : Within t.stack t.size a := ⟨by omega, hah⟩
    rw [hmem, hkeep a (fun hw => by have := hw.2; omega) (eaxSave_not_owned ht (.inr hown))
      (ht.2.2.2.1.symm.not_within hown)]
    rfl
  · rw [hmem, hkeep a (fun hw => ha (.inr ?_)) hsave fun hw => ha (.inl hw)]
    obtain ⟨hw₁, hw₂⟩ := hw
    exact ⟨by omega, by omega⟩

/-- INTERNAL: the state when `SWITCH` has come back in a thread that held the context `c`.
SRCLINE: threads/switch.c:327-342 -/
structure Resumed (sym : HostSymbols) (u : HostThread) (c : HostContext)
    (mem : BitVec 32 → BitVec 8) (cpu : HostCpu) : Prop where
  regs : ∀ r, r ≠ HostReg.esp → cpu.regs r = c.regs r
  esp : cpu.regs .esp = c.regs .esp + 4
  eip : cpu.eip = c.pc
  bytes : ∀ a, (c.regs .esp).toNat + 12 ≤ a.toNat → a.toNat < u.stack.toNat + u.size →
    cpu.mem a = c.bytes a
  frame : ∀ a, ¬ Within u.stack u.size a → ¬ Within sym.eaxSave 4 a → cpu.mem a = mem a

/-- INTERNAL: moves of registers from their places in the object that `%eax` points to. -/
theorem runAll_loads {rs : List HostReg} (heax : HostReg.eax ∉ rs) (cpu : HostCpu) :
    let c := runAll sym (rs.map fun r => .movl (.disp r.offset .eax) (.reg r)) cpu
    c.mem = cpu.mem ∧
      ∀ r, c.regs r = if r ∈ rs then readWord cpu.mem (cpu.regs .eax + r.offset) else cpu.regs r := by
  induction rs generalizing cpu with
  | nil => exact ⟨rfl, fun r => rfl⟩
  | cons q rs ih =>
    rw [List.mem_cons, not_or] at heax
    obtain ⟨hmem, hregs⟩ := ih heax.2 ((HostInstr.movl (.disp q.offset .eax) (.reg q)).exec sym cpu)
    refine ⟨hmem, fun r => (hregs r).trans ?_⟩
    simp only [HostInstr.exec, HostOperand.read, HostOperand.write, HostCpu.setReg,
      Function.update_of_ne heax.1, List.mem_cons]
    by_cases hr : r ∈ rs
    · rw [if_pos hr, if_pos (.inr hr)]
    · by_cases hq : r = q
      · rw [if_neg hr, if_pos (.inl hq), hq, Function.update_self]
      · rw [if_neg hr, if_neg (by tauto), Function.update_of_ne hq]

/-- INTERNAL: the second half gives a thread the context it holds. -/
theorem switchLoad_resumes (hu : u.Placed sym)
    (harg : readWord cpu.mem (cpu.regs .esp + 8) = u.object) (h : HoldsContext u c cpu.mem) :
    Resumed sym u c cpu.mem (runFrom sym switchLoad cpu) := by
  have hsave := eaxSave_in hu
  obtain ⟨-, -, -, -, hobj, hstack⟩ := id hu
  -- `%eax` points to the object, and its own new value is put aside
  obtain ⟨c₁, hc₁, heax₁, hmem₁⟩ : ∃ c₁, c₁ = runAll sym (switchLoad.take 3) cpu ∧
      c₁.regs .eax = u.object ∧ c₁.mem = writeWord cpu.mem sym.eaxSave (c.regs .eax) := by
    refine ⟨_, rfl, harg, ?_⟩
    rw [← h.regs .eax, ← harg]
    rfl
  have hobject : ∀ r : HostReg, readWord c₁.mem (u.object + r.offset) = c.regs r := by
    intro r
    rw [hmem₁, readWord_writeWord_of_apart (hobj.words hsave (offset_in hu r)), h.regs r]
  obtain ⟨c₂, hc₂, hmem₂, hregs₂⟩ : ∃ c₂, c₂ = runAll sym ((switchLoad.drop 3).take 7) c₁ ∧
      c₂.mem = c₁.mem ∧ ∀ r, r ≠ HostReg.eax → c₂.regs r = c.regs r := by
    obtain ⟨hmem, hregs⟩ := @runAll_loads sym [.ebx, .ecx, .edx, .esi, .edi, .ebp, .esp] (by decide) c₁
    refine ⟨_, rfl, hmem, fun r hr => (hregs r).trans ?_⟩
    rw [if_pos (by revert hr; cases r <;> decide), heax₁, hobject r]
  have hcode : runFrom sym switchLoad cpu = runFrom sym (switchLoad.drop 10) c₂ := by
    rw [hc₂, hc₁]
    exact @runFrom_append sym (switchLoad.take 10) (by decide) (switchLoad.drop 10) cpu
  -- the return address goes on the new stack, where `ret` does not look for it
  obtain ⟨m, hm⟩ : ∃ m, m = writeWord c₂.mem (c₂.regs .esp + 4)
    (readWord c₂.mem (c₂.regs .eax + pcOffset)) := ⟨_, rfl⟩
  have hlast : runFrom sym (switchLoad.drop 10) c₂ =
      { regs := Function.update (Function.update (Function.update c₂.regs .eax
          (readWord c₂.mem (c₂.regs .eax + pcOffset))) .eax (readWord m sym.eaxSave)) .esp (c₂.regs .esp + 4)
        mem := m, eip := readWord m (c₂.regs .esp) } := by
    rw [hm]
    rfl
  have hesp : c₂.regs .esp = c.regs .esp := hregs₂ .esp (by decide)
  have hlow := h.low
  have hhigh := h.high
  have hfit := hu.2.1
  have hfour : (c.regs .esp + 4).toNat = (c.regs .esp).toNat + 4 := by
    rw [BitVec.toNat_add]
    exact Nat.mod_eq_of_lt (by show _ + 4 < _; omega)
  have hslot : WordIn (c.regs .esp + 4) 4 (c.regs .esp + 4) := ⟨le_rfl, le_rfl, by omega⟩
  have hslot' : WordIn u.stack u.size (c.regs .esp + 4) := hslot.mono (by omega) (by omega) (by omega)
  rw [hcode, hlast]
  rw [hmem₂, hmem₁, hesp] at hm
  rw [hesp]
  refine ⟨fun r hr => ?_, rfl, ?_, fun a hal hah => ?_, fun a ha hane => ?_⟩
  · refine (Function.update_of_ne hr _ _).trans ?_
    by_cases heax : r = .eax
    · rw [heax, Function.update_self, hm, readWord_writeWord_of_apart (hstack.symm.words hslot' hsave),
        readWord_writeWord_self]
    · rw [Function.update_of_ne heax, Function.update_of_ne heax, hregs₂ r heax]
  · have happ := (by decide : WordsApart 4 0).add (c.regs .esp)
    rw [add_zero] at happ
    rw [hm, readWord_writeWord_of_apart happ,
      readWord_writeWord_of_apart (hstack.words hsave (h.esp_in hu)), h.pc]
  · have hown : u.Owns a := .inr ⟨by omega, hah⟩
    show m a = _
    rw [hm, writeWord_of_outside (hslot.outside fun hw => by have := hw.2; omega),
      writeWord_of_outside (hsave.outside (eaxSave_not_owned hu hown)), h.bytes a hal hah]
  · show m a = _
    rw [hm, writeWord_of_outside (hslot'.outside ha), writeWord_of_outside (hsave.outside hane)]

end Contexts

section Fork

variable {sym : HostSymbols} {t : HostThread} {func arg a v : BitVec 32} {mem : BitVec 32 → BitVec 8}

/-- INTERNAL: the address `StackAllocate` leaves in `stackTop`.
SRCLINE: threads/thread.cc:267-274 -/
def freshTop (t : HostThread) : BitVec 32 := t.stack + BitVec.ofNat 32 (4 * (stackSize - 4 - 1))

/-- INTERNAL: a thread as `Fork` takes it.
SRCLINE: threads/thread.cc:255 -/
structure Allocated (sym : HostSymbols) (t : HostThread) : Prop where
  placed : t.Placed sym
  size : t.size = 4 * stackSize

/-- INTERNAL: the stores of `StackAllocate` on the stack and in the object of the new thread. -/
theorem stackAllocateStores_perm :
    (stackAllocateStores sym t func arg).Perm
      ([(BitVec.ofNat 32 (4 * (stackSize - 4 - 1)), sym.threadRoot), (0, stackFencepost)].map
          (fun d => (t.stack + d.1, d.2)) ++
        [(HostReg.esp.offset, freshTop t), (pcOffset, sym.threadRoot),
          (HostReg.ecx.offset, sym.interruptEnable), (HostReg.esi.offset, func),
          (HostReg.edx.offset, arg), (HostReg.edi.offset, sym.threadFinish)].map
          fun d => (t.object + d.1, d.2)) := by
  simp only [List.map_cons, List.map_nil, add_zero]
  exact (@List.perm_middle _ (t.object + HostReg.esp.offset, freshTop t) [_, _] [_, _, _, _, _]).symm

theorem stackAllocateStores_in (h : Allocated sym t) :
    ∀ st ∈ stackAllocateStores sym t func arg,
      WordIn t.stack t.size st.1 ∨ WordIn t.object contextSize st.1 := by
  intro st hst
  rcases List.mem_append.mp (stackAllocateStores_perm.mem_iff.mp hst) with hst | hst
  · refine .inl (offsets_in (Nat.le_of_lt h.placed.2.1) ?_ st hst)
    simp [h.size, stackSize]
  · exact .inr (offsets_in h.placed.1 (by simp [HostReg.offset, pcOffset, contextSize]) st hst)

/-- INTERNAL: every store of `StackAllocate` stays, since no word is stored twice. -/
theorem stackAllocate_read (h : Allocated sym t) (hmem : (a, v) ∈ stackAllocateStores sym t func arg) :
    readWord (stackAllocate sym t func arg mem) a = v := by
  have hstack : t.stack.toNat + t.size ≤ 2 ^ 32 := Nat.le_of_lt h.placed.2.1
  refine readWord_writeAll_of_mem ?_ hmem
  refine (stackAllocateStores_perm.pairwise_iff WordsApart.symm).mpr (List.pairwise_append.mpr
    ⟨offsets_apart _ (by decide : [BitVec.ofNat 32 (4 * (stackSize - 4 - 1)), 0].Pairwise WordsApart),
      offsets_apart _ (by decide : [0, 32, 12, 24, 16, 28].Pairwise WordsApart), fun st hst st' hst' => ?_⟩)
  refine h.placed.2.2.2.1.symm.words (offsets_in hstack ?_ st hst) (offsets_in h.placed.1 ?_ st' hst')
  · simp [h.size, stackSize]
  · simp [HostReg.offset, pcOffset, contextSize]

/-- INTERNAL: the context of a thread that has never run.
SRCLINE: threads/thread.cc:252-284 -/
def freshContext (sym : HostSymbols) (t : HostThread) (func arg : BitVec 32)
    (mem : BitVec 32 → BitVec 8) : HostContext :=
  { regs := fun r => readWord (stackAllocate sym t func arg mem) (t.object + r.offset)
    pc := sym.threadRoot
    bytes := stackAllocate sym t func arg mem }

/-- INTERNAL: the registers that `ThreadRoot` reads. -/
theorem freshContext_regs (h : Allocated sym t) (func arg : BitVec 32) (mem : BitVec 32 → BitVec 8) :
    (freshContext sym t func arg mem).regs .esp = freshTop t ∧
      (freshContext sym t func arg mem).regs .ecx = sym.interruptEnable ∧
      (freshContext sym t func arg mem).regs .edx = arg ∧
      (freshContext sym t func arg mem).regs .esi = func ∧
      (freshContext sym t func arg mem).regs .edi = sym.threadFinish := by
  refine ⟨stackAllocate_read h ?_, stackAllocate_read h ?_, stackAllocate_read h ?_,
    stackAllocate_read h ?_, stackAllocate_read h ?_⟩ <;>
    simp [stackAllocateStores, freshTop]

theorem freshTop_toNat (h : Allocated sym t) : (freshTop t).toNat = t.stack.toNat + 16364 := by
  have hfit : t.stack.toNat + t.size < 2 ^ 32 := h.placed.2.1
  rw [h.size, stackSize] at hfit
  rw [freshTop, BitVec.toNat_add]
  exact Nat.mod_eq_of_lt (by show _ + 16364 < _; omega)

/-- INTERNAL: `StackAllocate` gives the new thread a context whose return address is `ThreadRoot`. -/
theorem stackAllocate_holds (h : Allocated sym t) :
    HoldsContext t (freshContext sym t func arg mem) (stackAllocate sym t func arg mem) := by
  have hesp : (freshContext sym t func arg mem).regs .esp = freshTop t :=
    (freshContext_regs h func arg mem).1
  have hnat := freshTop_toNat h
  have hsize : t.size = 16384 := h.size
  refine ⟨fun _ => rfl, ?_, ?_, ?_, fun _ _ _ => rfl⟩ <;> rw [hesp]
  · exact stackAllocate_read h (by simp [stackAllocateStores, freshTop, freshContext])
  · omega
  · omega

end Fork

section Runs

/-- INTERNAL: the threads have their own memory, and those off the CPU hold a context.
SRCLINE: threads/scheduler.cc:91-129 -/
structure SwitchInv (sym : HostSymbols) (s : SwitchState) : Prop where
  current : s.current ∈ s.threads
  placed : ∀ t ∈ s.threads, t.Placed sym
  apart : ∀ t ∈ s.threads, ∀ u ∈ s.threads, t ≠ u → t.Disjoint u
  held : ∀ u ∈ s.threads, u ≠ s.current → ∃ c, HoldsContext u c s.cpu.mem

/-- INTERNAL: the event gives the CPU to the thread `u`, or deletes it.
SRCLINE: threads/scheduler.cc:91-129 -/
def SwitchEvent.Concerns (u : HostThread) : SwitchEvent → Prop
  | .switch next _ => next = u
  | .delete t => t = u
  | _ => False

instance (u : HostThread) : DecidablePred (SwitchEvent.Concerns u)
  | .switch next _ => inferInstanceAs (Decidable (next = u))
  | .delete t => inferInstanceAs (Decidable (t = u))
  | .work _ _ _ => instDecidableFalse
  | .fork _ _ _ => instDecidableFalse

variable {sym : HostSymbols} {s s' : SwitchState} {t u : HostThread} {c : HostContext}
  {ra a : BitVec 32} {e : SwitchEvent}

theorem disjoint_symm (h : t.Disjoint u) : u.Disjoint t :=
  ⟨h.1.symm, h.2.2.1.symm, h.2.1.symm, h.2.2.2.symm⟩

theorem disjoint_not_owns (h : t.Disjoint u) (ha : t.Owns a) : ¬ u.Owns a := by
  obtain ⟨h₁, h₂, h₃, h₄⟩ := h
  rintro (hu | hu) <;> rcases ha with ha | ha
  · exact h₁.not_within ha hu
  · exact h₃.not_within ha hu
  · exact h₂.not_within ha hu
  · exact h₄.not_within ha hu

theorem work_eq_some {regs : HostReg → BitVec 32} {eip : BitVec 32} {stores : List (BitVec 32 × BitVec 8)} :
    s.step sym (.work regs eip stores) = some s' ↔
      s.StoresOwn stores ∧
        { s with cpu := ⟨regs, stores.foldl (fun mem st => Function.update mem st.1 st.2) s.cpu.mem, eip⟩ } =
          s' := by
  simp only [SwitchState.step, Option.ite_none_right_eq_some, Option.some.injEq]

theorem fork_eq_some {func arg : BitVec 32} :
    s.step sym (.fork t func arg) = some s' ↔
      (t.allocated ∧ t.size = 4 * stackSize ∧ t.Placed sym ∧ ∀ u ∈ s.threads, t.Disjoint u) ∧
        { s with
          cpu := { s.cpu with mem := stackAllocate sym t func arg s.cpu.mem }
          threads := t :: s.threads } = s' := by
  simp only [SwitchState.step, Option.ite_none_right_eq_some, Option.some.injEq]

theorem switch_eq_some :
    s.step sym (.switch u ra) = some s' ↔
      (checkOverflow s.current s.cpu.mem ∧ s.HasRoom ∧ u ∈ s.threads) ∧
        { s with cpu := callSwitch sym s.current.object u.object ra s.cpu, current := u } = s' := by
  simp only [SwitchState.step, Option.ite_none_right_eq_some, Option.some.injEq]

/-- INTERNAL: a switch, as a whole: the memory `mem` in its middle has the suspension of the old
thread, and the new thread goes on with its context. -/
theorem SwitchInv.callSwitch (hs : SwitchInv sym s) (hroom : s.HasRoom) (hu : u ∈ s.threads)
    (hc : HoldsContext u c s.cpu.mem ∧ u ≠ s.current ∨ u = s.current ∧ c = suspension s.cpu ra) :
    ∃ mem, HoldsContext s.current (suspension s.cpu ra) mem ∧
      (∀ a, ¬ s.current.Owns a → ¬ Within sym.eaxSave 4 a → mem a = s.cpu.mem a) ∧
      Resumed sym u c mem (callSwitch sym s.current.object u.object ra s.cpu) := by
  have hsus := @switchSave_suspends sym s.current s.cpu u.object ra (hs.placed _ hs.current) hroom
  have hcode := @runFrom_append sym switchSave (by decide) switchLoad (entry sym s.current.object u.object ra s.cpu)
  refine ⟨_, hsus.holds, hsus.frame, ?_⟩
  have hholds : HoldsContext u c (runAll sym switchSave (entry sym s.current.object u.object ra s.cpu)).mem := by
    rcases hc with ⟨hc, hne⟩ | ⟨rfl, rfl⟩
    · refine hc.congr (hs.placed u hu) fun a ha => ?_
      exact hsus.frame a (disjoint_not_owns (hs.apart u hu _ hs.current hne) ha)
        (eaxSave_not_owned (hs.placed u hu) ha)
    · exact hsus.holds
  have hres := switchLoad_resumes (hs.placed u hu) hsus.arg hholds
  rw [← hcode] at hres
  exact hres

theorem SwitchInv.exists_context (hs : SwitchInv sym s) (hu : u ∈ s.threads) (ra : BitVec 32) :
    ∃ c, HoldsContext u c s.cpu.mem ∧ u ≠ s.current ∨ u = s.current ∧ c = suspension s.cpu ra := by
  by_cases heq : u = s.current
  · exact ⟨_, .inr ⟨heq, rfl⟩⟩
  · obtain ⟨c, hc⟩ := hs.held u hu heq
    exact ⟨c, .inl ⟨hc, heq⟩⟩

theorem foldl_update_of_not_mem {stores : List (BitVec 32 × BitVec 8)} {mem : BitVec 32 → BitVec 8}
    (h : ∀ st ∈ stores, st.1 ≠ a) :
    stores.foldl (fun mem st => Function.update mem st.1 st.2) mem a = mem a := by
  induction stores generalizing mem with
  | nil => rfl
  | cons st stores ih =>
    rw [List.forall_mem_cons] at h
    rw [List.foldl_cons, ih h.2, Function.update_of_ne h.1.symm]

/-- INTERNAL: an event that does not concern a thread off the CPU leaves it there, and its memory
alone. -/
theorem SwitchInv.step_same (hs : SwitchInv sym s) (hu : u ∈ s.threads) (hoff : u ≠ s.current)
    (he : ¬ SwitchEvent.Concerns u e) (h : s.step sym e = some s') :
    u ∈ s'.threads ∧ u ≠ s'.current ∧ ∀ a, u.Owns a → s'.cpu.mem a = s.cpu.mem a := by
  cases e with
  | work regs eip stores =>
    obtain ⟨hguard, rfl⟩ := work_eq_some.mp h
    refine ⟨hu, hoff, fun a ha => foldl_update_of_not_mem ?_⟩
    rintro st hst rfl
    exact hguard st hst u hu hoff ha
  | fork t func arg =>
    obtain ⟨⟨-, hsize, hplaced, hfree⟩, rfl⟩ := fork_eq_some.mp h
    refine ⟨List.mem_cons_of_mem _ hu, hoff, fun a ha => writeAll_of_outside fun st hst => ?_⟩
    have hnot := disjoint_not_owns (disjoint_symm (hfree u hu)) ha
    rcases stackAllocateStores_in ⟨hplaced, hsize⟩ st hst with hin | hin
    · exact hin.outside fun hw => hnot (.inr hw)
    · exact hin.outside fun hw => hnot (.inl hw)
  | switch next ra =>
    obtain ⟨⟨-, hroom, hnext⟩, rfl⟩ := switch_eq_some.mp h
    have hne : u ≠ next := fun heq => he heq.symm
    refine ⟨hu, hne, fun a ha => ?_⟩
    obtain ⟨c, hc⟩ := hs.exists_context hnext ra
    obtain ⟨mem, -, hframe, hres⟩ := hs.callSwitch hroom hnext hc
    have hsave := eaxSave_not_owned (hs.placed u hu) ha
    rw [hres.frame a (fun hw => disjoint_not_owns (hs.apart u hu next hnext hne) ha (.inr hw)) hsave,
      hframe a (disjoint_not_owns (hs.apart u hu _ hs.current hoff) ha) hsave]
  | delete t =>
    rw [SwitchState.step, Option.ite_none_left_eq_some] at h
    obtain ⟨-, ⟨⟩⟩ := h
    exact ⟨List.mem_filter.mpr ⟨hu, by simpa using fun heq : u = t => he heq.symm⟩, hoff, fun _ _ => rfl⟩

/-- INTERNAL: the switch away from a thread leaves it its suspension. -/
theorem SwitchInv.suspended (hs : SwitchInv sym s) (hne : u ≠ s.current)
    (h : s.step sym (.switch u ra) = some s') :
    HoldsContext s.current (suspension s.cpu ra) s'.cpu.mem := by
  obtain ⟨⟨-, hroom, hu⟩, rfl⟩ := switch_eq_some.mp h
  obtain ⟨c, hc⟩ := hs.exists_context hu ra
  obtain ⟨mem, hholds, -, hres⟩ := hs.callSwitch hroom hu hc
  have hcur := hs.placed _ hs.current
  refine hholds.congr hcur fun a ha => hres.frame a (fun hw => ?_) (eaxSave_not_owned hcur ha)
  exact disjoint_not_owns (hs.apart _ hs.current u hu hne.symm) ha (.inr hw)

/-- INTERNAL: every event keeps the invariant. -/
theorem SwitchInv.step (hs : SwitchInv sym s) (h : s.step sym e = some s') : SwitchInv sym s' := by
  have hkeep : ∀ v ∈ s.threads, v ≠ s.current → ¬ SwitchEvent.Concerns v e →
      ∃ c, HoldsContext v c s'.cpu.mem := by
    intro v hv hoff he
    obtain ⟨c, hc⟩ := hs.held v hv hoff
    exact ⟨c, hc.congr (hs.placed v hv) (hs.step_same hv hoff he h).2.2⟩
  cases e with
  | work regs eip stores =>
    obtain ⟨-, rfl⟩ := work_eq_some.mp h
    exact ⟨hs.current, hs.placed, hs.apart, fun v hv hoff => hkeep v hv hoff id⟩
  | fork t func arg =>
    obtain ⟨⟨-, hsize, hplaced, hfree⟩, rfl⟩ := fork_eq_some.mp h
    refine ⟨List.mem_cons_of_mem _ hs.current, List.forall_mem_cons.mpr ⟨hplaced, hs.placed⟩,
      fun v hv w hw hne => ?_, fun v hv hoff => ?_⟩
    · rcases List.mem_cons.mp hv with rfl | hv' <;> rcases List.mem_cons.mp hw with rfl | hw'
      · exact absurd rfl hne
      · exact hfree w hw'
      · exact disjoint_symm (hfree v hv')
      · exact hs.apart v hv' w hw' hne
    · rcases List.mem_cons.mp hv with rfl | hv
      · exact ⟨_, stackAllocate_holds ⟨hplaced, hsize⟩⟩
      · exact hkeep v hv hoff id
  | switch next ra =>
    have hsus := fun hne => hs.suspended hne h
    obtain ⟨⟨-, -, hnext⟩, rfl⟩ := switch_eq_some.mp h
    refine ⟨hnext, hs.placed, hs.apart, fun v hv hoff => ?_⟩
    by_cases hcur : v = s.current
    · subst hcur
      exact ⟨_, hsus fun heq => hoff heq.symm⟩
    · exact hkeep v hv hcur fun heq => hoff heq.symm
  | delete t =>
    rw [SwitchState.step, Option.ite_none_left_eq_some] at h
    obtain ⟨hne, ⟨⟩⟩ := h
    have hsub : ∀ v, v ∈ s.threads.filter (· ≠ t) → v ∈ s.threads := fun v hv => List.mem_of_mem_filter hv
    refine ⟨List.mem_filter.mpr ⟨hs.current, by simpa using fun heq => hne heq.symm⟩,
      fun v hv => hs.placed v (hsub v hv), fun v hv w hw => hs.apart v (hsub v hv) w (hsub w hw),
      fun v hv hoff => hkeep v (hsub v hv) hoff ?_⟩
    rintro rfl
    simpa using (List.mem_filter.mp hv).2

theorem SwitchInv.run_keeps {es : List SwitchEvent} (hs : SwitchInv sym s) (hu : u ∈ s.threads)
    (hoff : u ≠ s.current) (hold : HoldsContext u c s.cpu.mem) (hes : ∀ e ∈ es, ¬ SwitchEvent.Concerns u e)
    (h : run (SwitchState.step sym) s es = some s') :
    SwitchInv sym s' ∧ u ∈ s'.threads ∧ u ≠ s'.current ∧ HoldsContext u c s'.cpu.mem := by
  refine run_invariant (I := fun s => SwitchInv sym s ∧ u ∈ s.threads ∧ u ≠ s.current ∧
    HoldsContext u c s.cpu.mem) (fun s e s' hs he hstep => ?_) ⟨hs, hu, hoff, hold⟩
    (meets_of_forall (fun _ => hes) s) h
  obtain ⟨hs, hu, hoff, hold⟩ := hs
  obtain ⟨hu', hoff', hsame⟩ := hs.step_same hu hoff he hstep
  exact ⟨hs.step hstep, hu', hoff', hold.congr (hs.placed u hu) hsame⟩

/-- INTERNAL: Nachos as it starts, with the thread of the host's process alone.
SRCLINE: threads/system.cc:136-141 -/
structure Booted (sym : HostSymbols) (s : SwitchState) : Prop where
  placed : s.current.Placed sym
  alone : s.threads = [s.current]

theorem SwitchInv.of_run {s₀ : SwitchState} {es : List SwitchEvent} (h : Booted sym s₀)
    (hrun : run (SwitchState.step sym) s₀ es = some s) : SwitchInv sym s := by
  refine run_invariant_free (fun _ _ _ hs hstep => hs.step hstep) ?_ hrun
  have hall : ∀ t ∈ s₀.threads, t = s₀.current := by simp [h.alone]
  exact ⟨by simp [h.alone], fun t ht => hall t ht ▸ h.placed,
    fun t ht u hu hne => absurd ((hall t ht).trans (hall u hu).symm) hne,
    fun u hu hoff => absurd (hall u hu) hoff⟩

theorem SwitchInv.resume (hs : SwitchInv sym s) (ra : BitVec 32)
    (hover : checkOverflow s.current s.cpu.mem = true) (hroom : s.HasRoom) (hu : u ∈ s.threads)
    (hoff : u ≠ s.current) (hold : HoldsContext u c s.cpu.mem) :
    ∃ s', s.step sym (.switch u ra) = some s' ∧ s'.current = u ∧ ∃ mem, Resumed sym u c mem s'.cpu := by
  obtain ⟨mem, -, -, hres⟩ := @SwitchInv.callSwitch sym s u c ra hs hroom hu (.inl ⟨hold, hoff⟩)
  exact ⟨_, switch_eq_some.mpr ⟨⟨hover, hroom, hu⟩, rfl⟩, rfl, mem, hres⟩

end Runs

section Returns

variable {sym : HostSymbols} {s₀ s s₁ s₂ : SwitchState} {es₀ es : List SwitchEvent} {next : HostThread}
  {ra : BitVec 32}

/-- SOURCE: threads/switch.c:312-342 — a thread comes back from `SWITCH` as it went in: whatever the
other threads do meanwhile, the next switch to it goes to its return address, with every register
and every byte of its stack above the arguments of the call as they were. -/
theorem switch_comes_back (ra' : BitVec 32) (hboot : Booted sym s₀)
    (h₀ : run (SwitchState.step sym) s₀ es₀ = some s) (hne : next ≠ s.current)
    (h₁ : s.step sym (.switch next ra) = some s₁)
    (hes : ∀ e ∈ es, ¬ SwitchEvent.Concerns s.current e)
    (h₂ : run (SwitchState.step sym) s₁ es = some s₂)
    (hover : checkOverflow s₂.current s₂.cpu.mem = true) (hroom : s₂.HasRoom) :
    ∃ s₃, s₂.step sym (.switch s.current ra') = some s₃ ∧ s₃.current = s.current ∧
      s₃.cpu.eip = ra ∧ s₃.cpu.regs .esp = s.cpu.regs .esp - 8 ∧
      (∀ r, r ≠ HostReg.esp → s₃.cpu.regs r = s.cpu.regs r) ∧
      ∀ a, (s.cpu.regs .esp).toNat ≤ a.toNat → a.toNat < s.current.stack.toNat + s.current.size →
        s₃.cpu.mem a = s.cpu.mem a := by
  have hs : SwitchInv sym s := SwitchInv.of_run hboot h₀
  have hold₁ := hs.suspended hne h₁
  have hs₁ := hs.step h₁
  obtain ⟨⟨-, hroom₀, hnext⟩, rfl⟩ := switch_eq_some.mp h₁
  obtain ⟨hs₂, hin₂, hoff₂, hold₂⟩ := hs₁.run_keeps hs.current hne.symm hold₁ hes h₂
  obtain ⟨s₃, h₃, hcur, mem, hres⟩ := hs₂.resume ra' hover hroom hin₂ hoff₂ hold₂
  refine ⟨s₃, h₃, hcur, hres.eip, ?_, fun r hr => ?_, fun a hlow hhigh => ?_⟩
  · rw [hres.esp, suspension_esp, sub_add, show (12 - 4 : BitVec 32) = 8 by decide]
  · rw [hres.regs r hr]
    exact Function.update_of_ne hr _ _
  · refine hres.bytes a ?_ hhigh
    rw [suspension_esp, toNat_esp_sub hroom₀]
    have hlow₀ := hroom₀.1
    omega

/-- INTERNAL: a layout of memory for the first thread and two it forks.
SRCLINE: threads/system.cc:136-141 -/
def exampleSymbols : HostSymbols :=
  { switch := 0x1000, threadRoot := 0x2000, interruptEnable := 0x3000, threadFinish := 0x4000,
    eaxSave := 0x5000 }

def exampleMain : HostThread :=
  { object := 0x10000, stack := 0x20000, size := 0x1000, allocated := false }

def exampleChild : HostThread :=
  { object := 0x30000, stack := 0x40000, size := 4 * stackSize, allocated := true }

def exampleSibling : HostThread :=
  { object := 0x50000, stack := 0x60000, size := 4 * stackSize, allocated := true }

/-- INTERNAL: the first thread with its stack pointer in the middle of its stack.
SRCLINE: threads/system.cc:136-141 -/
def exampleBoot : SwitchState :=
  { cpu := { regs := fun r => if r = .esp then 0x20800 else r.offset, mem := fun _ => 0, eip := 0 }
    current := exampleMain
    threads := [exampleMain] }

theorem exampleBoot_booted : Booted exampleSymbols exampleBoot :=
  ⟨by decide, rfl⟩

/-- INTERNAL: a thread loads all registers and stores a byte into its stack.
SRCLINE: threads/threadtest.cc:24-33 -/
def exampleWork (t : HostThread) : SwitchEvent :=
  .work (fun r => if r = .esp then t.stack + 0x1000 else 5) 0x6010 [(t.stack + 0x1000, 1)]

/-- The first thread forks two and switches to one of them, which works and switches to the
other. -/
theorem switch_comes_back_from_child :
    ∃ s s₁ s₂ s₃, run (SwitchState.step exampleSymbols) exampleBoot
        [.fork exampleChild 0x6000 7, .fork exampleSibling 0x6000 8] = some s ∧
      s.step exampleSymbols (.switch exampleChild 0x7000) = some s₁ ∧
      run (SwitchState.step exampleSymbols) s₁
        [exampleWork exampleChild, .switch exampleSibling 0x9000,
          exampleWork exampleSibling] = some s₂ ∧
      s₂.step exampleSymbols (.switch s.current 0x8000) = some s₃ ∧ s₃.cpu.eip = 0x7000 ∧
      ∀ r, r ≠ HostReg.esp → s₃.cpu.regs r = s.cpu.regs r := by
  have heval : (run (SwitchState.step exampleSymbols) exampleBoot
      [.fork exampleChild 0x6000 7, .fork exampleSibling 0x6000 8]).any (fun s =>
        decide (s.current = exampleMain) &&
        (s.step exampleSymbols (.switch exampleChild 0x7000)).any fun s₁ =>
          (run (SwitchState.step exampleSymbols) s₁
            [exampleWork exampleChild, .switch exampleSibling 0x9000,
              exampleWork exampleSibling]).any fun s₂ =>
            checkOverflow s₂.current s₂.cpu.mem && decide s₂.HasRoom) = true := by
    decide +kernel
  obtain ⟨s, h₀, hs⟩ := (Option.any_eq_true _ _).mp heval
  rw [Bool.and_eq_true, decide_eq_true_eq] at hs
  obtain ⟨s₁, h₁, hs₁⟩ := (Option.any_eq_true _ _).mp hs.2
  obtain ⟨s₂, h₂, hs₂⟩ := (Option.any_eq_true _ _).mp hs₁
  rw [Bool.and_eq_true, decide_eq_true_eq] at hs₂
  obtain ⟨s₃, h₃, -, heip, -, hregs, -⟩ := switch_comes_back 0x8000 exampleBoot_booted h₀
    (by rw [hs.1]; decide) h₁ (by rw [hs.1]; decide)
    h₂ hs₂.1 hs₂.2
  exact ⟨s, s₁, s₂, s₃, h₀, h₁, h₂, h₃, heip, hregs⟩

end Returns

section FirstRun

variable {sym : HostSymbols} {cpu : HostCpu}

/-- INTERNAL: a routine called in the state `c` with `args` bytes of arguments has come back: to its
return address, with the registers a callee saves and the caller's stack below `top` as they were.
SRCLINE: threads/switch.c:287-289 -/
structure CallReturned (args top : ℕ) (c c' : HostCpu) : Prop where
  eip : c'.eip = readWord c.mem (c.regs .esp)
  esp : c'.regs .esp = c.regs .esp + 4
  saved : ∀ r ∈ [HostReg.ebx, .ebp, .esi, .edi], c'.regs r = c.regs r
  frame : ∀ a, (c.regs .esp).toNat + 4 + args ≤ a.toNat → a.toNat < top → c'.mem a = c.mem a

/-- INTERNAL: `ThreadRoot`, entered in the state `cpu`, calls `startup` without arguments, then
`func` with the argument `arg`, then `done`, whatever state the first two return in.
SRCLINE: threads/switch.c:283-289 -/
def CallsInOrder (sym : HostSymbols) (top : ℕ) (startup func arg done : BitVec 32)
    (cpu : HostCpu) : Prop :=
  (threadRoot sym cpu).eip = startup ∧ ∀ c₁, CallReturned 0 top (threadRoot sym cpu) c₁ →
    (threadRoot sym c₁).eip = func ∧
      readWord (threadRoot sym c₁).mem ((threadRoot sym c₁).regs .esp + 4) = arg ∧
      ∀ c₂, CallReturned 4 top (threadRoot sym c₁) c₂ → (threadRoot sym c₂).eip = done

theorem codeFrom_threadRoot (base : BitVec 32) :
    codeFrom base base threadRootCode = threadRootCode ∧
      codeFrom base (base + 6) threadRootCode = threadRootCode.drop 4 ∧
      codeFrom base (base + 8) threadRootCode = threadRootCode.drop 5 := by
  refine ⟨?_, ?_, ?_⟩ <;>
    simp [codeFrom, threadRootCode, HostInstr.size, HostOperand.size, BitVec.add_assoc]

/-- INTERNAL: `ThreadRoot` up to its first call. -/
theorem threadRoot_starts (heip : cpu.eip = sym.threadRoot) :
    ∃ c, threadRoot sym cpu = c ∧ c.eip = cpu.regs .ecx ∧ c.regs .esp = cpu.regs .esp - 12 ∧
      c.regs .esi = cpu.regs .esi ∧ c.regs .edi = cpu.regs .edi ∧
      readWord c.mem (cpu.regs .esp - 12) = sym.threadRoot + 6 ∧
      readWord c.mem (cpu.regs .esp - 12 + 4) = cpu.regs .edx := by
  have hesp : cpu.regs .esp - 4 - 4 - 4 = cpu.regs .esp - 12 := by
    rw [sub_sub, sub_sub, show (4 + (4 + 4) : BitVec 32) = 12 by decide]
  have hslot : cpu.regs .esp - 4 - 4 = cpu.regs .esp - 12 + 4 := by rw [← hesp, sub_add_cancel]
  have hret : cpu.eip + 1 + 2 + 1 + 2 = sym.threadRoot + 6 := by
    rw [heip, add_assoc, add_assoc, add_assoc, show (1 + (2 + (1 + 2)) : BitVec 32) = 6 by decide]
  have happ := (by decide : WordsApart 0 4).add (cpu.regs .esp - 12)
  rw [add_zero] at happ
  obtain ⟨m, hm⟩ : ∃ m, m = writeWord (writeWord (writeWord cpu.mem (cpu.regs .esp - 4) (cpu.regs .ebp))
    (cpu.regs .esp - 4 - 4) (cpu.regs .edx)) (cpu.regs .esp - 4 - 4 - 4) (cpu.eip + 1 + 2 + 1 + 2) := ⟨_, rfl⟩
  have hroot : threadRoot sym cpu = runFrom sym threadRootCode cpu := by
    rw [threadRoot, heip, (codeFrom_threadRoot sym.threadRoot).1]
  have hmem : (runFrom sym threadRootCode cpu).mem = m := by
    rw [hm]
    rfl
  rw [hesp, hslot, hret] at hm
  refine ⟨_, hroot, rfl, hesp, rfl, rfl, ?_, ?_⟩
  · rw [hmem, hm, readWord_writeWord_self]
  · rw [hmem, hm, readWord_writeWord_of_apart happ, readWord_writeWord_self]

/-- INTERNAL: `ThreadRoot` calls its three routines in their order. -/
theorem threadRoot_calls {t : HostThread} (ht : t.Placed sym) (heip : cpu.eip = sym.threadRoot)
    (hroom : RoomOn t (cpu.regs .esp)) :
    CallsInOrder sym (t.stack.toNat + t.size) (cpu.regs .ecx) (cpu.regs .esi) (cpu.regs .edx)
      (cpu.regs .edi) cpu := by
  have hbase := toNat_esp_sub hroom
  obtain ⟨hlow, hhigh⟩ := hroom
  have hfit := ht.2.1
  have hslot : (cpu.regs .esp - 12 + 4).toNat = (cpu.regs .esp).toNat - 8 := by
    rw [BitVec.toNat_add, hbase]
    exact (Nat.mod_eq_of_lt (by show _ + 4 < _; omega)).trans (by show _ + 4 = _; omega)
  obtain ⟨-, hafter₁, hafter₂⟩ := codeFrom_threadRoot sym.threadRoot
  obtain ⟨c, hc, heip₀, hesp₀, hesi, hedi, hret, harg⟩ := threadRoot_starts heip
  rw [CallsInOrder, hc]
  refine ⟨heip₀, fun c₁ hc₁ => ?_⟩
  -- back from the first routine: the argument pushed for the second is still there
  have heip₁ : c₁.eip = sym.threadRoot + 6 := by rw [hc₁.eip, hesp₀, hret]
  have hesp₁ : c₁.regs .esp = cpu.regs .esp - 12 + 4 := by rw [hc₁.esp, hesp₀]
  have harg₁ : readWord c₁.mem (c₁.regs .esp) = cpu.regs .edx := by
    have hword : WordIn (cpu.regs .esp - 12 + 4) 4 (cpu.regs .esp - 12 + 4) :=
      ⟨le_rfl, le_rfl, by omega⟩
    rw [hesp₁, hword.readWord_congr fun b hb => hc₁.frame b ?_ ?_, harg]
    · have hb₁ := hb.1
      rw [hesp₀]
      omega
    · have hb₂ := hb.2
      omega
  have hrun₁ : threadRoot sym c₁ = { c₁.push (c₁.eip + 2) with eip := c₁.regs .esi } := by
    rw [threadRoot, heip₁, hafter₁, ← heip₁]
    rfl
  rw [hrun₁]
  refine ⟨by rw [← hesi, ← hc₁.saved .esi (by decide)], ?_, fun c₂ hc₂ => ?_⟩
  · have happ := (by decide : WordsApart 0 4).add (c₁.regs .esp - 4)
    rw [add_zero, sub_add_cancel] at happ
    show readWord (writeWord c₁.mem (c₁.regs .esp - 4) (c₁.eip + 2)) (c₁.regs .esp - 4 + 4) = _
    rw [sub_add_cancel, readWord_writeWord_of_apart happ, harg₁]
  · have heip₂ : c₂.eip = sym.threadRoot + 8 := by
      rw [hc₂.eip.trans readWord_writeWord_self, heip₁, add_assoc, show (6 + 2 : BitVec 32) = 8 by decide]
    rw [threadRoot, heip₂, hafter₂]
    show c₂.regs .edi = _
    rw [hc₂.saved .edi (by decide)]
    show c₁.regs .edi = _
    rw [hc₁.saved .edi (by decide), hedi]

variable {s₀ s s₁ s₂ : SwitchState} {es₀ es : List SwitchEvent} {t : HostThread}
  {func arg : BitVec 32}

/-- SOURCE: threads/thread.cc:252-284 — whatever happens between its `Fork` and the first switch to
it, a new thread then runs `ThreadRoot`, which calls `InterruptEnable`, then `func` with `arg`, and
then `ThreadFinish`. -/
theorem forked_thread_calls (ra : BitVec 32) (hboot : Booted sym s₀)
    (h₀ : run (SwitchState.step sym) s₀ es₀ = some s)
    (h₁ : s.step sym (.fork t func arg) = some s₁)
    (hes : ∀ e ∈ es, ¬ SwitchEvent.Concerns t e)
    (h₂ : run (SwitchState.step sym) s₁ es = some s₂)
    (hover : checkOverflow s₂.current s₂.cpu.mem = true) (hroom : s₂.HasRoom) :
    ∃ s₃, s₂.step sym (.switch t ra) = some s₃ ∧ s₃.current = t ∧
      CallsInOrder sym (t.stack.toNat + t.size) sym.interruptEnable func arg sym.threadFinish
        s₃.cpu := by
  have hs : SwitchInv sym s := SwitchInv.of_run hboot h₀
  have hs₁ := hs.step h₁
  obtain ⟨⟨-, hsize, hplaced, hfree⟩, rfl⟩ := fork_eq_some.mp h₁
  have ht : Allocated sym t := ⟨hplaced, hsize⟩
  have hoff₁ : t ≠ s.current := by
    rintro rfl
    obtain ⟨happ | happ, -⟩ := hfree _ hs.current <;> exact absurd happ (by simp [contextSize])
  obtain ⟨hs₂, hin₂, hoff₂, hold₂⟩ :=
    hs₁.run_keeps List.mem_cons_self hoff₁ (stackAllocate_holds ht) hes h₂
  obtain ⟨s₃, h₃, hcur, mem, hres⟩ := hs₂.resume ra hover hroom hin₂ hoff₂ hold₂
  obtain ⟨hesp, hecx, hedx, hesi, hedi⟩ := freshContext_regs ht func arg s.cpu.mem
  have hroom₃ : RoomOn t (s₃.cpu.regs .esp) := by
    have hnat := freshTop_toNat ht
    have hfit := ht.placed.2.1
    rw [hsize, stackSize] at hfit
    have htop : (freshTop t + 4).toNat = (freshTop t).toNat + 4 := by
      rw [BitVec.toNat_add]
      exact Nat.mod_eq_of_lt (by show _ + 4 < _; omega)
    rw [hres.esp, hesp, RoomOn, hsize, stackSize]
    omega
  have hcalls := threadRoot_calls ht.placed hres.eip hroom₃
  rw [hres.regs .ecx (by decide), hres.regs .esi (by decide), hres.regs .edx (by decide),
    hres.regs .edi (by decide), hecx, hesi, hedx, hedi] at hcalls
  exact ⟨s₃, h₃, hcur, hcalls⟩

/-- Before the first switch to the new thread a sibling of it runs. -/
theorem forked_thread_calls_first :
    ∃ s s₁ s₂ s₃,
      run (SwitchState.step exampleSymbols) exampleBoot [.fork exampleSibling 0x6000 8] = some s ∧
      s.step exampleSymbols (.fork exampleChild 0x6000 7) = some s₁ ∧
      run (SwitchState.step exampleSymbols) s₁
        [.switch exampleSibling 0x9000, exampleWork exampleSibling] = some s₂ ∧
      s₂.step exampleSymbols (.switch exampleChild 0x7000) = some s₃ ∧
      CallsInOrder exampleSymbols (exampleChild.stack.toNat + exampleChild.size)
        exampleSymbols.interruptEnable 0x6000 7 exampleSymbols.threadFinish s₃.cpu := by
  have heval : (run (SwitchState.step exampleSymbols) exampleBoot
      [.fork exampleSibling 0x6000 8]).any (fun s =>
        (s.step exampleSymbols (.fork exampleChild 0x6000 7)).any fun s₁ =>
          (run (SwitchState.step exampleSymbols) s₁
            [.switch exampleSibling 0x9000, exampleWork exampleSibling]).any fun s₂ =>
            checkOverflow s₂.current s₂.cpu.mem && decide s₂.HasRoom) = true := by
    decide +kernel
  obtain ⟨s, h₀, hs⟩ := (Option.any_eq_true _ _).mp heval
  obtain ⟨s₁, h₁, hs₁⟩ := (Option.any_eq_true _ _).mp hs
  obtain ⟨s₂, h₂, hs₂⟩ := (Option.any_eq_true _ _).mp hs₁
  rw [Bool.and_eq_true, decide_eq_true_eq] at hs₂
  obtain ⟨s₃, h₃, -, hcalls⟩ := forked_thread_calls 0x7000 exampleBoot_booted h₀ h₁
    (by decide) h₂ hs₂.1 hs₂.2
  exact ⟨s, s₁, s₂, s₃, h₀, h₁, h₂, h₃, hcalls⟩

end FirstRun

end Nachos.Analysis
