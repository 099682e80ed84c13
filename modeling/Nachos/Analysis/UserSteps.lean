import Nachos.Library.Turns
import Nachos.Model.UserProcesses
import Nachos.Analysis.FrameOwnership
import Nachos.Analysis.PcbInitialisation

/-!
# What one step of a user process can do

`UserStep` lists the ways in which a step changes the state of the machine, and
`userStep_of_step` says that there are no others. A step that goes to the process table changes
the table as the table's own model says; apart from that it can delete one address space and end
the system call (`OnTable`, `tableCall_cases`).

Two invariants hold in every run: the process table is sound up to the slots that are being
filled, and the page map has its size (`KernelInv`).
-/

set_option autoImplicit false

namespace Nachos.Analysis

open Nachos.Library Nachos.Model

variable {s s' : UserState} {e : UserEvent} {b b' : BitMap} {pe : ProcEvent}

/-! ## The list of steps -/

/-- The step of the process table that an event of the current thread leads to. -/
def tableEvent (s : UserState) : UserEvent → Option ProcEvent
  | .exec name _ opens' => some (.exec s.currentThread name opens')
  | .join => some (.join s.currentThread s.registers.argument.toInt)
  | .exit => some (.exit s.currentThread s.registers.argument.toInt)
  | .resume garbage => some (.resume s.currentThread garbage)
  | _ => none

theorem thread_of_tableEvent (h : tableEvent s e = some pe) : pe.thread = s.currentThread := by
  cases e <;> cases h <;> rfl

/-- INTERNAL: the ways in which one step changes the state.
SRCLINE: userprog/exception.cc:41-532, threads/pcb.cc:25-38, threads/scheduler.cc:90-135 -/
inductive UserStep (s : UserState) : UserEvent → UserState → Prop
  | run {next : ThreadId} (hready : s.ready next = true) :
      UserStep s (.run next) (s.schedulerRun next)
  | start {file : Option Executable} {uninit : AddrSpace} {s' : UserState}
      (hmode : s.mode s.currentThread = .starting) (h : s.startProcess2 file uninit = some s') :
      UserStep s (.startProcess2 file uninit) s'
  | instruction {registers : Registers} {mem : Memory} (hmode : s.mode s.currentThread = .user) :
      UserStep s (.oneInstruction registers mem)
        { s with registers := registers, mainMemory := mem }
  | trap {call : Syscall} (hmode : s.mode s.currentThread = .user) :
      UserStep s .syscall
        { s with
          registers := s.registers.raiseException 0#32
          mode := Function.update s.mode s.currentThread (.system call)
          trapped := Function.update s.trapped s.currentThread s.registers }
  | back {e : UserEvent} {call : Syscall} (registers : Registers) (mem : Memory)
      (hmode : s.mode s.currentThread = .system call)
      (hends : (∃ end_, call.ends end_ = true) ∨
        (s.threads s.currentThread).map Thread.pc = some .user)
      (hregisters : registers = s.registers ∨ ∃ value, registers = s.registers.writeResult value) :
      UserStep s e ({ s with registers := registers, mainMemory := mem }.return_)
  | stop {e : UserEvent} {status : Status} (mem : Memory) (hstatus : status ≠ .running) :
      UserStep s e { s with mainMemory := mem, status := status }
  | table {e : UserEvent} {pe : ProcEvent} {call : Syscall} {s' : UserState}
      (hmode : s.mode s.currentThread = .system call)
      (hcall : (∀ end_, call.ends end_ = false) ∨ ∃ garbage, e = .resume garbage)
      (he : tableEvent s e = some pe) (h : s.tableCall pe = some s') : UserStep s e s'

theorem userStep_abort (s : UserState) (e : UserEvent) : UserStep s e s.abort :=
  .stop s.mainMemory fun h => by cases h

theorem userStep_finish {call : Syscall} (hmode : s.mode s.currentThread = .system call)
    {end_ : Finish} (hends : call.ends end_ = true) (mem : Memory) :
    UserStep s e ({ s with mainMemory := mem }.finishCall end_) := by
  cases end_ with
  | result value =>
    exact .back (s.registers.writeResult value) mem hmode (Or.inl ⟨_, hends⟩) (Or.inr ⟨value, rfl⟩)
  | silent => exact .back s.registers mem hmode (Or.inl ⟨_, hends⟩) (Or.inl rfl)
  | halt => exact .stop mem fun h => by cases h
  | abort => exact .stop mem fun h => by cases h

/-- INTERNAL: **every step of the machine is one of the listed steps.**
SRCLINE: userprog/exception.cc:41-532, threads/pcb.cc:25-38, threads/scheduler.cc:90-135 -/
theorem userStep_of_step (h : s.step e = some s') : UserStep s e s' := by
  unfold UserState.step at h
  split at h
  · cases e with
    | run next =>
      simp only [Option.ite_none_right_eq_some, Option.some.injEq] at h
      obtain ⟨hready, rfl⟩ := h
      exact .run hready
    | startProcess2 file uninit =>
      dsimp only at h
      cases hmode : s.mode s.currentThread <;> rw [hmode] at h <;>
        simp only [UserState.act, reduceCtorEq, Option.some.injEq] at h
      cases hstart : s.startProcess2 file uninit with
      | none =>
        rw [hstart, Option.getD_none] at h
        exact h ▸ userStep_abort s _
      | some s₁ =>
        rw [hstart, Option.getD_some] at h
        exact h ▸ .start hmode hstart
    | oneInstruction registers mem =>
      dsimp only at h
      cases hmode : s.mode s.currentThread <;> rw [hmode] at h <;>
        simp only [UserState.act, reduceCtorEq, Option.some.injEq] at h
      exact h ▸ .instruction hmode
    | fault =>
      dsimp only at h
      cases hmode : s.mode s.currentThread <;> rw [hmode] at h <;>
        simp only [UserState.act, reduceCtorEq, Option.some.injEq] at h
      exact h ▸ userStep_abort s _
    | syscall =>
      dsimp only at h
      cases hmode : s.mode s.currentThread <;> rw [hmode] at h <;>
        simp only [UserState.act, reduceCtorEq, Option.some.injEq, UserState.trap] at h
      split at h
      · exact h ▸ userStep_abort s _
      · exact h ▸ .trap hmode
    | finish end_ mem =>
      dsimp only at h
      cases hmode : s.mode s.currentThread <;> rw [hmode] at h <;>
        simp only [UserState.act, reduceCtorEq, Option.ite_none_right_eq_some,
          Option.some.injEq] at h
      exact h.2 ▸ userStep_finish hmode h.1 mem
    | exec name opens opens' =>
      dsimp only at h
      cases hmode : s.mode s.currentThread with
      | starting => rw [hmode] at h; cases h
      | user => rw [hmode] at h; cases h
      | system call =>
        rw [hmode] at h
        cases call <;> simp only [UserState.act, reduceCtorEq] at h
        split at h
        · next hpc =>
          split at h
          · cases h
            exact .back (s.registers.writeResult (-1)) s.mainMemory hmode (Or.inr hpc)
              (Or.inr ⟨-1, rfl⟩)
          · exact .table hmode (Or.inl fun _ => rfl) rfl h
        · cases h
    | join =>
      dsimp only at h
      cases hmode : s.mode s.currentThread with
      | starting => rw [hmode] at h; cases h
      | user => rw [hmode] at h; cases h
      | system call =>
        rw [hmode] at h
        cases call <;> simp only [UserState.act, reduceCtorEq] at h
        exact .table hmode (Or.inl fun _ => rfl) rfl h
    | exit =>
      dsimp only at h
      cases hmode : s.mode s.currentThread with
      | starting => rw [hmode] at h; cases h
      | user => rw [hmode] at h; cases h
      | system call =>
        rw [hmode] at h
        cases call <;> simp only [UserState.act, reduceCtorEq] at h
        exact .table hmode (Or.inl fun _ => rfl) rfl h
    | resume garbage =>
      dsimp only at h
      cases hmode : s.mode s.currentThread <;> rw [hmode] at h <;>
        simp only [UserState.act, reduceCtorEq] at h
      exact .table hmode (Or.inr ⟨garbage, rfl⟩) rfl h
  · cases h

/-! ## Steps of the process table -/

/-- INTERNAL: what a step of the process table leaves as it is. The address space of one thread
may be deleted.
SRCLINE: threads/ptable.cc:20-121, threads/pcb.cc:18-23 -/
structure OnTable (s : UserState) (pe : ProcEvent) (s' : UserState) : Prop where
  table : ∃ p, s.toProcState.step pe = some p ∧ s'.toProcTable = p.toProcTable ∧
    (s'.status = .running → p.status = .running)
  registers : s'.registers = s.registers
  pageTable : s'.pageTable = s.pageTable
  currentThread : s'.currentThread = s.currentThread
  userRegisters : s'.userRegisters = s.userRegisters
  mode : s'.mode = s.mode
  trapped : s'.trapped = s.trapped
  left : s'.left = s.left
  bits : s'.gPhysPageBitMap.numBits = s.gPhysPageBitMap.numBits
  space : ∀ t, s'.space t = s.space t ∨ UserState.destroyedThread s.toProcState pe = some t ∧
    (∃ a, s.space t = .live a) ∧ s'.space t = .deleted

theorem numBits_clear {which : ℤ} (h : b.clear which = some b') : b'.numBits = b.numBits := by
  simp only [BitMap.clear, Option.ite_none_right_eq_some, Option.some.injEq] at h
  rw [← h.2]

theorem numBits_clearPages {table : List TranslationEntry}
    (h : AddrSpace.clearPages table b = some b') : b'.numBits = b.numBits := by
  induction table generalizing b with
  | nil =>
    cases h
    rfl
  | cons entry rest ih =>
    obtain ⟨b₁, hclear, h⟩ := Option.bind_eq_some_iff.mp h
    rw [ih h, numBits_clear hclear]

/-- INTERNAL: a step of the process table keeps the machine. -/
theorem onTable_of_tableStep (h : s.tableStep pe = some s') : OnTable s pe s' := by
  obtain ⟨p, hp, h⟩ := Option.map_eq_some_iff.mp h
  have hkept : OnTable s pe { s with toProcState := p } :=
    ⟨⟨p, hp, rfl, id⟩, rfl, rfl, rfl, rfl, rfl, rfl, rfl, rfl, fun _ => Or.inl rfl⟩
  split at h
  · exact h ▸ hkept
  · next u hu =>
    unfold UserState.deleteSpace at h
    cases hspace : s.space u with
    | null =>
      simp only [hspace, Option.getD_some] at h
      exact h ▸ hkept
    | deleted =>
      simp only [hspace, Option.getD_none] at h
      subst h
      exact { hkept with table := ⟨p, hp, rfl, fun h => by cases h⟩ }
    | live a =>
      simp only [hspace] at h
      cases hdelete : a.delete s.gPhysPageBitMap with
      | none =>
        rw [hdelete] at h
        subst h
        exact { hkept with table := ⟨p, hp, rfl, fun h => by cases h⟩ }
      | some b =>
        rw [hdelete] at h
        subst h
        refine { hkept with table := ⟨p, hp, rfl, id⟩, bits := numBits_clearPages hdelete, space := ?_ }
        intro t
        by_cases ht : t = u
        · subst ht
          exact Or.inr ⟨hu, ⟨a, hspace⟩, Function.update_self _ _ _⟩
        · exact Or.inl (Function.update_of_ne ht _ _)

theorem OnTable.isNull (h : OnTable s pe s') (t : ThreadId) :
    (s'.space t).isNull = (s.space t).isNull := by
  rcases h.space t with heq | ⟨-, ⟨a, hlive⟩, hdeleted⟩
  · rw [heq]
  · rw [hlive, hdeleted]
    rfl

theorem OnTable.viewStep (h : OnTable s pe s') :
    ViewStep (viewOf s.toProcTable) pe (viewOf s'.toProcTable) := by
  obtain ⟨p, hp, htable, -⟩ := h.table
  rw [htable]
  exact viewStep_of_step hp

theorem tableCall_cases (h : s.tableCall pe = some s') :
    ∃ s₁, OnTable s pe s₁ ∧ (s' = s₁ ∧
        (s₁.status = .running → (s₁.threads s₁.currentThread).map Thread.pc ≠ some .user) ∨
      ∃ value, s' = s₁.returnResult value ∧ s₁.status = .running ∧
        (s₁.threads s₁.currentThread).map Thread.pc = some .user) := by
  obtain ⟨s₁, hstep, h⟩ := Option.map_eq_some_iff.mp h
  refine ⟨s₁, onTable_of_tableStep hstep, ?_⟩
  split at h
  · next hback => exact Or.inr ⟨_, h.symm, hback⟩
  · next hback => exact Or.inl ⟨h.symm, fun hrunning hpc => hback ⟨hrunning, hpc⟩⟩

/-! ## Changes of threads -/

/-- The registers as a cell that the threads use in turns. -/
def turnsOf (s : UserState) : Turns ThreadId Registers :=
  ⟨s.currentThread, s.registers, s.userRegisters⟩

theorem view_currentThread (s : UserState) :
    (turnsOf s).view s.currentThread = s.registers :=
  Turns.view_current (turnsOf s)

theorem view_of_other {t : ThreadId} (h : t ≠ s.currentThread) :
    (turnsOf s).view t = s.userRegisters t :=
  Turns.view_of_ne h

/-- The threads that save their registers: those with an address space. -/
def savesRegisters (s : UserState) (t : ThreadId) : Bool := !(s.space t).isNull

theorem turnsOf_schedulerRun (s : UserState) (next : ThreadId) :
    turnsOf (s.schedulerRun next) = (turnsOf s).switch (savesRegisters s) next := by
  cases hold : (s.space s.currentThread).isNull <;> cases hnext : (s.space next).isNull <;>
    simp [UserState.schedulerRun, Turns.switch, turnsOf, savesRegisters, hold, hnext]

theorem schedulerRun_eq (s : UserState) (next : ThreadId) :
    s.schedulerRun next = { s with
      registers := (s.schedulerRun next).registers
      pageTable := if (s.space next).isNull then s.pageTable else some next
      currentThread := next
      userRegisters := (s.schedulerRun next).userRegisters
      left := Function.update s.left s.currentThread (s.registers, s.pageTable) } := by
  unfold UserState.schedulerRun
  cases (s.space next).isNull <;> rfl

/-- The state in which the current thread enters its program. -/
def started (s : UserState) (space : AddrSpace) (b : BitMap) (mem : Memory) : UserState :=
  { s with
    registers := space.initRegisters
    pageTable := some s.currentThread
    mainMemory := mem
    gPhysPageBitMap := b
    userRegisters := Function.update s.userRegisters s.currentThread space.initRegisters
    space := Function.update s.space s.currentThread (.live space)
    mode := Function.update s.mode s.currentThread .user
    left := Function.update s.left s.currentThread (space.initRegisters, some s.currentThread) }

theorem schedulerRun_started (s : UserState) (space : AddrSpace) (b : BitMap) (mem : Memory) :
    (UserState.schedulerRun { s with
        gPhysPageBitMap := b
        mainMemory := mem
        space := Function.update s.space s.currentThread (.live space)
        registers := space.initRegisters
        pageTable := some s.currentThread } s.currentThread).schedulerRun s.currentThread =
      { started s space b mem with mode := s.mode } := by
  simp [UserState.schedulerRun, SpacePtr.isNull, started]

theorem fetch_started (s : UserState) (space : AddrSpace) (b : BitMap) (mem : Memory) :
    UserState.fetch { started s space b mem with mode := s.mode } =
      Machine.readMem ⟨mem, none, some space.pageTable⟩ 0#32 4 := by
  simp [UserState.fetch, UserState.installedTable, started, AddrSpace.initRegisters]

/-- INTERNAL: **what `StartProcess_2` comes to**: the constructor runs through, and the first word
of the program can be read.
SRCLINE: threads/pcb.cc:25-38, machine/mipssim.cc:102 -/
theorem startProcess2_eq_some {file : Option Executable} {uninit : AddrSpace} :
    s.startProcess2 file uninit = some s' ↔ ∃ space b mem r,
      AddrSpace.newFilename uninit file s.gPhysPageBitMap s.mainMemory = some (space, b, mem) ∧
      Machine.readMem ⟨mem, none, some space.pageTable⟩ 0#32 4 = some (.ok r) ∧
      s' = started s space b mem := by
  unfold UserState.startProcess2
  cases hnew : AddrSpace.newFilename uninit file s.gPhysPageBitMap s.mainMemory with
  | none => simp
  | some new =>
    obtain ⟨space, b, mem⟩ := new
    dsimp only
    rw [schedulerRun_started, fetch_started]
    constructor
    · intro h
      split at h
      · next r hread =>
        cases h
        exact ⟨space, b, mem, r, rfl, hread, rfl⟩
      · cases h
    · rintro ⟨space', b', mem', r, heq, hread, rfl⟩
      cases heq
      rw [hread]
      rfl

theorem UserStep.viewStep (h : UserStep s e s') :
    s'.toProcTable = s.toProcTable ∨ ∃ pe, tableEvent s e = some pe ∧
      ViewStep (viewOf s.toProcTable) pe (viewOf s'.toProcTable) := by
  cases h with
  | run hready => exact Or.inl (by rw [schedulerRun_eq])
  | start hmode h =>
    obtain ⟨space, b, mem, r, -, -, rfl⟩ := startProcess2_eq_some.mp h
    exact Or.inl rfl
  | instruction hmode => exact Or.inl rfl
  | trap hmode => exact Or.inl rfl
  | back registers mem hmode hends hregisters => exact Or.inl rfl
  | stop mem hstatus => exact Or.inl rfl
  | table hmode hcall he h =>
    obtain ⟨s₁, hon, ⟨rfl, -⟩ | ⟨value, rfl, -⟩⟩ := tableCall_cases h
    · exact Or.inr ⟨_, he, hon.viewStep⟩
    · exact Or.inr ⟨_, he, hon.viewStep⟩

/-! ## Which threads there are -/

/-- INTERNAL: a step of the process table moves its own thread, and `Fork` makes a new one. -/
theorem ViewStep.threads_cases {v v' : TableView} {e : ProcEvent} (h : ViewStep v e v')
    (hinv : TableInv v) (u : ThreadId) :
    v'.threads u = v.threads u ∨
      (u = e.thread ∧ ∃ thr pc, v.threads u = some thr ∧ v'.threads u = some ⟨thr.name, pc⟩) ∨
      (v.threads u = none ∧ ∃ name, v'.threads u = some ⟨name, .user⟩) := by
  have hmove : ∀ {w : TableView} {t : ThreadId} {thr : Thread} (pc : Pc), w.threads = v.threads →
      v.threads t = some thr → (w.setPc t pc).threads u = v.threads u ∨
        (u = t ∧ ∃ thr pc', v.threads u = some thr ∧
          (w.setPc t pc).threads u = some ⟨thr.name, pc'⟩) := by
    intro w t thr pc hw hat
    by_cases hu : u = t
    · subst hu
      exact Or.inr ⟨rfl, thr, pc, hat, threads_setPc_self pc (hw ▸ hat)⟩
    · exact Or.inl (by rw [threads_setPc_of_ne pc hu, hw])
  have hkeep := fun {w : TableView} {t : ThreadId} {thr : Thread} (pc : Pc)
    (hw : w.threads = v.threads) (hat : v.threads t = some thr) =>
      (hmove pc hw hat).imp id (Or.inl (b := v.threads u = none ∧
        ∃ name, (w.setPc t pc).threads u = some ⟨name, .user⟩))
  cases h with
  | refuse => exact Or.inl rfl
  | plain pc hat hfrom hto hn hbm => exact hkeep pc rfl hat
  | publish hat hpid hfree hscan hid => exact hkeep _ rfl hat
  | mutexTest hat hpc => exact hkeep _ rfl hat
  | @fork t self name garbage pid ptr k hat hk hnone =>
    obtain ⟨-, -, -, hpre⟩ := hinv.filling t pid ptr false ⟨_, hat, rfl⟩
    have htp : t ≠ ptr := by
      rintro rfl
      rw [hpre rfl] at hat
      cases hat
    by_cases hu : u = ptr
    · subst hu
      refine Or.inr (Or.inr ⟨hpre rfl, name, ?_⟩)
      rw [threads_setPc_of_ne _ (Ne.symm htp)]
      exact Function.update_self _ _ _
    · by_cases hut : u = t
      · subst hut
        refine Or.inr (Or.inl ⟨rfl, _, _, hat, threads_setPc_self _ ?_⟩)
        exact TableView.threads_fork_of_some hat (hpre rfl) name k
      · refine Or.inl ?_
        rw [threads_setPc_of_ne _ hut]
        exact Function.update_of_ne hu _ _
  | forkFail hat hk hsome => exact hkeep _ rfl hat
  | store hat hk => exact hkeep _ rfl hat
  | discard hat hptr hbm => exact hkeep _ rfl hat
  | join hat hid hscan hchild hkc hparent hptr hkm htest => exact hkeep _ rfl hat
  | joinTest hat hkm htest => exact hkeep _ rfl hat
  | joinRead hat hptr hkc => exact hkeep _ rfl hat
  | exit hat hscan hptr hk hpid hparent hkp => exact hkeep _ rfl hat
  | exitTest hat hfrom hk htest => exact hkeep _ rfl hat
  | leave hat hnone => exact hkeep _ rfl hat
  | remove hat hptr hfile hbm => exact hkeep _ rfl hat

theorem ViewStep.exists_thread {v v' : TableView} {e : ProcEvent} (h : ViewStep v e v')
    (hinv : TableInv v) {u : ThreadId} {thr : Thread} (hu : v.threads u = some thr) :
    ∃ thr', v'.threads u = some thr' := by
  obtain heq | ⟨-, thr', pc, -, hthr⟩ | ⟨-, name, hthr⟩ := h.threads_cases hinv u
  · exact ⟨thr, heq.trans hu⟩
  · exact ⟨_, hthr⟩
  · exact ⟨_, hthr⟩

/-! ## What holds in every run -/

/-- INTERNAL: the process table is sound up to the slots being filled, the page map has a bit
for every page, the current thread exists, and a thread that has left `StartProcess_2` does too.
SRCLINE: threads/ptable.cc:54-56, threads/system.cc:130, threads/pcb.cc:25-38 -/
structure KernelInv (s : UserState) : Prop where
  table : TableInv (viewOf s.toProcTable)
  bits : s.gPhysPageBitMap.numBits = numPhysPages
  current : ∃ thr, s.threads s.currentThread = some thr
  born : ∀ t, s.mode t ≠ .starting → ∃ thr, s.threads t = some thr

theorem numBits_newFilename {file : Option Executable} {uninit a : AddrSpace} {mem mem' : Memory}
    (h : AddrSpace.newFilename uninit file b mem = some (a, b', mem')) :
    b'.numBits = b.numBits := by
  cases file with
  | none =>
    cases h
    rfl
  | some executable => exact (takesFrames_newFilename h).bits

theorem UserStep.bits (h : UserStep s e s') :
    s'.gPhysPageBitMap.numBits = s.gPhysPageBitMap.numBits := by
  cases h with
  | run hready => rw [schedulerRun_eq]
  | start hmode h =>
    obtain ⟨space, b, mem, r, hnew, -, rfl⟩ := startProcess2_eq_some.mp h
    exact numBits_newFilename hnew
  | instruction hmode => rfl
  | trap hmode => rfl
  | back registers mem hmode hends hregisters => rfl
  | stop mem hstatus => rfl
  | table hmode hcall he h =>
    obtain ⟨s₁, hon, ⟨rfl, -⟩ | ⟨value, rfl, -⟩⟩ := tableCall_cases h
    · exact hon.bits
    · exact hon.bits

theorem UserStep.exists_thread (h : UserStep s e s') (hinv : TableInv (viewOf s.toProcTable))
    {u : ThreadId} {thr : Thread} (hu : s.threads u = some thr) :
    ∃ thr', s'.threads u = some thr' := by
  rcases h.viewStep with heq | ⟨pe, -, hview⟩
  · exact ⟨thr, by rw [heq]; exact hu⟩
  · exact hview.exists_thread hinv hu

theorem exists_of_ready {t : ThreadId} (h : s.ready t = true) :
    ∃ thr, s.threads t = some thr ∧ thr.pc ≠ .finished := by
  unfold UserState.ready at h
  cases hthr : s.threads t with
  | none => simp [hthr] at h
  | some thr =>
    simp only [hthr, Bool.and_eq_true, decide_eq_true_eq] at h
    exact ⟨thr, rfl, h.1⟩

/-- INTERNAL: a step gives the processor to a thread that is ready, or leaves it where it is and
changes the mode of no other thread. -/
theorem UserStep.mode_cases (h : UserStep s e s') :
    (s'.mode = s.mode ∧ s.ready s'.currentThread = true) ∨
      (s'.currentThread = s.currentThread ∧ ∀ t, t ≠ s.currentThread → s'.mode t = s.mode t) := by
  cases h with
  | run hready =>
    rw [schedulerRun_eq]
    exact Or.inl ⟨rfl, hready⟩
  | start hmode h =>
    obtain ⟨space, b, mem, r, -, -, rfl⟩ := startProcess2_eq_some.mp h
    exact Or.inr ⟨rfl, fun t ht => Function.update_of_ne ht _ _⟩
  | instruction hmode => exact Or.inr ⟨rfl, fun _ _ => rfl⟩
  | trap hmode => exact Or.inr ⟨rfl, fun t ht => Function.update_of_ne ht _ _⟩
  | back registers mem hmode hends hregisters =>
    exact Or.inr ⟨rfl, fun t ht => Function.update_of_ne ht _ _⟩
  | stop mem hstatus => exact Or.inr ⟨rfl, fun _ _ => rfl⟩
  | table hmode hcall he h =>
    obtain ⟨s₁, hon, ⟨rfl, -⟩ | ⟨value, rfl, -⟩⟩ := tableCall_cases h
    · exact Or.inr ⟨hon.currentThread, fun t _ => by rw [hon.mode]⟩
    · refine Or.inr ⟨hon.currentThread, fun t ht => ?_⟩
      rw [← hon.mode]
      exact Function.update_of_ne (by rw [← hon.currentThread] at ht; exact ht) _ _

theorem KernelInv.step (h : KernelInv s) (hstep : s.step e = some s') : KernelInv s' := by
  have hs' := userStep_of_step hstep
  have hexists : ∀ u thr, s.threads u = some thr → ∃ thr', s'.threads u = some thr' :=
    fun _ _ hu => hs'.exists_thread h.table hu
  constructor
  · rcases hs'.viewStep with heq | ⟨pe, -, hview⟩
    · rw [heq]
      exact h.table
    · exact h.table.step hview
  · exact hs'.bits.trans h.bits
  · rcases hs'.mode_cases with ⟨-, hready⟩ | ⟨heq, -⟩
    · obtain ⟨thr, hthr, -⟩ := exists_of_ready hready
      exact hexists _ _ hthr
    · obtain ⟨thr, hthr⟩ := h.current
      rw [heq]
      exact hexists _ _ hthr
  · intro t ht
    rcases hs'.mode_cases with ⟨hmode, -⟩ | ⟨-, hmode⟩
    · rw [hmode] at ht
      obtain ⟨thr, hthr⟩ := h.born t ht
      exact hexists _ _ hthr
    · by_cases htc : t = s.currentThread
      · obtain ⟨thr, hthr⟩ := h.current
        rw [htc]
        exact hexists _ _ hthr
      · rw [hmode t htc] at ht
        obtain ⟨thr, hthr⟩ := h.born t ht
        exact hexists _ _ hthr

/-! ## The first program -/

/-- The machine with the process table `p` and the first program in `space`. -/
def booted (p : ProcState) (space : AddrSpace) (b : BitMap) (mem : Memory)
    (garbage : ThreadId → Registers) : UserState :=
  { p with
    registers := space.initRegisters
    pageTable := some 0
    mainMemory := mem
    gPhysPageBitMap := b
    currentThread := 0
    userRegisters := garbage
    space := fun t => if t = 0 then .live space else .null
    mode := fun t => if t = 0 then .user else .starting
    trapped := garbage
    left := fun t => (garbage t, none) }

theorem boot_eq_some {words frames : ℕ → BitVec 32} {executable : Executable} {mem : Memory}
    {garbage : ThreadId → Registers} {s₀ : UserState} :
    UserState.boot words frames executable mem garbage = some s₀ ↔
      ∃ p, ProcState.boot words = some p ∧ ∃ b, BitMap.new numPhysPages frames = some b ∧
        ∃ space b' mem', AddrSpace.newOpenFile executable b mem = some (space, b', mem') ∧
          s₀ = booted p space b' mem' garbage := by
  simp only [UserState.boot, Option.bind_eq_bind, Option.bind_eq_some_iff, Option.pure_def,
    Option.some.injEq, Prod.exists]
  constructor
  · rintro ⟨p, hp, b, hb, space, b', mem', hnew, rfl⟩
    exact ⟨p, hp, b, hb, space, b', mem', hnew, rfl⟩
  · rintro ⟨p, hp, b, hb, space, b', mem', hnew, rfl⟩
    exact ⟨p, hp, b, hb, space, b', mem', hnew, rfl⟩

theorem kernelInv_boot {words frames : ℕ → BitVec 32} {executable : Executable} {mem : Memory}
    {garbage : ThreadId → Registers} {s₀ : UserState}
    (h : UserState.boot words frames executable mem garbage = some s₀) : KernelInv s₀ := by
  obtain ⟨p, hp, b, hb, space, b', mem', hnew, rfl⟩ := boot_eq_some.mp h
  obtain ⟨b₀, hb₀, hbits, -⟩ := new_eq numPhysPages frames
  rw [hb, Option.some.injEq] at hb₀
  subst hb₀
  obtain ⟨-, -, hthreads, -⟩ := boot_spec hp
  have hmain : p.threads 0 = some ⟨"main", .user⟩ := by rw [hthreads]; rfl
  refine ⟨tableInv_boot hp, (takesFrames_newOpenFile hnew).bits.trans hbits, ⟨_, hmain⟩, ?_⟩
  intro t ht
  by_cases ht0 : t = 0
  · exact ⟨_, ht0 ▸ hmain⟩
  · exact absurd (if_neg ht0) ht

/-- An image without code or data; it needs the pages of the stack. -/
def emptyImage : Executable := ⟨⟨noffMagicNumber, ⟨0, 0, 0⟩, ⟨0, 0, 0⟩, ⟨0, 0, 0⟩⟩, []⟩

theorem numPages_emptyImage :
    divRoundUp (AddrSpace.headerSize emptyImage.noffH) pageSize = 8 := by decide

/-- INTERNAL: a new machine can start a program, and has pages left. -/
theorem exists_boot {words : ℕ → BitVec 32} {p : ProcState} (hp : ProcState.boot words = some p)
    (frames : ℕ → BitVec 32) (mem : Memory) (garbage : ThreadId → Registers) :
    ∃ space b mem', b.numBits = numPhysPages ∧ (clearSet b).card = 312 ∧
      UserState.boot words frames emptyImage mem garbage =
        some (booted p space b mem' garbage) := by
  obtain ⟨b, hb, hbits, hclear⟩ := new_eq numPhysPages frames
  have hcard : (clearSet b).card = 320 := by
    have hall : clearSet b = Finset.range b.numBits :=
      Finset.filter_true_of_mem fun i hi => hclear i (hbits ▸ Finset.mem_range.mp hi)
    rw [hall, Finset.card_range, hbits]
    rfl
  obtain ⟨l, b', table, hmany, halloc, -⟩ := allocPages_eq (fun _ mem => mem) 8 b 0 mem (by omega)
  have hleft := card_clearSet_findMany 8 (by omega) hmany
  have hnew : AddrSpace.newOpenFile emptyImage b mem = some (⟨table⟩, b',
      (l.foldl (fun mem _ => mem) mem).bzero 0 (toUInt32 ((8 : ℕ) * pageSize))) := by
    unfold AddrSpace.newOpenFile
    simp only [numPages_emptyImage, numClear_eq, hcard, halloc]
    rfl
  exact ⟨_, b', _, (takesFrames_newOpenFile hnew).bits.trans hbits, by omega,
    boot_eq_some.mpr ⟨p, hp, b, hb, _, _, _, hnew, rfl⟩⟩

end Nachos.Analysis
