import Nachos.Analysis.CallerIdentity
import Nachos.Analysis.ChildLoading

/-!
# How a process comes back from a system call

A process has the registers to itself: `Scheduler::Run` saves and restores them for every thread
with an address space, a thread without one has no registers to lose, and each branch of the
dispatcher that comes back reaches `IncreasePC` once. `RegInv` is the invariant; it holds in every
run, whatever the interleaving (`RegInv.step`).

The page table register points to the process's own space whenever it runs. That this space is
still there is another matter: it is deleted with the `PCB` of the process, and which `PCB` an
`Exit` deletes depends on the search by name. As long as every process finds itself in the table,
an `Exit` deletes the space of the process that exits and no other (`LiveInv.step`).
-/

set_option autoImplicit false

namespace Nachos.Analysis

open Nachos.Library Nachos.Model

variable {s s' : UserState} {e : UserEvent} {t : ThreadId} {call : Syscall} {pe : ProcEvent}

/-! ## The registers of a process -/

/-- `r'` are the registers after a system call that was made with the registers `r`. -/
structure Returned (r r' : Registers) : Prop where
  pc : r'.pc = r.nextPC
  nextPC : r'.nextPC = r.nextPC + 4#32
  gp : ∀ i, i ≠ 2 → r'.gp i = (r.delayedLoad 0 0#32).gp i
  hi : r'.hi = r.hi
  lo : r'.lo = r.lo

theorem returned_of_increasePC {r r' : Registers}
    (h : r' = r.raiseException 0#32 ∨ ∃ value, r' = (r.raiseException 0#32).writeResult value) :
    Returned r r'.increasePC := by
  rcases h with rfl | ⟨value, rfl⟩
  · exact ⟨rfl, rfl, fun _ _ => rfl, rfl, rfl⟩
  · exact ⟨rfl, rfl, fun i hi => Function.update_of_ne hi _ _, rfl, rfl⟩

/-- INTERNAL: a thread has an address space once it has left `StartProcess_2`; the page table
register points to that of the current thread; a thread inside a system call would find the
registers of the trap; and a thread that is not on the processor has saved what it left with.
SRCLINE: threads/scheduler.cc:90-135, threads/thread.cc:298-319 -/
structure RegInv (s : UserState) : Prop where
  spaced : ∀ t, (s.space t).isNull = true ↔ s.mode t = .starting
  installed : s.mode s.currentThread ≠ .starting → s.pageTable = some s.currentThread
  held : ∀ t call, s.mode t = .system call →
    (turnsOf s).view t = (s.trapped t).raiseException 0#32
  parked : ∀ t, t ≠ s.currentThread → s.mode t ≠ .starting →
    s.left t = (s.userRegisters t, some t)

theorem RegInv.isNull_eq_false (h : RegInv s) (ht : s.mode t ≠ .starting) :
    (s.space t).isNull = false :=
  Bool.eq_false_iff.mpr fun hnull => ht ((h.spaced t).mp hnull)

theorem RegInv.saves (h : RegInv s) (ht : s.mode t ≠ .starting) : savesRegisters s t = true := by
  unfold savesRegisters
  rw [h.isNull_eq_false ht]
  rfl

theorem RegInv.registers_eq (h : RegInv s) (hmode : s.mode s.currentThread = .system call) :
    s.registers = (s.trapped s.currentThread).raiseException 0#32 :=
  (view_currentThread s).symm.trans (h.held _ call hmode)

/-- INTERNAL: a step of the current thread that leaves the other threads alone. -/
theorem RegInv.atCurrent (h : RegInv s)
    (hcurrent : s'.currentThread = s.currentThread) (huser : s'.userRegisters = s.userRegisters)
    (hleft : s'.left = s.left) (htable : s'.pageTable = s.pageTable)
    (hspace : ∀ t, (s'.space t).isNull = (s.space t).isNull)
    (hmode : ∀ t, t ≠ s.currentThread → s'.mode t = s.mode t)
    (htrapped : ∀ t, t ≠ s.currentThread → s'.trapped t = s.trapped t)
    (hstarting : s'.mode s.currentThread = .starting ↔ s.mode s.currentThread = .starting)
    (hheld : ∀ call, s'.mode s.currentThread = .system call →
      s'.registers = (s'.trapped s.currentThread).raiseException 0#32) : RegInv s' := by
  have hstart : ∀ t, s'.mode t = .starting ↔ s.mode t = .starting := by
    intro t
    by_cases ht : t = s.currentThread
    · rw [ht]
      exact hstarting
    · rw [hmode t ht]
  have hturns : turnsOf s' = (turnsOf s).write s'.registers := by
    unfold turnsOf Turns.write
    rw [hcurrent, huser]
  constructor
  · intro t
    rw [hspace, hstart]
    exact h.spaced t
  · intro hc
    rw [hcurrent] at hc ⊢
    rw [htable]
    exact h.installed fun hs => hc (hstarting.mpr hs)
  · intro t call ht
    by_cases htc : t = s.currentThread
    · subst htc
      rw [← hheld call ht, ← hcurrent]
      exact view_currentThread s'
    · rw [hmode t htc] at ht
      rw [htrapped t htc, ← h.held t call ht, hturns]
      exact Turns.view_write htc _
  · intro t htc ht
    rw [hleft, huser]
    exact h.parked t (hcurrent ▸ htc) fun hs => ht ((hstart t).mpr hs)

/-- INTERNAL: **a change of threads.** Every process keeps its view of the registers.
SRCLINE: threads/scheduler.cc:90-135 -/
theorem RegInv.run (h : RegInv s) (next : ThreadId) : RegInv (s.schedulerRun next) := by
  have hturns := turnsOf_schedulerRun s next
  rw [schedulerRun_eq] at hturns ⊢
  constructor
  · exact h.spaced
  · intro hnext
    show (if (s.space next).isNull then s.pageTable else some next) = some next
    rw [h.isNull_eq_false hnext]
    rfl
  · intro t call ht
    have hsys : s.mode t ≠ .starting := by
      rw [show s.mode t = .system call from ht]
      exact fun h => by cases h
    rw [hturns, Turns.view_switch (h.saves hsys)]
    exact h.held t call ht
  · intro t htn ht
    have hsaved := Turns.saved_switch (h.saves ht) (turnsOf s) next
    rw [← hturns] at hsaved
    refine Eq.trans ?_ (congrArg (·, some t) hsaved.symm)
    show Function.update s.left s.currentThread (s.registers, s.pageTable) t = _
    by_cases htc : t = s.currentThread
    · subst htc
      rw [Function.update_self, view_currentThread, h.installed ht]
    · rw [Function.update_of_ne htc, view_of_other htc, h.parked t htc ht]

/-- INTERNAL: a new process sets the registers itself. -/
theorem RegInv.started (h : RegInv s) (space : AddrSpace) (b : BitMap) (mem : Memory) :
    RegInv (started s space b mem) := by
  have hother : ∀ t, t ≠ s.currentThread → (Analysis.started s space b mem).mode t = s.mode t :=
    fun t ht => Function.update_of_ne ht _ _
  constructor
  · intro t
    by_cases ht : t = s.currentThread
    · subst ht
      simp [Analysis.started, SpacePtr.isNull]
    · simpa [Analysis.started, ht] using h.spaced t
  · exact fun _ => rfl
  · intro t call ht
    by_cases htc : t = s.currentThread
    · subst htc
      simp [Analysis.started] at ht
    · rw [hother t htc] at ht
      have hview : (turnsOf (Analysis.started s space b mem)).view t = s.userRegisters t :=
        (view_of_other (s := Analysis.started s space b mem) htc).trans
          (Function.update_of_ne htc _ _)
      rw [hview, ← view_of_other htc]
      exact h.held t call ht
  · intro t htc ht
    rw [hother t htc] at ht
    refine (Function.update_of_ne htc _ _).trans ((h.parked t htc ht).trans ?_)
    exact congrArg (·, some t) (Function.update_of_ne htc _ _).symm

theorem RegInv.onTable (h : RegInv s) (hon : OnTable s pe s') : RegInv s' := by
  refine h.atCurrent hon.currentThread hon.userRegisters hon.left hon.pageTable hon.isNull
    (fun _ _ => by rw [hon.mode]) (fun _ _ => by rw [hon.trapped]) (by rw [hon.mode])
    fun call hcall => ?_
  rw [hon.mode] at hcall
  rw [hon.registers, hon.trapped]
  exact h.registers_eq hcall

theorem RegInv.back (h : RegInv s) (hmode : s.mode s.currentThread = .system call)
    (registers : Registers) (mem : Memory) :
    RegInv ({ s with registers := registers, mainMemory := mem }.return_) := by
  have huser : (UserState.return_ { s with registers := registers, mainMemory := mem }).mode
      s.currentThread = .user := Function.update_self _ _ _
  refine h.atCurrent rfl rfl rfl rfl (fun _ => rfl) (fun t ht => Function.update_of_ne ht _ _)
    (fun _ _ => rfl) ?_ fun call hcall => ?_
  · rw [huser, hmode]
    simp
  · rw [huser] at hcall
    cases hcall

/-- INTERNAL: **every step leaves every process its registers.**
SRCLINE: userprog/exception.cc:41-532, threads/pcb.cc:25-38, threads/scheduler.cc:90-135 -/
theorem RegInv.step (h : RegInv s) (hstep : UserStep s e s') : RegInv s' := by
  cases hstep with
  | run hready => exact h.run _
  | start hmode hstart =>
    obtain ⟨space, b, mem, r, -, -, rfl⟩ := startProcess2_eq_some.mp hstart
    exact h.started space b mem
  | instruction hmode =>
    refine h.atCurrent rfl rfl rfl rfl (fun _ => rfl) (fun _ _ => rfl) (fun _ _ => rfl) Iff.rfl
      fun call hcall => ?_
    rw [show s.mode s.currentThread = _ from hcall] at hmode
    cases hmode
  | @trap call hmode =>
    refine h.atCurrent rfl rfl rfl rfl (fun _ => rfl) (fun t ht => Function.update_of_ne ht _ _)
      (fun t ht => Function.update_of_ne ht _ _) ?_ fun _ _ => ?_
    · rw [hmode]
      simp
    · show _ = (Function.update s.trapped s.currentThread s.registers _).raiseException 0#32
      rw [Function.update_self]
  | back registers mem hmode hends hregisters => exact h.back hmode registers mem
  | stop mem hstatus =>
    exact h.atCurrent rfl rfl rfl rfl (fun _ => rfl) (fun _ _ => rfl) (fun _ _ => rfl) Iff.rfl
      fun call hcall => h.registers_eq hcall
  | table hmode hcall he htable =>
    obtain ⟨s₁, hon, ⟨rfl, -⟩ | ⟨value, rfl, -⟩⟩ := tableCall_cases htable
    · exact h.onTable hon
    · rw [← hon.mode, ← hon.currentThread] at hmode
      exact (h.onTable hon).back hmode _ s₁.mainMemory

theorem regInv_boot {words frames : ℕ → BitVec 32} {executable : Executable} {mem : Memory}
    {garbage : ThreadId → Registers} {s₀ : UserState}
    (h : UserState.boot words frames executable mem garbage = some s₀) : RegInv s₀ := by
  obtain ⟨p, -, b, -, space, b', mem', -, rfl⟩ := boot_eq_some.mp h
  constructor
  · intro t
    by_cases ht : t = 0 <;> simp [booted, ht, SpacePtr.isNull]
  · exact fun _ => rfl
  · intro t call ht
    by_cases ht0 : t = 0 <;> simp [booted, ht0] at ht
  · intro t ht0 ht
    exact absurd (if_neg ht0) ht

/-! ## What a process finds when it goes on -/

/-- The registers and the page table register with which the step lets a process go on: those a
system call leaves, or those with which the process had left the processor. -/
def RegistersKept (s : UserState) (e : UserEvent) : Prop :=
  ∀ s', s.step e = some s' →
    (∀ call, s.mode s.currentThread = .system call → s'.mode s.currentThread = .user →
      Returned (s.trapped s.currentThread) s'.registers ∧
        s'.pageTable = some s.currentThread) ∧
    (∀ next, e = .run next → s.mode next ≠ .starting →
      s'.left next = (s'.registers, s'.pageTable) ∧ s'.pageTable = some next)

/-- The address space of a process that goes on has not been deleted. -/
def SpaceKept (s : UserState) (e : UserEvent) : Prop :=
  ∀ s', s.step e = some s' →
    (∀ call, s.mode s.currentThread = .system call → s'.mode s.currentThread = .user →
      ∃ a, s'.space s.currentThread = .live a) ∧
    (∀ next, e = .run next → s.mode next ≠ .starting → ∃ a, s'.space next = .live a)

/-- INTERNAL: a step that brings the current thread back from a system call ends the handler. -/
theorem RegInv.returned (h : RegInv s) (hstep : UserStep s e s')
    (hmode : s.mode s.currentThread = .system call) (huser : s'.mode s.currentThread = .user) :
    Returned (s.trapped s.currentThread) s'.registers ∧ s'.pageTable = some s.currentThread := by
  have hregs := h.registers_eq hmode
  have hinstalled : s.pageTable = some s.currentThread :=
    h.installed (by rw [hmode]; exact fun h => by cases h)
  cases hstep with
  | run hready =>
    rw [schedulerRun_eq] at huser
    rw [show s.mode s.currentThread = _ from huser] at hmode
    cases hmode
  | start hstarting hstart =>
    rw [hstarting] at hmode
    cases hmode
  | instruction hu =>
    rw [hu] at hmode
    cases hmode
  | trap hu =>
    rw [hu] at hmode
    cases hmode
  | back registers mem _ hends hregisters =>
    refine ⟨returned_of_increasePC ?_, hinstalled⟩
    rw [← hregs]
    exact hregisters
  | stop mem hstatus =>
    rw [show s.mode s.currentThread = _ from huser] at hmode
    cases hmode
  | table _ hcall he htable =>
    obtain ⟨s₁, hon, ⟨rfl, -⟩ | ⟨value, rfl, -⟩⟩ := tableCall_cases htable
    · rw [hon.mode, hmode] at huser
      cases huser
    · refine ⟨returned_of_increasePC (Or.inr ⟨value, ?_⟩), hon.pageTable.trans hinstalled⟩
      rw [← hregs, ← hon.registers]

theorem run_cases {next : ThreadId} (h : s.step (.run next) = some s') :
    s.ready next = true ∧ s' = s.schedulerRun next := by
  simp only [UserState.step, Option.ite_none_right_eq_some, Option.some.injEq] at h
  exact ⟨h.2.1, h.2.2.symm⟩

/-- INTERNAL: a process that gets the processor back finds what it had left. -/
theorem RegInv.resumed (h : RegInv s) {next : ThreadId} (hnext : s.mode next ≠ .starting) :
    (s.schedulerRun next).left next =
        ((s.schedulerRun next).registers, (s.schedulerRun next).pageTable) ∧
      (s.schedulerRun next).pageTable = some next := by
  have hregs : (s.schedulerRun next).registers = (turnsOf s).view next := by
    have hcurrent : (s.schedulerRun next).currentThread = next := by rw [schedulerRun_eq]
    have hview := view_currentThread (s.schedulerRun next)
    rw [hcurrent, turnsOf_schedulerRun, Turns.view_switch (h.saves hnext)] at hview
    exact hview.symm
  have htable : (s.schedulerRun next).pageTable = some next := by
    rw [schedulerRun_eq]
    show (if (s.space next).isNull then s.pageTable else some next) = some next
    rw [h.isNull_eq_false hnext]
    rfl
  refine ⟨?_, htable⟩
  rw [hregs, htable, schedulerRun_eq]
  show Function.update s.left s.currentThread (s.registers, s.pageTable) next = _
  by_cases hc : next = s.currentThread
  · subst hc
    rw [Function.update_self, view_currentThread, h.installed hnext]
  · rw [Function.update_of_ne hc, view_of_other hc, h.parked next hc hnext]

theorem RegInv.registersKept (h : RegInv s) (e : UserEvent) : RegistersKept s e := by
  intro s' hstep
  refine ⟨fun call hmode huser => h.returned (userStep_of_step hstep) hmode huser, ?_⟩
  rintro next rfl hnext
  obtain ⟨-, rfl⟩ := run_cases hstep
  exact h.resumed hnext

/-! ## Processes inside the process table -/

/-- INTERNAL: a thread is inside a function of the process table only during the system calls that
end there.
SRCLINE: userprog/exception.cc:353-403 -/
def PcInv (s : UserState) : Prop :=
  ∀ t thr, s.threads t = some thr → thr.pc ≠ .user →
    ∃ call, s.mode t = .system call ∧ ∀ end_, call.ends end_ = false

theorem PcInv.atUser (h : PcInv s) (hthreads : s'.threads = s.threads)
    (hmode : ∀ t, t ≠ s.currentThread → s'.mode t = s.mode t)
    (hpc : ∀ thr, s.threads s.currentThread = some thr → thr.pc = .user) : PcInv s' := by
  intro t thr hthr hne
  rw [hthreads] at hthr
  by_cases ht : t = s.currentThread
  · exact absurd (hpc thr (ht ▸ hthr)) hne
  · rw [hmode t ht]
    exact h t thr hthr hne

theorem PcInv.pc_eq (h : PcInv s)
    (hmode : ∀ call, s.mode t = .system call → ∃ end_, call.ends end_ = true) (thr : Thread)
    (hthr : s.threads t = some thr) : thr.pc = .user := by
  by_contra hne
  obtain ⟨call, hcall, hends⟩ := h t thr hthr hne
  obtain ⟨end_, hend⟩ := hmode call hcall
  rw [hends] at hend
  cases hend

theorem PcInv.pc_of_ends (h : PcInv s) (hmode : s.mode t = .system call)
    (hends : (∃ end_, call.ends end_ = true) ∨ (s.threads t).map Thread.pc = some .user)
    (thr : Thread) (hthr : s.threads t = some thr) : thr.pc = .user := by
  rcases hends with hends | hpc
  · refine h.pc_eq (fun call' hcall' => ?_) thr hthr
    rw [hmode] at hcall'
    cases hcall'
    exact hends
  · rw [hthr] at hpc
    exact Option.some.inj hpc

theorem pc_ne_user_of_resume {s p : ProcState} {garbage : ℤ}
    (h : s.step (.resume t garbage) = some p) : ∃ thr, s.threads t = some thr ∧ thr.pc ≠ .user := by
  obtain ⟨-, thr, r, hthr, hact, -⟩ := procStep_cases h
  refine ⟨thr, hthr, fun hpc => ?_⟩
  simp [ProcState.act, hpc, ProcState.resume] at hact

theorem PcInv.onTable (h : PcInv s) (hT : TableInv (viewOf s.toProcTable))
    (he : tableEvent s e = some pe) (hmode : s.mode s.currentThread = .system call)
    (hcall : (∀ end_, call.ends end_ = false) ∨ ∃ garbage, e = .resume garbage)
    (hon : OnTable s pe s') : PcInv s' := by
  intro t thr hthr hne
  rw [hon.mode]
  rcases hon.viewStep.threads_cases hT t with heq | ⟨ht, -⟩ | ⟨-, name, hnew⟩
  · exact h t thr (heq.symm.trans hthr) hne
  · rw [thread_of_tableEvent he] at ht
    subst ht
    rcases hcall with hends | ⟨garbage, rfl⟩
    · exact ⟨call, hmode, hends⟩
    · cases he
      obtain ⟨p, hp, -⟩ := hon.table
      obtain ⟨thr₀, hthr₀, hne₀⟩ := pc_ne_user_of_resume hp
      exact h _ thr₀ hthr₀ hne₀
  · obtain rfl : thr = ⟨name, .user⟩ := Option.some.inj (hthr.symm.trans hnew)
    exact absurd rfl hne

theorem PcInv.step (hT : TableInv (viewOf s.toProcTable)) (h : PcInv s) (hstep : UserStep s e s') :
    PcInv s' := by
  have hplain : ∀ {mode}, s.mode s.currentThread = mode → (∀ call, mode ≠ .system call) →
      ∀ thr, s.threads s.currentThread = some thr → thr.pc = .user :=
    fun hmode hne => h.pc_eq fun call hcall => absurd (hmode.symm.trans hcall) (hne call)
  cases hstep with
  | run hready =>
    rw [schedulerRun_eq]
    exact h
  | start hmode hstart =>
    obtain ⟨space, b, mem, r, -, -, rfl⟩ := startProcess2_eq_some.mp hstart
    exact PcInv.atUser h rfl (fun t ht => Function.update_of_ne ht _ _)
      (hplain hmode fun _ h => by cases h)
  | instruction hmode => exact h
  | trap hmode =>
    exact PcInv.atUser h rfl (fun t ht => Function.update_of_ne ht _ _)
      (hplain hmode fun _ h => by cases h)
  | back registers mem hmode hends hregisters =>
    exact PcInv.atUser h rfl (fun t ht => Function.update_of_ne ht _ _) (h.pc_of_ends hmode hends)
  | stop mem hstatus => exact h
  | table hmode hcall he htable =>
    obtain ⟨s₁, hon, ⟨rfl, -⟩ | ⟨value, rfl, -, hpc⟩⟩ := tableCall_cases htable
    · exact h.onTable hT he hmode hcall hon
    · refine (h.onTable hT he hmode hcall hon).atUser rfl
        (fun t ht => Function.update_of_ne ht _ _) fun thr hthr => ?_
      rw [hthr] at hpc
      exact Option.some.inj hpc

/-! ## Address spaces that are still there -/

/-- INTERNAL: while the machine runs, every process that has started and not finished has its
address space.
SRCLINE: threads/pcb.cc:18-38 -/
def LiveInv (s : UserState) : Prop :=
  s.status = .running → ∀ t thr, s.threads t = some thr → thr.pc ≠ .finished →
    s.mode t ≠ .starting → ∃ a, s.space t = .live a

theorem ne_finished_of_procStep {s p : ProcState} {e : ProcEvent} (h : s.step e = some p) :
    ∃ thr, s.threads e.thread = some thr ∧ thr.pc ≠ .finished := by
  obtain ⟨-, thr, r, hthr, hact, -⟩ := procStep_cases h
  refine ⟨thr, hthr, fun hfin => ?_⟩
  cases e <;> simp [ProcState.act, hfin, ProcState.resume] at hact

/-- INTERNAL: **the only address space that is deleted is that of a process that leaves**, as long
as it finds its own `PCB`.
SRCLINE: threads/ptable.cc:83, 115-121, threads/pcb.cc:18-23 -/
theorem destroyedThread_eq {s : ProcState} {e : ProcEvent} {u : ThreadId}
    (hT : TableInv (viewOf s.toProcTable)) (hO : OwnInv (viewOf s.toProcTable))
    (h : UserState.destroyedThread s e = some u) :
    ∃ self pid garbage, e = .resume u garbage ∧ s.threads u = some ⟨self, .exitRemove pid⟩ := by
  cases e with
  | resume t garbage =>
    unfold UserState.destroyedThread at h
    cases hthr : s.threads t with
    | none => simp [hthr] at h
    | some thr =>
      obtain ⟨self, pc⟩ := thr
      cases pc <;> simp only [hthr, Option.map_some, reduceCtorEq] at h
      case execFail pid => exact absurd rfl (hT.noFail t _ pid hthr)
      case exitRemove pid =>
        obtain ⟨i, -, -, hslot, hat⟩ := hO.leaving hthr
        obtain ⟨k, hk, hthread⟩ := hO.thread_of_leaving hT hthr (fun h => h) hslot
        obtain ⟨c, hc, rfl⟩ := exists_heap_of_ident hk
        rw [pcbAt_viewOf] at hat
        rw [ProcTable.deref, hat, Option.bind_some, hc, Option.bind_some,
          show c.thread = some t from hthread, Option.some.injEq] at h
        subst h
        exact ⟨self, pid, garbage, rfl, hthr⟩
  | _ => cases h

/-- INTERNAL: a process that leaves is finished. -/
theorem finished_of_exitRemove {s p : ProcState} {self : String} {pid garbage : ℤ}
    (hat : s.threads t = some ⟨self, .exitRemove pid⟩) (h : s.step (.resume t garbage) = some p)
    (hrunning : p.status = .running) {thr : Thread} (hthr : p.threads t = some thr) :
    thr.pc = .finished := by
  obtain ⟨-, thr', r, hthr', hact, rfl⟩ := procStep_cases h
  obtain rfl : thr' = ⟨self, .exitRemove pid⟩ := Option.some.inj (hthr'.symm.trans hat)
  obtain rfl := Option.some.inj hact
  cases hr : s.exitRemove t pid with
  | none =>
    rw [hr] at hrunning
    cases hrunning
  | some p' =>
    rw [hr, Option.getD_some] at hthr
    simp only [ProcState.exitRemove, Option.bind_eq_bind, Option.bind_eq_some_iff, Option.pure_def,
      Option.some.injEq] at hr
    obtain ⟨table, hremove, rfl⟩ := hr
    have hkept : table.threads t = s.threads t := by
      unfold ProcTable.remove at hremove
      split at hremove
      · cases hremove
        rfl
      · simp only [Option.bind_eq_bind, Option.bind_eq_some_iff, Option.pure_def,
          Option.some.injEq] at hremove
        obtain ⟨-, -, bm, -, rfl⟩ := hremove
        rfl
    have hpc := pc_setPc (hkept.trans hat) .finished
    rw [show (table.setPc t .finished).threads t = some thr from hthr, Option.map_some,
      Option.some.injEq] at hpc
    exact hpc

theorem OnTable.unfinished (h : OnTable s pe s') (hT : TableInv (viewOf s.toProcTable))
    {thr : Thread} (hthr : s'.threads t = some thr) (hfin : thr.pc ≠ .finished) :
    s.threads t = none ∨ ∃ thr₀, s.threads t = some thr₀ ∧ thr₀.pc ≠ .finished := by
  rcases h.viewStep.threads_cases hT t with heq | ⟨rfl, -⟩ | ⟨hnone, -⟩
  · exact Or.inr ⟨thr, heq.symm.trans hthr, hfin⟩
  · obtain ⟨p, hp, -⟩ := h.table
    exact Or.inr (ne_finished_of_procStep hp)
  · exact Or.inl hnone

/-- INTERNAL: **a step of the process table leaves every process that goes on its address space**,
as long as a process that leaves finds its own `PCB`.
SRCLINE: threads/ptable.cc:68-121 -/
theorem LiveInv.onTable (hK : KernelInv s) (hO : OwnInv (viewOf s.toProcTable)) (h : LiveInv s)
    (hon : OnTable s pe s') : LiveInv s' := by
  intro hrunning t thr hthr hfin hmode
  obtain ⟨p, hp, htable, hp_running⟩ := hon.table
  have hs : s.status = .running := (procStep_cases hp).1
  rw [hon.mode] at hmode
  have hlive : ∃ a, s.space t = .live a := by
    rcases hon.unfinished hK.table hthr hfin with hnone | ⟨thr₀, hthr₀, hfin₀⟩
    · obtain ⟨thr₀, hthr₀⟩ := hK.born t hmode
      rw [hnone] at hthr₀
      cases hthr₀
    · exact h hs t thr₀ hthr₀ hfin₀ hmode
  rcases hon.space t with heq | ⟨hdestroyed, -, -⟩
  · rwa [heq]
  · -- the thread whose space goes is the one that has just finished
    obtain ⟨self, pid, garbage, rfl, hat⟩ := destroyedThread_eq hK.table hO hdestroyed
    have hthr' : p.threads t = some thr := by rw [← htable]; exact hthr
    exact absurd (finished_of_exitRemove hat hp (hp_running hrunning) hthr') hfin

theorem LiveInv.atCurrent (h : LiveInv s) (hstatus : s'.status = s.status)
    (hthreads : s'.threads = s.threads) (hspace : s'.space = s.space)
    (hmode : ∀ t, t ≠ s.currentThread → s'.mode t = s.mode t)
    (hstarted : s.mode s.currentThread ≠ .starting) : LiveInv s' := by
  intro hrunning t thr hthr hfin ht
  rw [hspace]
  refine h (hstatus ▸ hrunning) t thr (hthreads ▸ hthr) hfin ?_
  by_cases htc : t = s.currentThread
  · rwa [htc]
  · rwa [← hmode t htc]

/-- INTERNAL: the step leaves every process that goes on its address space. -/
theorem LiveInv.step (hK : KernelInv s) (hO : OwnInv (viewOf s.toProcTable)) (h : LiveInv s)
    (hstep : UserStep s e s') : LiveInv s' := by
  cases hstep with
  | run hready =>
    rw [schedulerRun_eq]
    exact h
  | start hmode hstart =>
    obtain ⟨space, b, mem, r, -, -, rfl⟩ := startProcess2_eq_some.mp hstart
    intro hrunning t thr hthr hfin hmode'
    by_cases ht : t = s.currentThread
    · exact ⟨space, by rw [ht]; exact Function.update_self _ _ _⟩
    · obtain ⟨a, ha⟩ := h hrunning t thr hthr hfin
        (by rwa [show (started s space b mem).mode t = s.mode t from
          Function.update_of_ne ht _ _] at hmode')
      exact ⟨a, (Function.update_of_ne ht _ _).trans ha⟩
  | instruction hmode => exact h
  | trap hmode =>
    exact LiveInv.atCurrent h rfl rfl rfl (fun t ht => Function.update_of_ne ht _ _)
      (by rw [hmode]; exact fun h => by cases h)
  | back registers mem hmode hends hregisters =>
    exact LiveInv.atCurrent h rfl rfl rfl (fun t ht => Function.update_of_ne ht _ _)
      (by rw [hmode]; exact fun h => by cases h)
  | stop mem hstatus => exact fun hrunning => absurd hrunning hstatus
  | table hmode hcall he htable =>
    obtain ⟨s₁, hon, ⟨rfl, -⟩ | ⟨value, rfl, -⟩⟩ := tableCall_cases htable
    · exact LiveInv.onTable hK hO h hon
    · rw [← hon.mode, ← hon.currentThread] at hmode
      exact LiveInv.atCurrent (LiveInv.onTable hK hO h hon) rfl rfl rfl
        (fun t ht => Function.update_of_ne ht _ _) (by rw [hmode]; exact fun h => by cases h)

theorem processInv_boot {words frames : ℕ → BitVec 32} {executable : Executable} {mem : Memory}
    {garbage : ThreadId → Registers} {s₀ : UserState}
    (h : UserState.boot words frames executable mem garbage = some s₀) :
    OwnInv (viewOf s₀.toProcTable) ∧ PcInv s₀ ∧ LiveInv s₀ := by
  obtain ⟨p, hp, b, -, space, b', mem', -, rfl⟩ := boot_eq_some.mp h
  obtain ⟨-, -, hthreads, -⟩ := boot_spec hp
  refine ⟨ownInv_boot hp, fun t thr hthr hne => ?_, fun _ t thr _ _ ht => ⟨space, if_pos ?_⟩⟩
  · replace hthr := (congrFun hthreads t).symm.trans hthr
    simp only [Option.ite_none_right_eq_some, Option.some.injEq] at hthr
    rw [← hthr.2] at hne
    exact absurd rfl hne
  · by_contra ht0
    exact ht (if_neg ht0)

/-- Every search of the process table finds the process that searches, because its name is new and
no `PCB` is half filled. -/
def FindsItself (s : UserState) (e : UserEvent) : Prop :=
  ∀ pe, tableEvent s e = some pe →
    NewName s.toProcTable pe ∧ NoScanDuringPcbExec s.toProcTable pe

theorem OwnInv.userStep (hT : TableInv (viewOf s.toProcTable)) (h : OwnInv (viewOf s.toProcTable))
    (hstep : UserStep s e s') (hcond : FindsItself s e) : OwnInv (viewOf s'.toProcTable) := by
  rcases hstep.viewStep with heq | ⟨pe, he, hview⟩
  · rwa [heq]
  · obtain ⟨hname, hscan⟩ := hcond pe he
    exact h.step hT hview (pidsStored_of_noScan hscan) hname

/-- INTERNAL: a process that comes back from a system call is out of the process table. -/
theorem PcInv.returned (hK : KernelInv s) (h : PcInv s) (hrunning : s.status = .running)
    (hstep : UserStep s e s') (hmode : s.mode s.currentThread = .system call)
    (huser : s'.mode s.currentThread = .user) :
    s'.status = .running ∧ ∃ thr, s'.threads s.currentThread = some thr ∧ thr.pc = .user := by
  obtain ⟨thr, hthr⟩ := hK.current
  cases hstep with
  | run hready =>
    rw [schedulerRun_eq] at huser
    rw [show s.mode s.currentThread = _ from huser] at hmode
    cases hmode
  | start hstarting hstart =>
    rw [hstarting] at hmode
    cases hmode
  | instruction hu =>
    rw [hu] at hmode
    cases hmode
  | trap hu =>
    rw [hu] at hmode
    cases hmode
  | back registers mem hmode hends hregisters =>
    exact ⟨hrunning, thr, hthr, h.pc_of_ends hmode hends thr hthr⟩
  | stop mem hstatus =>
    rw [show s.mode s.currentThread = _ from huser] at hmode
    cases hmode
  | table _ hcall he htable =>
    obtain ⟨s₁, hon, ⟨rfl, -⟩ | ⟨value, rfl, hrunning₁, hpc⟩⟩ := tableCall_cases htable
    · rw [hon.mode, hmode] at huser
      cases huser
    · rw [hon.currentThread] at hpc
      obtain ⟨thr', hthr', hpc'⟩ := Option.map_eq_some_iff.mp hpc
      exact ⟨hrunning₁, thr', hthr', hpc'⟩

theorem running_of_step (h : s.step e = some s') : s.status = .running := by
  simp only [UserState.step, Option.ite_none_right_eq_some] at h
  exact h.1

theorem LiveInv.spaceKept (hK : KernelInv s) (hpcs : PcInv s) (h : LiveInv s)
    (hstep : s.step e = some s') (h' : LiveInv s') : SpaceKept s e := by
  intro s'' hs''
  obtain rfl : s' = s'' := Option.some.inj (hstep.symm.trans hs'')
  have hrunning := running_of_step hstep
  constructor
  · intro call hmode huser
    obtain ⟨hrunning', thr, hthr, hpc⟩ :=
      hpcs.returned hK hrunning (userStep_of_step hstep) hmode huser
    exact h' hrunning' _ thr hthr (by rw [hpc]; exact fun h => by cases h)
      (by rw [huser]; exact fun h => by cases h)
  · rintro next rfl hnext
    obtain ⟨hready, rfl⟩ := run_cases hstep
    obtain ⟨thr, hthr, hfin⟩ := exists_of_ready hready
    rw [schedulerRun_eq]
    exact h hrunning next thr hthr hfin hnext

/-- SOURCE: userprog/exception.cc:35-532, threads/scheduler.cc:90-135, threads/pcb.cc:18-38,
threads/thread.cc:298-319 — from the start of the first program and in every interleaving, a
process comes back from a system call past the call, with its registers but the result, and from
another thread with the registers and the page table it had left. While every search of the
process table finds the process that searches, its address space is there as well. -/
theorem process_resumes_as_it_left {words frames : ℕ → BitVec 32} {executable : Executable}
    {mem : Memory} {garbage : ThreadId → Registers} {s₀ : UserState}
    (hboot : UserState.boot words frames executable mem garbage = some s₀) (es : List UserEvent) :
    Meets UserState.step RegistersKept s₀ es ∧
      (Meets UserState.step FindsItself s₀ es → Meets UserState.step SpaceKept s₀ es) := by
  constructor
  · refine meets_of_meets (I := RegInv) (fun s e s' h _ _ => h.registersKept e)
      (fun s e s' h _ hstep => h.step (userStep_of_step hstep)) (regInv_boot hboot)
      (meets_of_forall (fun _ _ _ => trivial) s₀)
  · intro hes
    have hkeep : ∀ s e s', KernelInv s ∧ OwnInv (viewOf s.toProcTable) ∧ PcInv s ∧ LiveInv s →
        FindsItself s e → s.step e = some s' →
        KernelInv s' ∧ OwnInv (viewOf s'.toProcTable) ∧ PcInv s' ∧ LiveInv s' := by
      rintro s e s' ⟨hK, hO, hpcs, hlive⟩ hcond hstep
      have hs' := userStep_of_step hstep
      exact ⟨hK.step hstep, hO.userStep hK.table hs' hcond, hpcs.step hK.table hs',
        LiveInv.step hK hO hlive hs'⟩
    refine meets_of_meets ?_ hkeep ⟨kernelInv_boot hboot, processInv_boot hboot⟩ hes
    intro s e s' hinv hcond hstep
    obtain ⟨-, -, -, hlive'⟩ := hkeep s e s' hinv hcond hstep
    exact LiveInv.spaceKept hinv.1 hinv.2.2.1 hinv.2.2.2 hstep hlive'

/-- The current thread makes the system call `type` with the argument `arg`. -/
def calls (type arg : BitVec 32) : List UserEvent :=
  [.oneInstruction (callRegisters type arg) (fun _ => 0#8), .syscall]

/-- What `FindsItself` asks, looked up for the threads and `PCB`s there are. -/
def searchesAlone (s : UserState) (e : UserEvent) : Bool :=
  match tableEvent s e with
  | none => true
  | some pe => (List.range s.next).all fun u =>
    (u == pe.thread || !((s.threads u).any fun thr => (window thr.pc).isSome)) &&
      match (s.threads pe.thread).map Thread.pc with
      | some (.execScan (some name) _) => s.getFileName u != some name
      | _ => true

theorem findsItself_of_searchesAlone (hT : TableInv (viewOf s.toProcTable))
    (h : searchesAlone s e = true) : FindsItself s e := by
  intro pe hpe
  simp only [searchesAlone, hpe, List.all_eq_true, List.mem_range, Bool.and_eq_true] at h
  constructor
  · cases pe with
    | resume t garbage =>
      intro thr name opens hthr hpc i ptr hi
      have hname := (h ptr (hT.slot i ptr hi).1).2
      simp only [ProcEvent.thread, hthr, Option.map_some, hpc, bne_iff_ne] at hname
      exact hname
    | exec => trivial
    | join => trivial
    | exit => trivial
  · rintro - u hu ⟨thr, hthr, hwindow⟩
    have hlt : u < s.next := by
      by_contra hge
      have hnone : s.threads u = none := hT.fresh u (not_lt.mp hge)
      rw [hnone] at hthr
      cases hthr
    simpa [hu, hthr, hwindow] using (h u hlt).1

/-- The boot process executes `A` and the child starts. The child exits, the boot process joins it,
and the child leaves. -/
def joinedChild : List UserEvent :=
  undisturbedExec "A" ++ [.run 1, .startProcess2 (some smallImage) ⟨[]⟩] ++ calls 14#32 5#32 ++
    [.exit, .resume 0, .run 0] ++ calls 16#32 1#32 ++
    [.join, .resume 0, .resume 0, .run 1, .resume 0, .resume 0, .run 0]

/-- SOURCE: userprog/exception.cc:41-492, threads/ptable.cc:20-121 — two processes make the calls
`Exec`, `Exit` and `Join` and get the processor back from each other. -/
theorem process_resumes_as_it_left_joined_child :
    ∃ s₀, UserState.boot (fun _ => 0#32) (fun _ => 0#32) emptyImage (fun _ => 0#8)
        (fun _ => callRegisters 0#32 0#32) = some s₀ ∧
      (∃ s, run UserState.step s₀ joinedChild = some s) ∧
      Meets UserState.step RegistersKept s₀ joinedChild ∧
      Meets UserState.step SpaceKept s₀ joinedChild := by
  obtain ⟨p, hp⟩ : ∃ p, ProcState.boot (fun _ => 0#32) = some p := ⟨_, rfl⟩
  obtain ⟨space, b, mem, -, -, hboot⟩ := exists_boot hp (fun _ => 0#32) (fun _ => 0#8)
    (fun _ => callRegisters 0#32 0#32)
  have hcheck : (UserState.boot (fun _ => 0#32) (fun _ => 0#32) emptyImage (fun _ => 0#8)
      (fun _ => callRegisters 0#32 0#32)).map (fun s₀ =>
        ((run UserState.step s₀ joinedChild).isSome,
          decide (Meets UserState.step (fun s e => searchesAlone s e = true) s₀ joinedChild))) =
      some (true, true) := by decide +kernel
  rw [hboot, Option.map_some, Option.some.injEq, Prod.mk.injEq, decide_eq_true_eq] at hcheck
  obtain ⟨hregisters, hspace⟩ := process_resumes_as_it_left hboot joinedChild
  refine ⟨_, hboot, Option.isSome_iff_exists.mp hcheck.1, hregisters, hspace ?_⟩
  refine meets_of_meets (I := KernelInv) ?_ ?_ (kernelInv_boot hboot) hcheck.2
  · intro s e s' hinv halone _
    exact findsItself_of_searchesAlone hinv.table halone
  · intro s e s' hinv _ hstep
    exact hinv.step hstep

/-- The boot process executes `A` twice and both children start. The first child exits, the boot
process joins child 2, and the first child leaves. -/
def twinsExit : List UserEvent :=
  undisturbedExec "A" ++ undisturbedExec "A" ++
    [.run 1, .startProcess2 (some emptyImage) ⟨[]⟩, .run 2, .startProcess2 (some emptyImage) ⟨[]⟩,
      .run 1] ++ calls 14#32 5#32 ++ [.exit, .resume 0, .run 0] ++ calls 16#32 2#32 ++
    [.join, .resume 0, .resume 0, .run 1, .resume 0, .resume 0]

/-- SOURCE: threads/ptable.cc:68-86, 115-121, threads/pcb.cc:18-23 — two children have the name
`A`. The first one exits and deletes the address space of the second one, which goes on. -/
theorem second_twin_resumes_without_space :
    ∃ s₀, UserState.boot (fun _ => 0#32) (fun _ => 0#32) emptyImage (fun _ => 0#8)
        (fun _ => callRegisters 0#32 0#32) = some s₀ ∧
      ¬ Meets UserState.step SpaceKept s₀ (twinsExit ++ [.run 2]) := by
  have hrun : ((UserState.boot (fun _ => 0#32) (fun _ => 0#32) emptyImage (fun _ => 0#8)
      (fun _ => callRegisters 0#32 0#32)).bind fun s₀ => run UserState.step s₀ twinsExit).map
        (fun s => (s.mode 2, s.ready 2, decide (s.status = .running),
          match s.space 2 with | .deleted => true | _ => false)) =
      some (.user, true, true, true) := by decide +kernel
  obtain ⟨s, hs, hlast⟩ := Option.map_eq_some_iff.mp hrun
  obtain ⟨s₀, hboot, hs⟩ := Option.bind_eq_some_iff.mp hs
  simp only [Prod.mk.injEq, decide_eq_true_eq] at hlast
  obtain ⟨hmode, hready, hrunning, hdeleted⟩ := hlast
  have hstep : s.step (.run 2) = some (s.schedulerRun 2) := by
    simp only [UserState.step, hrunning, hready, if_true]
  refine ⟨s₀, hboot, fun h => ?_⟩
  obtain ⟨a, ha⟩ := (((h.of_append hs).2 _ hstep).1 _ hstep).2 2 rfl
    (by rw [hmode]; exact fun h => by cases h)
  rw [schedulerRun_eq] at ha
  rw [show s.space 2 = .live a from ha] at hdeleted
  cases hdeleted

end Nachos.Analysis
