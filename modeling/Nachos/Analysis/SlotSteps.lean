import Nachos.Analysis.PcbInitialisation

/-!
# What a step does to the slots

A slot in use is recorded three times: by its bit, by its pointer and by the `pid` of its `PCB`.
`Remove` takes back the first two together. `ExecUpdate` sets the bit and the pointer between two
places where it can lose the processor, unless it returns after `Find` because its search has not
found the caller; the `pid` follows while the caller still holds `bmsem`.

`BookStep` lists what a step does to the slots, to `bmsem` and to the place of the thread, for any
outcome of the searches of `JoinUpdate` and `ExitUpdate`. `BookInv` is kept by each of these: one
thread at most is between `bmsem->P()` and `bmsem->V()`, and bits and pointers are in step.
-/

set_option autoImplicit false

namespace Nachos.Analysis

open Nachos.Library Nachos.Model

variable {t u : ThreadId} {v v' : TableView} {s s' : ProcState} {thr : Thread} {sem : BitVec 32}
  {pid ptr : ℕ} {pc : Pc} {self : String} {garbage : ℤ} {scan : Option (Option ℕ)} {opens : Bool}

/-! ## Places in `ExecUpdate` and `ExitUpdate` -/

/-- Between the end of `bmsem->P()` and `bmsem->V()`. -/
def holdsBmsem : Pc → Bool
  | .execScan _ _ | .execMutex _ _ _ | .execFork _ _ _ | .execStore _ _ | .execFail _
  | .execRelease _ => true
  | _ => false

/-- The slot number that an `ExecUpdate` has got and is going to return. -/
def grantedPid : Pc → Option ℤ
  | .execMutex _ pid _ => some pid
  | .execFork _ pid _ => some pid
  | .execStore pid _ => some pid
  | .execRelease pid => some pid
  | .execReturn result => if result = -1 then none else some result
  | _ => none

/-- The slot number that an `ExitUpdate` is going to remove. -/
def exitPid : Pc → Option ℤ
  | .exitWait _ pid => some pid
  | .exitP pid _ => some pid
  | .exitRemove pid => some pid
  | _ => none

/-- Thread `u` holds `bmsem`. -/
def Holder (v : TableView) (u : ThreadId) : Prop :=
  ∃ thr, v.threads u = some thr ∧ holdsBmsem thr.pc = true

theorem holdsBmsem_of_window (h : window pc ≠ none) : holdsBmsem pc = true := by
  cases pc <;> first | rfl | exact absurd rfl h

theorem Filling.holder {forked : Bool} (h : Filling v u pid ptr forked) : Holder v u := by
  obtain ⟨thr, hat, hw⟩ := h
  exact ⟨thr, hat, holdsBmsem_of_window (by rw [hw]; simp)⟩

theorem holder_setPc (hat : v.threads t = some thr) :
    Holder (v.setPc t pc) u ↔ (u = t ∧ holdsBmsem pc = true) ∨ (u ≠ t ∧ Holder v u) := by
  unfold Holder
  rw [TableView.threads_setPc hat]
  by_cases hu : u = t
  · subst hu
    simp
  · simp [hu]

theorem holder_setPc_of_same (hat : v.threads t = some thr)
    (hsame : holdsBmsem pc = holdsBmsem thr.pc) : Holder (v.setPc t pc) u ↔ Holder v u := by
  rw [holder_setPc hat, hsame]
  constructor
  · rintro (⟨rfl, hheld⟩ | ⟨-, hheld⟩)
    · exact ⟨thr, hat, hheld⟩
    · exact hheld
  · intro hheld
    by_cases hu : u = t
    · subst hu
      obtain ⟨thr', hat', hpc⟩ := hheld
      rw [hat, Option.some.injEq] at hat'
      exact Or.inl ⟨rfl, hat' ▸ hpc⟩
    · exact Or.inr ⟨hu, hheld⟩

/-! ## What a step does -/

/-- Semaphores of `PCB`s, exit codes and histories apart, the two tables are the same. -/
structure SameSlots (v w : TableView) : Prop where
  pcb : w.pcb = v.pcb
  ident : w.ident = v.ident
  bm : w.bm = v.bm
  next : w.next = v.next
  threads : w.threads = v.threads

theorem sameSlots_self (v : TableView) : SameSlots v v := ⟨rfl, rfl, rfl, rfl, rfl⟩

theorem SameSlots.trans {u v w : TableView} (h : SameSlots v w) (h' : SameSlots u v) :
    SameSlots u w :=
  ⟨h.pcb.trans h'.pcb, h.ident.trans h'.ident, h.bm.trans h'.bm, h.next.trans h'.next,
    h.threads.trans h'.threads⟩

theorem sameSlots_setSem (v : TableView) (ptr : ℕ) (x : PCBSem) (w : BitVec 32) :
    SameSlots v (v.setSem ptr x w) := by
  cases x <;> exact ⟨rfl, rfl, rfl, rfl, rfl⟩

/-- INTERNAL: the ways in which one step of thread `t` changes the slots, the threads and the value
of `bmsem`, when no `Exec` returns between `Find` and the new `PCB`.
SRCLINE: threads/ptable.cc:20-121, threads/pcb.cc:40-59 -/
inductive BookStep (v : TableView) (sem : BitVec 32) (t : ThreadId) : TableView → BitVec 32 → Prop
  | refuse : BookStep v sem t v sem
  | move {w : TableView} {thr : Thread} {pc : Pc} (hat : v.threads t = some thr)
      (hsame : SameSlots v w) (hwin : window pc = window thr.pc)
      (hheld : holdsBmsem pc = holdsBmsem thr.pc) (hfail : ∀ pid, pc ≠ .execFail pid)
      (hgrant : ∀ pid, grantedPid pc = some pid → grantedPid thr.pc = some pid)
      (hexit : ∀ pid, exitPid pc = some pid → exitPid thr.pc = some pid ∨ pid ≠ 0) :
      BookStep v sem t (w.setPc t pc) sem
  | enter {thr : Thread} {name : Option String} {opens : Bool} (hat : v.threads t = some thr)
      (hout : Plain thr.pc) (hheld : holdsBmsem thr.pc = false) (hsem : sem ≠ 0#32) :
      BookStep v sem t (v.setPc t (.execScan name opens)) (sem - 1#32)
  | release {thr : Thread} {result : ℤ} (hat : v.threads t = some thr)
      (hin : Plain thr.pc) (hheld : holdsBmsem thr.pc = true)
      (hresult : result = -1 ∨ grantedPid thr.pc = some result) :
      BookStep v sem t (v.setPc t (.execReturn result)) (sem + 1#32)
  | publish {self name : String} {opens : Bool} {pid : ℕ} {currentID garbage : ℤ}
      (hat : v.threads t = some ⟨self, .execScan (some name) opens⟩)
      (hpid : pid < v.bm.numBits) (hfree : isSet v.bm pid = false) :
      BookStep v sem t
        ((v.publish t pid currentID garbage).setPc t (.execFork name pid v.next)) sem
  | fork {self name : String} {pid ptr : ℕ} {k : Ident}
      (hat : v.threads t = some ⟨self, .execFork name pid ptr⟩) :
      BookStep v sem t ((v.fork name ptr k).setPc t (.execStore pid ptr)) sem
  | store {self : String} {pid ptr : ℕ} {k : Ident}
      (hat : v.threads t = some ⟨self, .execStore pid ptr⟩) (hk : v.ident ptr = some k) :
      BookStep v sem t
        ({ v with ident := Function.update v.ident ptr (some { k with pid := pid }) }.setPc t
          (.execRelease pid)) sem
  | remove {self : String} {pid : ℤ} {ptr : ℕ} {bm : BitMap}
      (hat : v.threads t = some ⟨self, .exitRemove pid⟩) (hptr : v.pcbAt pid = some ptr)
      (hbm : v.bm.clear pid = some bm) :
      BookStep v sem t ((v.remove pid.toNat ptr bm).setPc t .finished) sem

/-- What the step makes of the slots and of `bmsem`. -/
def Books (s s' : ProcState) (t : ThreadId) : Prop :=
  BookStep (viewOf s.toProcTable) s.bmsem.value t (viewOf s'.toProcTable) s'.bmsem.value

/-! ## Semaphores -/

theorem bmsem_wake (s : ProcState) (woken : Option ThreadId) : (s.wake woken).bmsem = s.bmsem := by
  cases woken <;> rfl

theorem bmsem_pTest {x : PCBSem} {passed waiting : Pc}
    (h : s.pTest t ptr x passed waiting = some s') : s'.bmsem = s.bmsem := by
  simp only [ProcState.pTest, Option.bind_eq_bind, Option.bind_eq_some_iff, Option.pure_def,
    Option.some.injEq] at h
  obtain ⟨c, -, rfl⟩ := h
  split <;> rfl

theorem bmsem_vCall {x : PCBSem} (h : s.vCall ptr x = some s') : s'.bmsem = s.bmsem := by
  simp only [ProcState.vCall, Option.bind_eq_bind, Option.bind_eq_some_iff, Option.pure_def,
    Option.some.injEq] at h
  obtain ⟨c, -, rfl⟩ := h
  exact bmsem_wake _ _

theorem value_bmsemV (s : ProcState) (t : ThreadId) (result : ℤ) :
    (s.bmsemV t result).bmsem.value = s.bmsem.value + 1#32 := by
  have hwake : (s.bmsemV t result).bmsem = s.bmsem.v.1 := bmsem_wake _ _
  rw [hwake, Semaphore.value_v]

theorem bookStep_plain (hat : v.threads t = some thr) (hfrom : Plain thr.pc) (hto : Plain pc)
    (hheld : holdsBmsem pc = holdsBmsem thr.pc) (hgrant : grantedPid pc = none) :
    BookStep v sem t (v.setPc t pc) sem := by
  apply BookStep.move hat (sameSlots_self v) _ hheld (ne_execFail_of_plain hto)
  · intro r hr
    rw [hgrant] at hr
    cases hr
  · intro pid hexit
    cases pc <;> first | exact hto.elim | cases hexit
  · rw [window_of_plain hto, window_of_plain hfrom]

theorem books_bmsemTest (hat : s.threads t = some thr) (hout : Plain thr.pc)
    (hheld : holdsBmsem thr.pc = false) (name : Option String) (opens : Bool) :
    Books s (s.bmsemTest t name opens) t := by
  unfold Books ProcState.bmsemTest
  by_cases h0 : s.bmsem.value = 0#32
  · have hp : s.bmsem.p t = ({ s.bmsem with queue := s.bmsem.queue ++ [t] }, false) := by
      simp [Semaphore.p, h0]
    rw [hp]
    show BookStep _ _ t ((viewOf s.toProcTable).setPc t (.execP name opens)) _
    exact bookStep_plain hat hout trivial hheld.symm rfl
  · have hp : s.bmsem.p t = ({ s.bmsem with value := s.bmsem.value - 1#32 }, true) := by
      simp [Semaphore.p, h0]
    rw [hp]
    exact .enter hat hout hheld h0

theorem books_bmsemV (hat : s.threads t = some thr) (hin : Plain thr.pc)
    (hheld : holdsBmsem thr.pc = true) {result : ℤ}
    (hresult : result = -1 ∨ grantedPid thr.pc = some result) : Books s (s.bmsemV t result) t := by
  have hview : viewOf (s.bmsemV t result).toProcTable =
      (viewOf s.toProcTable).setPc t (.execReturn result) := by
    simp only [ProcState.bmsemV, ProcState.goto, ProcState.onTable, toProcTable_wake, viewOf_setPc]
  unfold Books
  rw [value_bmsemV, hview]
  exact .release hat hin hheld hresult

/-! ## The three calls -/

/-- INTERNAL: `ExecUpdate` after `bmsem->P()`, when its search finds the caller. -/
theorem books_execScanWith {name : Option String}
    (hat : s.threads t = some ⟨self, .execScan name opens⟩)
    (hfound : ∀ index, scan = some index → s.currentID index ≠ -1)
    (h : s.execScanWith scan t self name opens garbage = some s') : Books s s' t := by
  rcases execScanWith_cases s scan t self name opens garbage with ⟨-, hrun⟩ |
    ⟨file, pid, ⟨rfl, -, -, hpid, hfree⟩, hrun⟩
  · rw [hrun, Option.some.injEq] at h
    subst h
    exact books_bmsemV hat trivial rfl (Or.inl rfl)
  · rw [hrun, Option.bind_eq_some_iff] at h
    obtain ⟨index, hscan, h⟩ := h
    have hid := hfound index hscan
    rw [if_neg hid] at h
    have hsem := bmsem_pTest h
    obtain ⟨c, w, pc, hc, htest, hview⟩ := pTest_view h
    simp only [ProcState.onTable, ProcTable.publish, Function.update_self, Option.some.injEq] at hc
    subst hc
    obtain ⟨-, -, rfl⟩ | ⟨h0, -, -⟩ := htest
    · unfold Books
      rw [hsem, hview]
      simp only [ProcState.onTable, TableView.setSem]
      rw [viewOf_publish _ _ _ _ hid]
      exact .publish hat hpid hfree
    · simp [PCB.sem, PCB.new, Semaphore.new] at h0

/-- INTERNAL: `JoinUpdate` up to its `joinsem->P()`, whatever its search finds. -/
theorem books_joinCallWith {id : ℤ} (hat : s.threads t = some ⟨self, .user⟩)
    (h : s.joinCallWith scan t id = some s') : Books s s' t := by
  unfold ProcState.joinCallWith at h
  split at h
  · cases h
    exact .refuse
  · simp only [Option.bind_eq_bind, Option.bind_eq_some_iff] at h
    obtain ⟨index, -, h⟩ := h
    split at h
    · cases h
      exact .refuse
    · simp only [Option.bind_eq_some_iff] at h
      obtain ⟨c, -, h⟩ := h
      split at h
      · cases h
        exact .refuse
      · simp only [Option.bind_eq_some_iff] at h
        obtain ⟨ptr, -, me, hme, h⟩ := h
        have hsem := bmsem_pTest h
        obtain ⟨c', w, pc, -, htest, hview⟩ := pTest_view h
        have hsame : viewOf (s.setPcb ptr { me with numwait := me.numwait + 1 }) =
            viewOf s.toProcTable := viewOf_setPcb_of_same hme rfl rfl rfl rfl
        unfold Books
        rw [hsem, hview]
        simp only [ProcState.onTable, hsame]
        apply BookStep.move hat (sameSlots_setSem _ _ _ _)
        all_goals obtain rfl | rfl := htest.cases_pc
        all_goals first | rfl | exact fun _ h => by cases h

/-- INTERNAL: `ExitUpdate` up to its `exitsem->P()`, whatever its search finds: the slot to remove
is not the boot process's. -/
theorem books_exitCallWith {ec : ℤ} (hat : s.threads t = some ⟨self, .user⟩)
    (h : s.exitCallWith scan t ec = some s') : Books s s' t := by
  simp only [ProcState.exitCallWith, Option.bind_eq_bind, Option.bind_eq_some_iff] at h
  obtain ⟨index, -, h⟩ := h
  cases index with
  | none =>
    cases h
    exact .refuse
  | some index =>
    simp only [Option.bind_eq_some_iff] at h
    obtain ⟨ptr, -, c, hc, h⟩ := h
    split at h
    · cases h
      exact .refuse
    · next hpid =>
      simp only [Option.bind_eq_some_iff, Option.pure_def, Option.some.injEq] at h
      obtain ⟨parent, -, s₂, hv, rfl⟩ := h
      have hsem := bmsem_vCall hv
      obtain ⟨p, -, hview⟩ := vCall_view hv
      have hsame : SameSlots (viewOf s.toProcTable) (viewOf s₂.toProcTable) := by
        have hset := viewOf_setPcb s.toProcTable ptr { c with exitcode := ec }
        rw [show identOf { c with exitcode := ec } = identOf c from rfl, ← ident_viewOf hc,
          Function.update_eq_self] at hset
        have hident : (viewOf (s.setPcb ptr { c with exitcode := ec })).ident =
            (viewOf s.toProcTable).ident := by rw [hset]
        rw [hview]
        exact (sameSlots_setSem _ _ _ _).trans ⟨rfl, hident, rfl, rfl, rfl⟩
      unfold Books
      rw [show (s₂.goto t (.exitWait index c.pid)).bmsem = s.bmsem from hsem]
      simp only [ProcState.goto, ProcState.onTable, viewOf_setPc]
      refine .move hat hsame rfl rfl ?_ ?_ ?_
      · exact fun _ h => by cases h
      · exact fun _ h => by cases h
      · intro pid hexit
        cases hexit
        exact Or.inr hpid

/-- INTERNAL: the listed steps of a thread inside a call, at a place where it holds a slot number
or a pointer. -/
theorem bookStep_of_viewStep (hinv : TableInv v) (hat : v.threads t = some thr)
    (hplain : ¬ Plain thr.pc) (h : ViewStep v (.resume t garbage) v') (sem : BitVec 32) :
    BookStep v sem t v' sem := by
  have hnot : ∀ {a : Thread}, v.threads t = some a → ¬ Plain a.pc := by
    intro a ha
    rw [hat, Option.some.injEq] at ha
    exact ha ▸ hplain
  cases h with
  | refuse => exact .refuse
  | plain pc hat' hfrom => exact absurd hfrom (hnot hat')
  | publish hat' => exact absurd trivial (hnot hat')
  | mutexTest hat' hpc =>
    refine .move hat' (sameSlots_self v) ?_ ?_ ?_ ?_ ?_
    all_goals obtain rfl | rfl := hpc
    all_goals first | rfl | exact fun _ h => h | exact fun _ h => by cases h
  | fork hat' hk hnone => exact .fork hat'
  | forkFail hat' hk hsome => exact absurd (hinv.thread_eq_none hat' hk) hsome
  | store hat' hk => exact .store hat' hk
  | discard hat' => exact absurd rfl (hinv.noFail _ _ _ hat')
  | joinTest hat' hkm htest =>
    refine .move hat' (sameSlots_setSem _ _ _ _) ?_ ?_ ?_ ?_ ?_
    all_goals obtain rfl | rfl := htest.cases_pc
    all_goals first | rfl | exact fun _ h => by cases h
  | joinRead hat' =>
    refine .move hat' (sameSlots_setSem _ _ _ _) rfl rfl ?_ ?_ ?_
    all_goals exact fun _ h => by cases h
  | exitTest hat' hfrom hk htest =>
    refine .move hat' (sameSlots_setSem _ _ _ _) ?_ ?_ ?_ ?_ ?_
    all_goals obtain rfl | ⟨index, rfl, -⟩ := hfrom
    all_goals obtain rfl | rfl := htest.cases_pc
    all_goals first | rfl | exact fun _ h => Or.inl h | exact fun _ h => by cases h
  | leave hat' hnone =>
    refine .move hat' (sameSlots_self v) rfl rfl ?_ ?_ ?_
    all_goals exact fun _ h => by cases h
  | remove hat' hptr hfile hbm => exact .remove hat' hptr hbm

/-- INTERNAL: these steps leave `bmsem` alone. -/
theorem bmsem_resume (hplain : ¬ Plain pc) (hfail : ∀ pid, pc ≠ .execFail pid)
    (h : s.resume t self garbage pc = some (some s')) : s'.bmsem = s.bmsem := by
  cases pc <;> simp only [ProcState.resume, Option.some.injEq, reduceCtorEq] at h
  case execP => exact absurd trivial hplain
  case execScan => exact absurd trivial hplain
  case execMutex => exact bmsem_pTest h
  case execFork name pid ptr =>
    simp only [ProcState.execFork, Option.bind_eq_bind, Option.bind_eq_some_iff] at h
    obtain ⟨c, -, h⟩ := h
    split at h
    · simp only [Option.bind_eq_some_iff, Option.pure_def, Option.some.injEq] at h
      obtain ⟨s₁, hv, rfl⟩ := h
      have hsem := bmsem_vCall hv
      exact hsem
    · cases h
      rfl
  case execStore pid ptr =>
    simp only [ProcState.execStore, Option.bind_eq_bind, Option.bind_eq_some_iff, Option.pure_def,
      Option.some.injEq] at h
    obtain ⟨c, -, s₁, hv, rfl⟩ := h
    have hsem := bmsem_vCall hv
    exact hsem
  case execFail pid => exact absurd rfl (hfail pid)
  case execRelease => exact absurd trivial hplain
  case execReturn => exact absurd trivial hplain
  case joinP => exact bmsem_pTest h
  case joinRead id currentID child =>
    simp only [ProcState.joinRead, Option.bind_eq_bind, Option.bind_eq_some_iff, Option.pure_def,
      Option.some.injEq] at h
    obtain ⟨c, -, me, -, m, -, ptr, -, s₁, hv, rfl⟩ := h
    have hsem := bmsem_vCall hv
    exact hsem
  case joinReturn => exact absurd trivial hplain
  case exitWait index pid =>
    simp only [ProcState.exitWait, Option.bind_eq_bind, Option.bind_eq_some_iff] at h
    obtain ⟨ptr, -, h⟩ := h
    exact bmsem_pTest h
  case exitP => exact bmsem_pTest h
  case exitRemove pid =>
    simp only [ProcState.exitRemove, Option.bind_eq_bind, Option.bind_eq_some_iff, Option.pure_def,
      Option.some.injEq] at h
    obtain ⟨r, -, rfl⟩ := h
    rfl

/-- INTERNAL: a thread inside a call, at any place but the search of `ExecUpdate`. -/
theorem books_resume (hinv : TableInv (viewOf s.toProcTable)) (hat : s.threads t = some thr)
    (hscan : ∀ name opens, thr.pc ≠ .execScan name opens)
    (h : s.resume t thr.name garbage thr.pc = some (some s')) : Books s s' t := by
  by_cases hplain : Plain thr.pc
  · obtain ⟨self, pc⟩ := thr
    cases pc <;> simp only [ProcState.resume, Option.some.injEq, reduceCtorEq] at h
    case execP name opens =>
      subst h
      exact books_bmsemTest hat trivial rfl name opens
    case execScan name opens => exact absurd rfl (hscan name opens)
    case execRelease pid =>
      subst h
      exact books_bmsemV hat trivial rfl (Or.inr rfl)
    case execReturn result =>
      subst h
      show BookStep _ _ t ((viewOf s.toProcTable).setPc t .user) _
      exact bookStep_plain hat trivial trivial rfl rfl
    case joinReturn result =>
      subst h
      show BookStep _ _ t ((viewOf s.toProcTable).setPc t .user) _
      exact bookStep_plain hat trivial trivial rfl rfl
    all_goals exact hplain.elim
  · unfold Books
    rw [bmsem_resume hplain (fun pid => hinv.noFail t thr pid hat) h]
    exact bookStep_of_viewStep hinv hat hplain (viewStep_resume hat h) _

/-! ## The invariant -/

/-- INTERNAL: **the books agree.** Bits and pointers are in step, the boot process is in its slot,
at most one thread holds `bmsem`, and no `Exit` is going to remove slot 0.
SRCLINE: threads/ptable.cc:4-121 -/
structure BookInv (v : TableView) (sem : BitVec 32) : Prop where
  table : TableInv v
  bits : v.bm.numBits = maxProcess
  agree : ∀ i < maxProcess, isSet v.bm i = true ↔ v.pcb i ≠ none
  lt : ∀ i ptr, v.pcb i = some ptr → i < maxProcess
  boot : v.pcb 0 = some 0
  alone : ∀ u u', Holder v u → Holder v u' → u = u'
  held : ∀ u, Holder v u → sem = 0#32
  free : (∀ u, ¬ Holder v u) → sem = 1#32
  exits : ∀ u thr pid, v.threads u = some thr → exitPid thr.pc = some pid → pid ≠ 0

theorem BookInv.pid_eq (h : BookInv v sem)
    (hidle : ∀ u, Holder v u → ∃ thr, v.threads u = some thr ∧ window thr.pc = none) {i ptr : ℕ}
    (hi : v.pcb i = some ptr) : ∃ k, v.ident ptr = some k ∧ k.pid = i := by
  obtain ⟨-, k, hk, ⟨-, hpid⟩ | ⟨u, forked, hfill⟩⟩ := h.table.slot i ptr hi
  · exact ⟨k, hk, hpid⟩
  · obtain ⟨thr, hat, hwin⟩ := hidle u hfill.holder
    exact absurd hfill (not_filling_of_window hat hwin)

theorem BookInv.of_same_holders (h : BookInv v sem) (hholders : ∀ u, Holder v' u ↔ Holder v u)
    (htable : TableInv v') (hbits : v'.bm.numBits = maxProcess)
    (hagree : ∀ i < maxProcess, isSet v'.bm i = true ↔ v'.pcb i ≠ none)
    (hlt : ∀ i ptr, v'.pcb i = some ptr → i < maxProcess) (hboot : v'.pcb 0 = some 0)
    (hexits : ∀ u thr pid, v'.threads u = some thr → exitPid thr.pc = some pid → pid ≠ 0) :
    BookInv v' sem where
  table := htable
  bits := hbits
  agree := hagree
  lt := hlt
  boot := hboot
  alone u u' hu hu' := h.alone u u' ((hholders u).mp hu) ((hholders u').mp hu')
  held u hu := h.held u ((hholders u).mp hu)
  free hnone := h.free fun u hu => hnone u ((hholders u).mpr hu)
  exits := hexits

theorem BookInv.exits_setPc {v w : TableView} (h : BookInv v sem) (hthreads : w.threads = v.threads)
    (hat : v.threads t = some thr)
    (hpc : ∀ pid, exitPid pc = some pid → exitPid thr.pc = some pid ∨ pid ≠ 0) :
    ∀ u a pid, (w.setPc t pc).threads u = some a → exitPid a.pc = some pid → pid ≠ 0 := by
  intro u a pid hu hexit
  have hat' : w.threads t = some thr := by rw [hthreads, hat]
  obtain ⟨-, rfl⟩ | ⟨-, hold⟩ := threads_setPc_eq_some hat' hu
  · obtain hsame | hne := hpc pid hexit
    · exact h.exits t thr pid hat hsame
    · exact hne
  · rw [hthreads] at hold
    exact h.exits u a pid hold hexit

/-- INTERNAL: a new `PCB` in a free slot. -/
theorem BookInv.publish (h : BookInv v sem) {self name : String} {currentID garbage : ℤ}
    (hat : v.threads t = some ⟨self, .execScan (some name) opens⟩) (hpid : pid < v.bm.numBits)
    (hfree : isSet v.bm pid = false) :
    BookInv ((v.publish t pid currentID garbage).setPc t (.execFork name pid v.next)) sem := by
  have hlt : pid < maxProcess := h.bits ▸ hpid
  apply h.of_same_holders
  · exact fun u => holder_setPc_of_same (v := v.publish t pid currentID garbage) hat rfl
  · exact h.table.publish hat rfl rfl
  · exact h.bits
  · intro i hi
    show isSet (setBit v.bm pid) i = true ↔ Function.update v.pcb pid (some v.next) i ≠ none
    by_cases hip : i = pid
    · simp [hip]
    · simp [hip, h.agree i hi]
  · intro i ptr hi
    obtain ⟨rfl, -⟩ | ⟨-, hold⟩ := update_some_cases hi
    · exact hlt
    · exact h.lt i ptr hold
  · have hne : (0 : ℕ) ≠ pid := by
      rintro rfl
      rw [(h.agree 0 hlt).mpr (by rw [h.boot]; simp)] at hfree
      cases hfree
    exact (Function.update_of_ne hne _ _).trans h.boot
  · exact h.exits_setPc (w := v.publish t pid currentID garbage) rfl hat fun _ hexit => by cases hexit

/-- INTERNAL: a slot is taken back. -/
theorem BookInv.remove (h : BookInv v sem) {pid : ℤ} {bm : BitMap}
    (hat : v.threads t = some ⟨self, .exitRemove pid⟩) (hptr : v.pcbAt pid = some ptr)
    (hbm : v.bm.clear pid = some bm) :
    BookInv ((v.remove pid.toNat ptr bm).setPc t .finished) sem := by
  obtain ⟨h0, hlt, hslot⟩ := pcb_of_pcbAt hptr
  obtain ⟨i₀, rfl⟩ := Int.eq_ofNat_of_zero_le h0
  rw [Int.toNat_natCast] at hslot ⊢
  have hin : i₀ < v.bm.numBits := by
    rw [h.bits]
    exact_mod_cast hlt
  rw [clear_eq hin, Option.some.injEq] at hbm
  subst hbm
  have hne : (0 : ℕ) ≠ i₀ := by
    rintro rfl
    exact h.exits t _ _ hat rfl rfl
  apply h.of_same_holders
  · exact fun u => holder_setPc_of_same (v := v.remove i₀ ptr (clearBit v.bm i₀)) hat rfl
  · apply TableInv.setPc
    · exact h.table.remove hslot
    · exact hat
    · rfl
    · exact fun _ hpc => by cases hpc
  · exact h.bits
  · intro i hi
    show isSet (clearBit v.bm i₀) i = true ↔ Function.update v.pcb i₀ none i ≠ none
    by_cases hip : i = i₀
    · simp [hip]
    · simp [hip, h.agree i hi]
  · intro i q hi
    exact h.lt i q (update_none_cases hi).2
  · exact (Function.update_of_ne hne _ _).trans h.boot
  · exact h.exits_setPc (w := v.remove i₀ ptr (clearBit v.bm i₀)) rfl hat fun _ hexit => by cases hexit

/-- INTERNAL: a thread moves, and the slots stay as they are. -/
theorem BookInv.move {v w : TableView} (h : BookInv v sem) (hat : v.threads t = some thr)
    (hsame : SameSlots v w) (hwin : window pc = window thr.pc)
    (hheld : holdsBmsem pc = holdsBmsem thr.pc) (hfail : ∀ pid, pc ≠ .execFail pid)
    (hexit : ∀ pid, exitPid pc = some pid → exitPid thr.pc = some pid ∨ pid ≠ 0) :
    BookInv (w.setPc t pc) sem := by
  have hat' : w.threads t = some thr := by rw [hsame.threads, hat]
  apply h.of_same_holders
  · intro u
    rw [holder_setPc_of_same hat' hheld]
    unfold Holder
    rw [hsame.threads]
  · exact (h.table.congr hsame.pcb hsame.ident hsame.next hsame.threads).setPc hat' hwin hfail
  · exact hsame.bm ▸ h.bits
  · intro i hi
    show isSet w.bm i = true ↔ w.pcb i ≠ none
    rw [hsame.bm, hsame.pcb]
    exact h.agree i hi
  · exact fun i ptr hi => h.lt i ptr (hsame.pcb ▸ hi)
  · exact hsame.pcb ▸ h.boot
  · exact h.exits_setPc hsame.threads hat hexit

/-- INTERNAL: `Fork` makes a thread that holds nothing. -/
theorem BookInv.fork (h : BookInv v sem) {self name : String} {k : Ident}
    (hat : v.threads t = some ⟨self, .execFork name pid ptr⟩) :
    BookInv ((v.fork name ptr k).setPc t (.execStore pid ptr)) sem := by
  obtain ⟨-, -, -, hpre⟩ := h.table.filling t pid ptr false ⟨_, hat, rfl⟩
  have hptr := hpre rfl
  have hat' := TableView.threads_fork_of_some hat hptr name k
  have hheld : holdsBmsem (.execStore pid ptr) = holdsBmsem (.execFork name pid ptr) := rfl
  apply h.of_same_holders
  · intro u
    rw [holder_setPc_of_same hat' hheld]
    unfold Holder
    by_cases hu : u = ptr
    · simp [hu, TableView.fork, hptr, holdsBmsem]
    · simp [hu, TableView.fork]
  · exact h.table.fork hat rfl
  · exact h.bits
  · exact h.agree
  · exact h.lt
  · exact h.boot
  · intro u a pid' hu hexit
    obtain ⟨-, rfl⟩ | ⟨-, hu⟩ := threads_setPc_eq_some hat' hu
    · cases hexit
    · obtain ⟨-, rfl⟩ | hu := threads_fork_cases hu
      · cases hexit
      · exact h.exits u a pid' hu hexit

theorem BookInv.enter (h : BookInv v sem) {name : Option String} (hat : v.threads t = some thr)
    (hout : Plain thr.pc) (hsem : sem ≠ 0#32) :
    BookInv (v.setPc t (.execScan name opens)) (sem - 1#32) := by
  have hnone : ∀ u, ¬ Holder v u := fun u hu => hsem (h.held u hu)
  have hsem0 : sem - 1#32 = 0#32 := by
    rw [h.free hnone]
    decide
  have honly : ∀ u, Holder (v.setPc t (.execScan name opens)) u → u = t := by
    intro u hu
    obtain ⟨hut, -⟩ | ⟨-, hold⟩ := (holder_setPc hat).mp hu
    · exact hut
    · exact absurd hold (hnone u)
  have hself : Holder (v.setPc t (.execScan name opens)) t := (holder_setPc hat).mpr (Or.inl ⟨rfl, rfl⟩)
  refine ⟨?_, h.bits, h.agree, h.lt, h.boot, fun u u' hu hu' => ?_, fun _ _ => hsem0, fun hno => ?_, ?_⟩
  · exact h.table.setPc hat (window_of_plain hout).symm fun _ hpc => by cases hpc
  · rw [honly u hu, honly u' hu']
  · exact absurd hself (hno t)
  · exact h.exits_setPc rfl hat fun _ hexit => by cases hexit

theorem BookInv.release (h : BookInv v sem) {result : ℤ} (hat : v.threads t = some thr)
    (hin : Plain thr.pc) (hheld : holdsBmsem thr.pc = true) :
    BookInv (v.setPc t (.execReturn result)) (sem + 1#32) := by
  have hholder : Holder v t := ⟨thr, hat, hheld⟩
  have hnone : ∀ u, ¬ Holder (v.setPc t (.execReturn result)) u := by
    intro u hu
    obtain ⟨-, hpc⟩ | ⟨hne, hold⟩ := (holder_setPc hat).mp hu
    · cases hpc
    · exact hne (h.alone u t hold hholder)
  refine ⟨?_, h.bits, h.agree, h.lt, h.boot, fun u _ hu => absurd hu (hnone u),
    fun u hu => absurd hu (hnone u), fun _ => ?_, ?_⟩
  · exact h.table.setPc hat (window_of_plain hin).symm fun _ hpc => by cases hpc
  · rw [h.held t hholder]
    decide
  · exact h.exits_setPc rfl hat fun _ hexit => by cases hexit

/-- INTERNAL: **one step** keeps the books in agreement. -/
theorem BookInv.step {sem sem' : BitVec 32} (h : BookInv v sem) (hstep : BookStep v sem t v' sem') :
    BookInv v' sem' := by
  cases hstep with
  | refuse => exact h
  | move hat hsame hwin hheld hfail hgrant hexit => exact h.move hat hsame hwin hheld hfail hexit
  | enter hat hout hheld hsem => exact h.enter hat hout hsem
  | release hat hin hheld hresult => exact h.release hat hin hheld
  | publish hat hpid hfree => exact h.publish hat hpid hfree
  | fork hat => exact h.fork hat
  | store hat hk =>
    apply h.of_same_holders
    · exact fun u => holder_setPc_of_same (v := { v with
        ident := Function.update v.ident _ (some _) }) hat rfl
    · exact h.table.store hat hk rfl
    · exact h.bits
    · exact h.agree
    · exact h.lt
    · exact h.boot
    · exact h.exits_setPc (w := { v with ident := Function.update v.ident _ (some _) }) rfl hat
        fun _ hexit => by cases hexit
  | remove hat hptr hbm => exact h.remove hat hptr hbm

/-- INTERNAL: where a thread and the number it is going to return come from. -/
theorem BookStep.thread_cases {sem sem' : BitVec 32} {a : Thread} (h : BookStep v sem t v' sem')
    (hinv : TableInv v) (hu : v'.threads u = some a) :
    (∃ b, v.threads u = some b ∧ b.name = a.name ∧ ∀ r, grantedPid a.pc = some r →
        grantedPid b.pc = some r ∨ (u = t ∧ ∃ name opens, b.pc = .execScan name opens ∧
          ∃ pid : ℕ, r = pid ∧ pid < v.bm.numBits ∧ isSet v.bm pid = false)) ∨
      ∃ self pid, v.threads t = some ⟨self, .execFork a.name pid u⟩ ∧ a.pc = .user := by
  cases h with
  | refuse => exact Or.inl ⟨a, hu, rfl, fun _ hr => Or.inl hr⟩
  | move hat hsame hwin hheld hfail hgrant hexit =>
    have hat' := hat
    rw [← hsame.threads] at hat'
    obtain ⟨rfl, rfl⟩ | ⟨-, hold⟩ := threads_setPc_eq_some hat' hu
    · exact Or.inl ⟨_, hat, rfl, fun r hr => Or.inl (hgrant r hr)⟩
    · rw [hsame.threads] at hold
      exact Or.inl ⟨a, hold, rfl, fun _ hr => Or.inl hr⟩
  | enter hat hout hheld hsem =>
    obtain ⟨rfl, rfl⟩ | ⟨-, hold⟩ := threads_setPc_eq_some hat hu
    · exact Or.inl ⟨_, hat, rfl, fun _ hr => by cases hr⟩
    · exact Or.inl ⟨a, hold, rfl, fun _ hr => Or.inl hr⟩
  | release hat hin hheld hresult =>
    obtain ⟨rfl, rfl⟩ | ⟨-, hold⟩ := threads_setPc_eq_some hat hu
    · refine Or.inl ⟨_, hat, rfl, fun r hr => Or.inl ?_⟩
      simp only [grantedPid, Option.ite_none_left_eq_some, Option.some.injEq] at hr
      obtain ⟨hne, rfl⟩ := hr
      exact hresult.resolve_left hne
    · exact Or.inl ⟨a, hold, rfl, fun _ hr => Or.inl hr⟩
  | publish hat hpid hfree =>
    obtain ⟨rfl, rfl⟩ | ⟨-, hold⟩ := threads_setPc_eq_some (v := v.publish _ _ _ _) hat hu
    · refine Or.inl ⟨_, hat, rfl, fun r hr => Or.inr ⟨rfl, _, _, rfl, _, ?_, hpid, hfree⟩⟩
      exact (Option.some.inj hr).symm
    · exact Or.inl ⟨a, hold, rfl, fun _ hr => Or.inl hr⟩
  | @fork self name pid ptr k hat =>
    obtain ⟨-, -, -, hpre⟩ := hinv.filling t pid ptr false ⟨_, hat, rfl⟩
    have hat' := TableView.threads_fork_of_some hat (hpre rfl) name k
    obtain ⟨rfl, rfl⟩ | ⟨-, hold⟩ := threads_setPc_eq_some hat' hu
    · exact Or.inl ⟨_, hat, rfl, fun _ hr => Or.inl hr⟩
    · obtain ⟨rfl, rfl⟩ | hold := threads_fork_cases hold
      · exact Or.inr ⟨self, pid, hat, rfl⟩
      · exact Or.inl ⟨a, hold, rfl, fun _ hr => Or.inl hr⟩
  | store hat hk =>
    obtain ⟨rfl, rfl⟩ | ⟨-, hold⟩ := threads_setPc_eq_some (v := { v with
      ident := Function.update v.ident _ (some _) }) hat hu
    · exact Or.inl ⟨_, hat, rfl, fun _ hr => Or.inl hr⟩
    · exact Or.inl ⟨a, hold, rfl, fun _ hr => Or.inl hr⟩
  | remove hat hptr hbm =>
    obtain ⟨rfl, rfl⟩ | ⟨-, hold⟩ := threads_setPc_eq_some (v := v.remove _ _ _) hat hu
    · exact Or.inl ⟨_, hat, rfl, fun _ hr => by cases hr⟩
    · exact Or.inl ⟨a, hold, rfl, fun _ hr => Or.inl hr⟩

end Nachos.Analysis
