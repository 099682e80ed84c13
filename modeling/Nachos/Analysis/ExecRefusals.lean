import Nachos.Analysis.ChildLoading
import Nachos.Analysis.SlotSteps

/-!
# What a refused `ExecUpdate` leaves behind

One call of `ExecUpdate` from `bmsem->P()` to its return, on any table in which the bitmap and the
array agree and with `bmsem` free. The call runs alone: a thread that holds `bmsem` shuts out the
other calls of `ExecUpdate`, and what other threads do to the table is their own doing.

The call always comes to a return and gives `bmsem` back. It leaves a table as it was when it
returns -1, but for one of the exits: the search for the caller comes after `BitMap::Find` has
marked a slot, and when it finds nobody the mark stays. The exit after a failed `PCB::Exec` is not
taken, since a new `PCB` has no thread yet.
-/

set_option autoImplicit false

namespace Nachos.Analysis

open Nachos.Library Nachos.Model

/-! ## One call -/

/-- Thread `t` runs on inside `ExecUpdate` until it returns; `n` bounds the number of steps. -/
def runToReturn (t : ThreadId) (garbage : ℤ) : ℕ → ProcState → Option (ℤ × ProcState)
  | 0, _ => none
  | n + 1, s =>
    match (s.threads t).map Thread.pc with
    | some (.execReturn result) => some (result, s)
    | _ => (s.step (.resume t garbage)).bind (runToReturn t garbage n)

/-- A whole call of `ExecUpdate` (ptable.cc:20-66) by thread `t`: the result and the state at the
return. Between `bmsem->P()` and the return there are at most four steps. -/
def execUpdate (s : ProcState) (t : ThreadId) (name : Option String) (opens : Bool) (garbage : ℤ) :
    Option (ℤ × ProcState) :=
  (s.step (.exec t name opens)).bind (runToReturn t garbage 5)

/-- The bitmap and the array agree, every `PCB` of the array has its thread, and the next thread
object is a new one. -/
structure Agrees (s : ProcTable) : Prop where
  numBits : s.bm.numBits = maxProcess
  agree : ∀ i < maxProcess, isSet s.bm i = true ↔ ∃ ptr, s.pcb i = some ptr
  named : ∀ i < maxProcess, ∀ ptr, s.pcb i = some ptr → ∃ file, s.getFileName ptr = some file
  fresh : s.threads s.next = none

/-- Thread `t`, of name `caller`, is about to run on at `pc`. -/
structure RunsAt (s : ProcState) (t : ThreadId) (caller : String) (pc : Pc) : Prop where
  running : s.status = .running
  awake : s.asleep t = false
  at_pc : s.threads t = some ⟨caller, pc⟩

section Steps

variable {s s' : ProcState} {t : ThreadId} {caller : String} {pc : Pc} {garbage : ℤ}

theorem RunsAt.goto (h : RunsAt s t caller pc) (pc' : Pc) :
    RunsAt (s.goto t pc') t caller pc' where
  running := h.running
  awake := h.awake
  at_pc := by simp [ProcState.goto, ProcState.onTable, ProcTable.setPc, h.at_pc]

theorem asleep_wake_of_awake {woken : Option ThreadId} (h : s.asleep t = false) :
    (s.wake woken).asleep t = false := by
  cases woken with
  | none => exact h
  | some u =>
    by_cases hu : t = u
    · simp [ProcState.wake, hu]
    · simp [ProcState.wake, Function.update_of_ne hu, h]

theorem RunsAt.wake (h : RunsAt s t caller pc) (woken : Option ThreadId) :
    RunsAt (s.wake woken) t caller pc where
  running := (status_wake s woken).trans h.running
  awake := asleep_wake_of_awake h.awake
  at_pc := by rw [toProcTable_wake, h.at_pc]

theorem RunsAt.bmsemV (h : RunsAt s t caller pc) (result : ℤ) :
    RunsAt (s.bmsemV t result) t caller (.execReturn result) := by
  have hv : RunsAt { s with bmsem := s.bmsem.v.1 } t caller pc := ⟨h.running, h.awake, h.at_pc⟩
  exact (hv.wake s.bmsem.v.2).goto _

theorem runToReturn_return {result : ℤ} (h : RunsAt s t caller (.execReturn result)) (n : ℕ) :
    runToReturn t garbage (n + 1) s = some (result, s) := by
  simp [runToReturn, h.at_pc]

theorem runToReturn_step (h : RunsAt s t caller pc) (hpc : ∀ result, pc ≠ .execReturn result)
    (hresume : s.resume t caller garbage pc = some (some s')) (n : ℕ) :
    runToReturn t garbage (n + 1) s = runToReturn t garbage n s' := by
  have hstep : s.step (.resume t garbage) = some s' := by
    simp [ProcState.step, ProcEvent.thread, h.running, h.awake, h.at_pc, ProcState.act, hresume]
  rw [runToReturn, h.at_pc, Option.map_some]
  split
  · next result heq => exact absurd (Option.some.inj heq) (hpc result)
  · rw [hstep, Option.bind_some]

/-- INTERNAL: the end of a call whose `PCB` is in the table: the thread is made, the number stored,
`bmsem` given back. -/
theorem runToReturn_execFork (garbage : ℤ) {file : String} {pid ptr : ℕ} {c : PCB}
    (h : RunsAt s t caller (.execFork file pid ptr)) (hne : t ≠ ptr) (hc : s.heap ptr = some c)
    (hthread : c.thread = none) :
    ∃ s', runToReturn t garbage 4 s = some ((pid : ℤ), s') ∧
      s'.bmsem.value = s.bmsem.value + 1#32 := by
  -- `PCB::Exec` makes the thread
  have hforked : RunsAt ((s.onTable (·.fork file ptr c)).goto t (.execStore pid ptr)) t caller
      (.execStore pid ptr) := by
    have hmade : RunsAt (s.onTable (·.fork file ptr c)) t caller (.execFork file pid ptr) := by
      refine ⟨h.running, h.awake, ?_⟩
      simp [ProcState.onTable, ProcTable.fork, Function.update_of_ne hne, h.at_pc]
    exact hmade.goto _
  have hfork : s.resume t caller garbage (.execFork file pid ptr) =
      some (some ((s.onTable (·.fork file ptr c)).goto t (.execStore pid ptr))) := by
    simp [ProcState.resume, ProcState.execFork, hc, hthread]
  rw [runToReturn_step h (by simp) hfork]
  -- it stores the number of the process
  obtain ⟨s₁, hs₁⟩ : ∃ s₁, s₁ = (s.onTable (·.fork file ptr c)).goto t (.execStore pid ptr) :=
    ⟨_, rfl⟩
  rw [← hs₁] at hforked ⊢
  obtain ⟨c₁, hc₁⟩ : ∃ c₁, s₁.heap ptr = some c₁ := by
    rw [hs₁]
    exact ⟨_, Function.update_self _ _ _⟩
  have hsem₁ : s₁.bmsem = s.bmsem := by rw [hs₁]; rfl
  obtain ⟨s₂, hv⟩ : ∃ s₂, (s₁.onTable (·.setPcb ptr { c₁ with pid := pid })).vCall ptr .mutex =
      some s₂ := by
    simp [ProcState.vCall, ProcState.onTable, ProcTable.setPcb]
  have hstored : RunsAt s₂ t caller (.execStore pid ptr) := by
    simp only [ProcState.vCall, Option.bind_eq_bind, Option.bind_eq_some_iff, Option.pure_def,
      Option.some.injEq] at hv
    obtain ⟨c₂, -, rfl⟩ := hv
    apply RunsAt.wake
    exact ⟨hforked.running, hforked.awake, hforked.at_pc⟩
  have hstore : s₁.resume t caller garbage (.execStore pid ptr) =
      some (some (s₂.goto t (.execRelease pid))) := by
    simp [ProcState.resume, ProcState.execStore, hc₁, hv]
  rw [runToReturn_step hforked (by simp) hstore]
  -- and the call gives `bmsem` back
  have hrelease : (s₂.goto t (.execRelease pid)).resume t caller garbage (.execRelease pid) =
      some (some ((s₂.goto t (.execRelease pid)).bmsemV t pid)) := rfl
  rw [runToReturn_step (hstored.goto _) (by simp) hrelease,
    runToReturn_return ((hstored.goto _).bmsemV _)]
  refine ⟨_, rfl, ?_⟩
  rw [value_bmsemV]
  show s₂.bmsem.value + 1#32 = _
  rw [bmsem_vCall hv]
  show s₁.bmsem.value + 1#32 = _
  rw [hsem₁]

end Steps

/-! ## The search for the caller -/

theorem getFileName_setPc {s : ProcTable} {t : ThreadId} {thr : Thread} {pc : Pc}
    (hat : s.threads t = some thr) (hlive : thr.pc ≠ .finished) (hpc : pc ≠ .finished) (ptr : ℕ) :
    (s.setPc t pc).getFileName ptr = s.getFileName ptr := by
  unfold ProcTable.getFileName
  refine Option.bind_congr fun c _ => Option.bind_congr fun u _ => ?_
  by_cases hu : u = t
  · subst hu
    simp [ProcTable.setPc, hat, hlive, hpc]
  · simp only [ProcTable.setPc, Function.update_of_ne hu]

theorem callerFound_setPc {s : ProcTable} {t : ThreadId} {thr : Thread} {pc : Pc}
    (hat : s.threads t = some thr) (hlive : thr.pc ≠ .finished) (hpc : pc ≠ .finished)
    (name : String) : CallerFound (s.setPc t pc) name ↔ CallerFound s name := by
  have hfile := getFileName_setPc hat hlive hpc
  constructor
  · rintro ⟨hnamed, hfound⟩
    simp only [hfile] at hnamed hfound
    exact ⟨hnamed, hfound⟩
  · rintro ⟨hnamed, hfound⟩
    refine ⟨?_, ?_⟩
    · simp only [hfile]
      exact hnamed
    · simp only [hfile]
      exact hfound

/-- INTERNAL: **what the part of a call after `bmsem->P()` leaves.**
SRCLINE: threads/ptable.cc:23-66 -/
theorem runToReturn_execScan {s : ProcState} {t : ThreadId} {caller : String}
    {name : Option String} {opens : Bool} (garbage : ℤ)
    (h : RunsAt s t caller (.execScan name opens)) (hne : t ≠ s.next)
    (hnamed : ∀ i < maxProcess, ∀ ptr, s.pcb i = some ptr → ∃ file, s.getFileName ptr = some file) :
    ∃ result s', runToReturn t garbage 5 s = some (result, s') ∧
      s'.bmsem.value = s.bmsem.value + 1#32 ∧
      ((result = -1 → s'.bm = s.bm ∧ s'.pcb = s.pcb) ↔
        ∀ file pid, ReachesSearch s.toProcTable caller name opens file pid →
          CallerFound s.toProcTable caller) := by
  obtain ⟨index, hscan⟩ : ∃ index, s.scan caller = some index :=
    scanFrom_total maxProcess 0 none fun j _ hj => hnamed j (by omega)
  have hresume : s.resume t caller garbage (.execScan name opens) =
      some (s.execScanWith (s.scan caller) t caller name opens garbage) := rfl
  rcases execScanWith_cases s (s.scan caller) t caller name opens garbage with ⟨hnone, hrun⟩ |
    ⟨file, pid, hreach, hrun⟩
  · -- refused before the search: the table has not been touched
    rw [hrun] at hresume
    refine ⟨-1, s.bmsemV t (-1), ?_, value_bmsemV s t (-1), ?_⟩
    · rw [runToReturn_step h (by simp) hresume, runToReturn_return (h.bmsemV (-1))]
    · rw [toProcTable_bmsemV]
      exact ⟨fun _ file pid hreach => absurd hreach (hnone file pid), fun _ _ => ⟨rfl, rfl⟩⟩
  · have hcond : (∀ file pid, ReachesSearch s.toProcTable caller name opens file pid →
        CallerFound s.toProcTable caller) ↔ s.currentID index ≠ -1 := by
      rw [callerFound_iff, hscan]
      simp only [Option.some.injEq, exists_eq_left']
      exact ⟨fun hfound => hfound file pid hreach, fun hid _ _ _ => hid⟩
    rw [hscan, Option.bind_some] at hrun
    rw [hcond]
    rw [hscan] at hresume
    by_cases hid : s.currentID index = -1
    · -- nobody has the caller's name: the bit that `Find` marked stays
      rw [hrun, if_pos hid] at hresume
      have hmarked : RunsAt (s.onTable fun r => { r with bm := setBit s.bm pid }) t caller
          (.execScan name opens) := ⟨h.running, h.awake, h.at_pc⟩
      refine ⟨-1, (s.onTable fun r => { r with bm := setBit s.bm pid }).bmsemV t (-1), ?_,
        value_bmsemV _ t (-1), ?_⟩
      · rw [runToReturn_step h (by simp) hresume, runToReturn_return (hmarked.bmsemV (-1))]
      · refine ⟨fun hkept => ?_, fun hne => absurd hid hne⟩
        have hbm := (hkept rfl).1
        rw [toProcTable_bmsemV] at hbm
        have hbit : isSet (setBit s.bm pid) pid = isSet s.bm pid := congrArg (isSet · pid) hbm
        rw [hreach.2.2.2.2] at hbit
        simp at hbit
    · -- the caller is known: the slot is filled and the call succeeds
      rw [hrun, if_neg hid] at hresume
      have hnew : (s.publish t pid (s.currentID index) garbage (setBit s.bm pid)).heap s.next =
          some (PCB.new (s.currentID index) t garbage) := Function.update_self _ _ _
      have hmutex : ((PCB.new (s.currentID index) t garbage).sem .mutex).value ≠ 0#32 := by
        show (1#32 : BitVec 32) ≠ 0#32
        decide
      rw [pTest_pass t _ _ hnew hmutex] at hresume
      have hpublished : RunsAt ((s.onTable (·.publish t pid (s.currentID index) garbage
          (setBit s.bm pid))).onTable (·.setPcb s.next
            ((PCB.new (s.currentID index) t garbage).setSem .mutex
              (((PCB.new (s.currentID index) t garbage).sem .mutex).p t).1))) t caller
          (.execScan name opens) := ⟨h.running, h.awake, h.at_pc⟩
      obtain ⟨s', hs', hvalue⟩ := runToReturn_execFork garbage
        (hpublished.goto (.execFork file pid s.next)) hne (Function.update_self _ _ _) (by
          simp [PCB.setSem, PCB.new, hid])
      refine ⟨pid, s', ?_, hvalue, ?_⟩
      · rw [runToReturn_step h (by simp) hresume, hs']
      · exact ⟨fun _ => hid, fun _ hone => by omega⟩

/-- SOURCE: threads/ptable.cc:20-66, userprog/bitmap.cc:94-103, threads/pcb.cc:40-59 — on every table
whose bitmap and array agree, with `bmsem` free and whatever the name of the current thread and the
argument, a call of `ExecUpdate` returns and gives `bmsem` back; and it leaves the bitmap and the
array as they were when it returns -1, exactly if a call that comes to the search has its caller in
the table. -/
theorem refused_exec_restores_iff_caller_found (s : ProcState) (t : ThreadId) (caller : String)
    (name : Option String) (opens : Bool) (garbage : ℤ) (hagrees : Agrees s.toProcTable)
    (hfree : s.bmsem.value ≠ 0#32) (hcaller : RunsAt s t caller .user) :
    ∃ result s', execUpdate s t name opens garbage = some (result, s') ∧
      s'.bmsem.value = s.bmsem.value ∧
      ((result = -1 → s'.bm = s.bm ∧ s'.pcb = s.pcb) ↔
        ∀ file, name = some file → opens = true → caller ≠ file →
          (∃ i < maxProcess, s.pcb i = none) → CallerFound s.toProcTable caller) := by
  obtain ⟨s₁, hs₁⟩ : ∃ s₁, s₁ = { s with bmsem := (s.bmsem.p t).1 }.goto t (.execScan name opens) :=
    ⟨_, rfl⟩
  have hp : s.bmsem.p t = ({ s.bmsem with value := s.bmsem.value - 1#32 }, true) := by
    simp [Semaphore.p, hfree]
  have hstep : s.step (.exec t name opens) = some s₁ := by
    rw [hs₁]
    simp [ProcState.step, ProcEvent.thread, hcaller.running, hcaller.awake, hcaller.at_pc,
      ProcState.act, ProcState.bmsemTest, hp]
  have hruns : RunsAt s₁ t caller (.execScan name opens) := by
    have hentered : RunsAt { s with bmsem := (s.bmsem.p t).1 } t caller .user :=
      ⟨hcaller.running, hcaller.awake, hcaller.at_pc⟩
    rw [hs₁]
    exact hentered.goto _
  have htable : s₁.toProcTable = s.toProcTable.setPc t (.execScan name opens) := by rw [hs₁]; rfl
  have hne : t ≠ s₁.next := by
    intro heq
    have hnext : s₁.next = s.next := by rw [hs₁]; rfl
    have hat := hcaller.at_pc
    rw [heq, hnext, hagrees.fresh] at hat
    cases hat
  have hnamed : ∀ i < maxProcess, ∀ ptr, s₁.pcb i = some ptr →
      ∃ file, s₁.getFileName ptr = some file := by
    rw [htable]
    intro i hi ptr hptr
    rw [getFileName_setPc hcaller.at_pc (by simp) (by simp)]
    exact hagrees.named i hi ptr hptr
  obtain ⟨result, s', hrun, hvalue, hkept⟩ := runToReturn_execScan garbage hruns hne hnamed
  refine ⟨result, s', ?_, ?_, ?_⟩
  · rw [execUpdate, hstep, Option.bind_some, hrun]
  · have hvalue₁ : s₁.bmsem.value = s.bmsem.value - 1#32 := by
      rw [hs₁, hp]
      rfl
    rw [hvalue, hvalue₁, BitVec.sub_add_cancel]
  · rw [htable, callerFound_setPc hcaller.at_pc (by simp) (by simp)] at hkept
    refine Iff.trans hkept ⟨fun hsound file hname hopens hself hslot => ?_,
      fun hsound file pid hreach => ?_⟩
    · -- a slot with no `PCB` has its bit clear
      obtain ⟨i, hi, hnone⟩ := hslot
      refine hsound file i ⟨hname, hopens, hself, ?_, ?_⟩
      · exact hagrees.numBits.symm ▸ hi
      · have hclear : isSet s.bm i = false := by
          simpa using mt (hagrees.agree i hi).mp (by simp [hnone])
        exact hclear
    · obtain ⟨hname, hopens, hself, hpid, hclear⟩ := hreach
      have hlt : pid < maxProcess := hagrees.numBits ▸ hpid
      refine hsound file hname hopens hself ⟨pid, hlt, ?_⟩
      by_contra hptr
      obtain ⟨ptr, hptr⟩ := Option.ne_none_iff_exists'.mp hptr
      have hset := (hagrees.agree pid hlt).mpr ⟨ptr, hptr⟩
      have hclear' : isSet s.bm pid = false := hclear
      rw [hset] at hclear'
      cases hclear'

/-- The table with the boot process alone, and a thread that is not in it. -/
def bootWith (caller : String) : ProcState where
  pcb := fun i => if i = 0 then some 0 else none
  heap := fun p => if p = 0 then some (PCB.new (-1) 0 0) else none
  bm := ⟨maxProcess, fun _ => 1#32⟩
  threads := fun t =>
    if t = 0 then some ⟨"main", .user⟩ else if t = 7 then some ⟨caller, .user⟩ else none
  next := 8
  creator := fun _ => 0
  exited := fun _ => none
  bmsem := Semaphore.new "Bitmap semaphore" 1#32
  asleep := fun _ => false
  status := .running

theorem agrees_bootWith (caller : String) : Agrees (bootWith caller).toProcTable where
  numBits := rfl
  agree := by
    intro i hi
    have hbits : ∀ i < maxProcess, isSet ⟨maxProcess, fun _ => 1#32⟩ i = decide (i = 0) := by decide
    simp [bootWith, hbits i hi]
  named := by
    intro i _ ptr hptr
    simp only [bootWith, Option.ite_none_right_eq_some, Option.some.injEq] at hptr
    obtain ⟨-, rfl⟩ := hptr
    exact ⟨"main", by simp [ProcTable.getFileName, bootWith, PCB.new]⟩
  fresh := rfl

/-- A thread of the boot process's name is found, and its call is in order. -/
theorem exec_by_main_is_clean :
    ∃ result s', execUpdate (bootWith "main") 7 (some "matmult") true 0 = some (result, s') ∧
      s'.bmsem.value = 1#32 ∧
      (result = -1 → s'.bm = (bootWith "main").bm ∧ s'.pcb = (bootWith "main").pcb) := by
  obtain ⟨result, s', hrun, hvalue, hkept⟩ := refused_exec_restores_iff_caller_found
    (bootWith "main") 7 "main" (some "matmult") true 0 (agrees_bootWith "main") (by decide)
    ⟨rfl, rfl, rfl⟩
  refine ⟨result, s', hrun, hvalue, hkept.mpr fun _ _ _ _ _ => ?_⟩
  refine ⟨(agrees_bootWith "main").named, 0, by decide, 0, PCB.new (-1) 0 0, rfl, ?_, rfl,
    by decide, ?_⟩
  · simp [ProcTable.getFileName, bootWith, PCB.new]
  · intro j hj _ q hq
    simp [bootWith, show j ≠ 0 by omega] at hq

/-- Nobody in the table is called "shell". The call returns -1, and slot 1 stays marked. -/
theorem unknown_caller_leaks_slot :
    Agrees (bootWith "shell").toProcTable ∧ (bootWith "shell").bmsem.value = 1#32 ∧
    ∃ s', execUpdate (bootWith "shell") 7 (some "matmult") true 0 = some (-1, s') ∧
      isSet (bootWith "shell").bm 1 = false ∧ isSet s'.bm 1 = true := by
  exact ⟨agrees_bootWith "shell", rfl, _, rfl, by decide, by decide⟩

end Nachos.Analysis
