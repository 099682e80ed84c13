import Nachos.Analysis.LoadedImage
import Nachos.Analysis.UserSteps

/-!
# What becomes of an `Exec`

`ExecUpdate` checks that the file opens and gives the child a slot and a thread; it returns the
child's number before anything is loaded. The program is loaded later, by the child itself, in
`StartProcess_2`. Nothing there can refuse: the constructor of `AddrSpace` asserts the magic
number, leaves the object as it is when the file does not open, and an empty page table when the
pages are not there, and `StartProcess_2` jumps into the program in every case.

The first part says when the first instruction of what the constructor has loaded can be fetched
(`fetch_of_table`). The second part says when `ExecUpdate` refuses without a
trace or makes a child (`execScan_cases`). The theorem puts the two together for every run.
-/

set_option autoImplicit false

namespace Nachos.Analysis

open Nachos.Library Nachos.Model

variable {s : ProcState} {t : ThreadId} {name self : String} {ptr : ℕ} {x : PCBSem} {thr : Thread}
  {file : Option Executable} {uninit : AddrSpace} {c : PCB}

/-! ## The first instruction -/

theorem fetch_of_table {a : AddrSpace} {b b' : BitMap} (htakes : TakesFrames b a b')
    (hbits : b.numBits = numPhysPages) (hvalid : ∀ e ∈ a.pageTable, e.valid = true)
    (hpos : 0 < a.numPages) (mem : Memory) :
    ∃ r, Machine.readMem ⟨mem, none, some a.pageTable⟩ 0#32 4 = some (.ok r) := by
  have hentry : a.pageTable[(0#32).toNat / pageSize]? = some (a.pageTable.get ⟨0, hpos⟩) :=
    List.getElem?_eq_getElem hpos
  obtain ⟨f, hf, hframe⟩ := htakes.frame hbits (List.mem_of_getElem? hentry)
  obtain ⟨table', htr⟩ := translate_of_entry mem 0#32 (Or.inr (Or.inr rfl)) rfl hentry
    (hvalid _ (List.mem_of_getElem? hentry)) hframe hf
  unfold Machine.readMem
  rw [htr]
  exact ⟨_, rfl⟩

theorem fetch_of_empty (mem : Memory) :
    Machine.readMem ⟨mem, none, some []⟩ 0#32 4 = some (.error .addressErrorException) := rfl

/-! ## Starting the child -/

/-- The current thread has entered its program in the space `a`, loaded from `executable`: the
space has all the pages the image needs, on frames that were free, the segments are in place,
and the rest of memory is as it was. -/
structure Loaded (s : UserState) (executable : Executable) (a : AddrSpace) (s' : UserState) :
    Prop where
  space : s'.space s.currentThread = .live a
  installed : s'.pageTable = some s.currentThread
  pages : a.numPages = divRoundUp (AddrSpace.headerSize executable.noffH) pageSize
  frames : TakesFrames s.gPhysPageBitMap a s'.gPhysPageBitMap
  copied : AddrSpace.copySegments executable a.pageTable (a.pageTable.foldl
    (fun mem e => mem.bzero (e.physicalPage * pageSize) pageSize) s.mainMemory) =
      some s'.mainMemory
  others : Set.EqOn s'.mainMemory s.mainMemory (frameBytes a.frames)ᶜ

/-- The file opens when the child loads it, is a NOFF image, and its pages are free then. -/
def Loadable (s : UserState) (file : Option Executable) : Prop :=
  ∃ executable, file = some executable ∧ executable.noffH.noffMagic = noffMagicNumber ∧
    divRoundUp (AddrSpace.headerSize executable.noffH) pageSize ≤
      (clearSet s.gPhysPageBitMap).card

/-- A NOFF image is laid out as the loader assumes. -/
def Suited (file : Option Executable) : Prop :=
  ∀ executable, file = some executable → executable.noffH.noffMagic = noffMagicNumber →
    WellFormed executable.noffH ∧ InFile executable.noffH

theorem numPages_pos {noffH : NoffHeader} (h : WellFormed noffH) :
    0 < divRoundUp (AddrSpace.headerSize noffH) pageSize := by
  have hsize := headerSize_of_wellFormed h
  have hcode := h.code
  have hdata := h.initData
  have huninit := h.uninitData
  rw [divRoundUp_pageSize]
  omega

theorem startProcess2_of_loadable {s : UserState} (uninit : AddrSpace)
    (hbits : s.gPhysPageBitMap.numBits = numPhysPages) (hsuited : Suited file) (h : Loadable s file) :
    ∃ s' executable a, s.startProcess2 file uninit = some s' ∧
      s'.status = s.status ∧ file = some executable ∧ Loaded s executable a s' := by
  obtain ⟨executable, rfl, hmagic, hfit⟩ := h
  obtain ⟨hwf, hin⟩ := hsuited executable rfl hmagic
  obtain ⟨a, b, mem, hnew, hpages, hvalid⟩ :=
    newFilename_fits uninit s.mainMemory hmagic hfit hwf hin
  have hpos : 0 < a.numPages := hpages ▸ numPages_pos hwf
  obtain ⟨r, hfetch⟩ := fetch_of_table (takesFrames_newFilename hnew) hbits hvalid hpos mem
  refine ⟨started s a b mem, executable, a,
    startProcess2_eq_some.mpr ⟨a, b, mem, r, hnew, hfetch, rfl⟩, rfl, rfl, ?_⟩
  rcases newFilename_cases hnew with ⟨rfl, -, -⟩ | ⟨htakes, hcopied⟩
  · exact absurd hpos (Nat.lt_irrefl 0)
  · exact ⟨Function.update_self _ _ _, rfl, hpages, htakes, hcopied, eqOn_newFilename hwf hnew⟩

theorem loadable_of_startProcess2 {s s' : UserState} {executable : Executable}
    (h : s.startProcess2 (some executable) uninit = some s') : Loadable s (some executable) := by
  obtain ⟨space, b, mem, r, hnew, hfetch, -⟩ := startProcess2_eq_some.mp h
  unfold AddrSpace.newFilename at hnew
  simp only [numClear_eq, Option.bind_eq_bind, Option.bind_some] at hnew
  split at hnew
  · cases hnew
  · next hmagic =>
    split at hnew
    · cases hnew
      rw [fetch_of_empty] at hfetch
      cases hfetch
    · next hfit => exact ⟨executable, rfl, not_not.mp hmagic, Nat.le_of_not_lt hfit⟩

theorem start_cases {s s' : UserState} (h : s.step (.startProcess2 file uninit) = some s') :
    s.status = .running ∧ s' = (s.startProcess2 file uninit).getD s.abort := by
  unfold UserState.step at h
  split at h
  · next hrunning =>
    dsimp only at h
    cases hmode : s.mode s.currentThread <;> rw [hmode] at h <;>
      simp only [UserState.act, reduceCtorEq, Option.some.injEq] at h
    exact ⟨hrunning, h.symm⟩
  · cases h

/-- INTERNAL: **a child runs, in a space that has been loaded, exactly when its file can be
loaded.**
SRCLINE: threads/pcb.cc:25-38 -/
theorem start_iff {s s' : UserState} (hbits : s.gPhysPageBitMap.numBits = numPhysPages)
    (hsuited : Suited file) (h : s.step (.startProcess2 file uninit) = some s') :
    (s'.status = .running ∧ ∃ executable a, file = some executable ∧ Loaded s executable a s') ↔
      Loadable s file := by
  obtain ⟨hrunning, rfl⟩ := start_cases h
  constructor
  · rintro ⟨hstatus, executable, a, rfl, -⟩
    cases hstart : s.startProcess2 (some executable) uninit with
    | none =>
      rw [hstart] at hstatus
      cases hstatus
    | some s₁ => exact loadable_of_startProcess2 hstart
  · intro hload
    obtain ⟨s₁, executable, a, hstart, hstatus, hfile, hloaded⟩ :=
      startProcess2_of_loadable uninit hbits hsuited hload
    rw [hstart]
    exact ⟨hstatus.trans hrunning, executable, a, hfile, hloaded⟩

/-! ## The search of `ExecUpdate` -/

/-- The search of an `Exec` called under `name` comes to its end, and the last process of that
name in the table has a number. -/
structure CallerFound (s : ProcTable) (name : String) : Prop where
  named : ∀ i < maxProcess, ∀ ptr, s.pcb i = some ptr → ∃ file, s.getFileName ptr = some file
  found : ∃ i < maxProcess, ∃ ptr c, s.pcb i = some ptr ∧ s.getFileName ptr = some name ∧
    s.heap ptr = some c ∧ c.pid ≠ -1 ∧
      ∀ j, i < j → j < maxProcess → ∀ q, s.pcb j = some q → s.getFileName q ≠ some name

/-- INTERNAL: the search ends at the last slot with the name. -/
theorem scanFrom_last {s : ProcTable} (n : ℕ) :
    ∀ (i : ℕ) (acc r : Option ℕ), s.scanFrom name i n acc = some r →
      ∀ j, i ≤ j → j < i + n → ∀ ptr, s.pcb j = some ptr → s.getFileName ptr = some name →
        ∃ k, r = some k ∧ j ≤ k := by
  induction n with
  | zero =>
    intro i acc r _ j h1 h2
    omega
  | succ n ih =>
    intro i acc r h j h1 h2 ptr hj hfile
    rw [ProcTable.scanFrom] at h
    rcases Nat.eq_or_lt_of_le h1 with rfl | hlt
    · simp only [hj, Option.bind_eq_bind, hfile, Option.bind_some, if_true] at h
      obtain ⟨-, ⟨rfl, -⟩ | ⟨k, hk, -, rfl, -⟩⟩ := scanFrom_spec n (i + 1) _ r h
      · exact ⟨i, rfl, le_rfl⟩
      · exact ⟨k, rfl, by omega⟩
    · cases hp : s.pcb i with
      | none =>
        simp only [hp] at h
        exact ih (i + 1) acc r h j hlt (by omega) ptr hj hfile
      | some q =>
        simp only [hp, Option.bind_eq_bind, Option.bind_eq_some_iff] at h
        obtain ⟨file, -, h⟩ := h
        exact ih (i + 1) _ r h j hlt (by omega) ptr hj hfile

theorem deref_of_slot {s : ProcTable} {i ptr : ℕ} (hlt : i < maxProcess)
    (hslot : s.pcb i = some ptr) : s.deref (i : ℤ) = s.heap ptr := by
  simp [ProcTable.deref, ProcTable.pcbAt, hlt, hslot]

theorem currentID_of_deref {s : ProcTable} {i : ℕ} (h : s.deref (i : ℤ) = some c) :
    s.currentID (some i) = c.pid := by
  unfold ProcTable.currentID
  dsimp only
  rw [h]

/-- INTERNAL: **when an `Exec` knows its caller.**
SRCLINE: threads/ptable.cc:46-53 -/
theorem callerFound_iff {s : ProcTable} :
    CallerFound s name ↔ ∃ index, s.scan name = some index ∧ s.currentID index ≠ -1 := by
  constructor
  · rintro ⟨hnamed, i, hi, ptr, c, hslot, hfile, hc, hpid, hlater⟩
    obtain ⟨index, hscan⟩ : ∃ index, s.scan name = some index :=
      scanFrom_total maxProcess 0 none fun j _ hj => hnamed j (by omega)
    obtain ⟨k, rfl, hik⟩ := scanFrom_last maxProcess 0 none index hscan i (by omega) (by omega) ptr
      hslot hfile
    obtain ⟨hk, q, hq, hname⟩ := (scanned_of_scan hscan).found k rfl
    rw [← getFileName_eq] at hname
    obtain rfl : k = i := by
      by_contra hne
      exact hlater k (by omega) hk q hq hname
    refine ⟨_, hscan, ?_⟩
    rw [currentID_of_deref ((deref_of_slot hi hslot).trans hc)]
    exact hpid
  · rintro ⟨index, hscan, hid⟩
    have hscanned := scanned_of_scan hscan
    cases index with
    | none => exact absurd rfl hid
    | some i =>
      obtain ⟨hi, ptr, hslot, hname⟩ := hscanned.found i rfl
      rw [← getFileName_eq] at hname
      have hnamed := hscanned.named
      simp only [← getFileName_eq] at hnamed
      have hderef := deref_of_slot hi hslot
      cases hc : s.heap ptr with
      | none =>
        rw [ProcTable.getFileName, hc] at hname
        cases hname
      | some c =>
        rw [currentID_of_deref (hderef.trans hc)] at hid
        refine ⟨hnamed, i, hi, ptr, c, hslot, hname, hc, hid, fun j hij hj q hq hq' => ?_⟩
        obtain ⟨k, hk, hjk⟩ := scanFrom_last maxProcess 0 none _ hscan j (by omega) (by omega) q
          hq hq'
        obtain rfl := Option.some.inj hk
        omega

/-! ## The steps of `ExecUpdate` -/

/-- The slots, the `PCB`s and the bitmap are as they were. -/
structure SlotsKept (s s' : ProcTable) : Prop where
  pcb : s'.pcb = s.pcb
  heap : s'.heap = s.heap
  bm : s'.bm = s.bm

theorem status_wake (s : ProcState) (woken : Option ThreadId) :
    (s.wake woken).status = s.status := by
  cases woken <;> rfl

theorem status_pTest {s s' : ProcState} {passed waiting : Pc}
    (h : s.pTest t ptr x passed waiting = some s') : s'.status = s.status := by
  simp only [ProcState.pTest, Option.bind_eq_bind, Option.bind_eq_some_iff, Option.pure_def,
    Option.some.injEq] at h
  obtain ⟨c, -, rfl⟩ := h
  split <;> rfl

theorem status_vCall {s s' : ProcState} (h : s.vCall ptr x = some s') : s'.status = s.status := by
  simp only [ProcState.vCall, Option.bind_eq_bind, Option.bind_eq_some_iff, Option.pure_def,
    Option.some.injEq] at h
  obtain ⟨c, -, rfl⟩ := h
  rw [status_wake]
  rfl

theorem status_bmsemV (s : ProcState) (t : ThreadId) (result : ℤ) :
    (s.bmsemV t result).status = s.status :=
  status_wake _ _

theorem toProcTable_bmsemV (s : ProcState) (t : ThreadId) (result : ℤ) :
    (s.bmsemV t result).toProcTable = s.toProcTable.setPc t (.execReturn result) := by
  simp only [ProcState.bmsemV, ProcState.goto, ProcState.onTable, toProcTable_wake]

theorem pc_setPc {s : ProcTable} (h : s.threads t = some thr) (pc : Pc) :
    ((s.setPc t pc).threads t).map Thread.pc = some pc := by
  simp [ProcTable.setPc, h]

theorem pTest_pass (t : ThreadId) (passed waiting : Pc) (hc : s.heap ptr = some c)
    (hx : (c.sem x).value ≠ 0#32) :
    s.pTest t ptr x passed waiting =
      some ((s.onTable (·.setPcb ptr (c.setSem x ((c.sem x).p t).1))).goto t passed) := by
  simp [ProcState.pTest, hc, Semaphore.p, hx]

/-- What `ExecUpdate` may do once it has `bmsem`: refuse and leave the table as it was, or go on
to fill a slot. -/
def ScanOutcome (s p : ProcTable) (t : ThreadId) : Prop :=
  ((p.threads t).map Thread.pc = some (.execReturn (-1)) ∧ SlotsKept s p) ∨
    ∃ name pid ptr, (p.threads t).map Thread.pc = some (.execFork name pid ptr) ∧
      p.pcb pid = some ptr

theorem scanOutcome_bmsemV (h : s.threads t = some thr) :
    ScanOutcome s.toProcTable (s.bmsemV t (-1)).toProcTable t := by
  refine Or.inl ⟨?_, ?_⟩
  · rw [toProcTable_bmsemV]
    exact pc_setPc h _
  · rw [toProcTable_bmsemV]
    exact ⟨rfl, rfl, rfl⟩

/-- INTERNAL: **`ExecUpdate` refuses without a trace or goes on to make a child, exactly when it
is refused before the search or the search finds the caller.** A search that finds no caller
leaves a bit marked.
SRCLINE: threads/ptable.cc:23-56 -/
theorem execScan_iff {name : Option String} {opens : Bool} (garbage : ℤ)
    (hat : s.threads t = some ⟨self, .execScan name opens⟩) :
    (∃ p, s.execScan t self name opens garbage = some p ∧ p.status = s.status ∧
        ScanOutcome s.toProcTable p.toProcTable t) ↔
      (∀ file, name = some file → opens = true → self ≠ file →
        (∃ i < s.bm.numBits, isSet s.bm i = false) → CallerFound s.toProcTable self) := by
  unfold ProcState.execScan
  rcases execScanWith_cases s (s.scan self) t self name opens garbage with ⟨hnone, hrun⟩ |
    ⟨file, pid, ⟨rfl, rfl, hself, hpid, hfree⟩, hrun⟩
  · rw [hrun]
    refine ⟨fun _ file hname hopens hne ⟨i, hi, hclear⟩ => ?_, fun _ => ?_⟩
    · exact absurd ⟨hname, hopens, hne, hi, hclear⟩ (hnone file i)
    · exact ⟨_, rfl, status_bmsemV s t (-1), scanOutcome_bmsemV hat⟩
  · -- there is a free slot, and the outcome depends on the search
    have hcond : (∀ file', some file = some file' → true = true → self ≠ file' →
        (∃ i < s.bm.numBits, isSet s.bm i = false) → CallerFound s.toProcTable self) ↔
        ∃ index, s.scan self = some index ∧ s.currentID index ≠ -1 := by
      rw [← callerFound_iff]
      constructor
      · exact fun h => h file rfl rfl hself ⟨pid, hpid, hfree⟩
      · exact fun h _ _ _ _ _ => h
    rw [hcond, hrun]
    cases hscan : s.scan self with
    | none => simp
    | some index =>
      simp only [Option.bind_some, Option.some.injEq, exists_eq_left']
      by_cases hid : s.currentID index = -1
      · rw [if_pos hid]
        refine ⟨?_, fun h => absurd hid h⟩
        rintro ⟨p, hp, -, hout⟩
        rw [Option.some.injEq] at hp
        subst hp
        have hpc : ((((s.onTable fun r => { r with bm := setBit s.bm pid }).bmsemV t (-1)).threads
            t).map Thread.pc) = some (.execReturn (-1)) := by
          rw [toProcTable_bmsemV]
          exact pc_setPc (s := { s.toProcTable with bm := setBit s.bm pid }) hat _
        rcases hout with ⟨-, hkept⟩ | ⟨name, pid', ptr, hfork, -⟩
        · have hbm := hkept.bm
          rw [toProcTable_bmsemV] at hbm
          have hbit : isSet (setBit s.bm pid) pid = isSet s.bm pid := congrArg (isSet · pid) hbm
          simp [hfree] at hbit
        · rw [hpc] at hfork
          cases hfork
      · rw [if_neg hid]
        refine ⟨fun _ => hid, fun _ => ?_⟩
        have hnew : (s.publish t pid (s.currentID index) garbage (setBit s.bm pid)).heap s.next =
            some (PCB.new (s.currentID index) t garbage) := Function.update_self _ _ _
        have hmutex : ((PCB.new (s.currentID index) t garbage).sem .mutex).value ≠ 0#32 := by
          show (1#32 : BitVec 32) ≠ 0#32
          decide
        rw [pTest_pass t _ _ hnew hmutex]
        exact ⟨_, rfl, rfl, Or.inr ⟨file, pid, s.next, pc_setPc hat _, Function.update_self _ _ _⟩⟩

theorem procStep_cases {s p : ProcState} {e : ProcEvent} (h : s.step e = some p) :
    s.status = .running ∧ ∃ thr r, s.threads e.thread = some thr ∧ s.act thr e = some r ∧
      p = r.getD s.crash := by
  simp only [ProcState.step, Option.ite_none_right_eq_some, Option.bind_eq_bind,
    Option.bind_eq_some_iff, Option.pure_def, Option.some.injEq] at h
  obtain ⟨⟨hrunning, -⟩, thr, hthr, r, hact, rfl⟩ := h
  exact ⟨hrunning, thr, r, hthr, hact, rfl⟩

theorem tableCall_of_kept {s s' : UserState} {pe : ProcEvent} (h : s.tableCall pe = some s')
    (hkept : UserState.destroyedThread s.toProcState pe = none) :
    ∃ p, s.toProcState.step pe = some p ∧
      ((p.status = .running ∧ (p.threads s.currentThread).map Thread.pc = some .user ∧
          s' = UserState.returnResult { s with toProcState := p }
            (UserState.tableResult ((s.threads s.currentThread).map Thread.pc))) ∨
        (¬ (p.status = .running ∧ (p.threads s.currentThread).map Thread.pc = some .user) ∧
          s' = { s with toProcState := p })) := by
  obtain ⟨s₁, hstep, h⟩ := Option.map_eq_some_iff.mp h
  obtain ⟨p, hp, hs₁⟩ := Option.map_eq_some_iff.mp hstep
  rw [hkept] at hs₁
  subst hs₁
  refine ⟨p, hp, ?_⟩
  dsimp only at h
  split at h
  · next hback => exact Or.inl ⟨hback.1, hback.2, h.symm⟩
  · next hback => exact Or.inr ⟨hback, h.symm⟩

/-! ## What an `Exec` promises -/

/-- One step of a thread that is at `pc` inside `ExecUpdate`: the kernel does not abort, a call
that is refused leaves the table as it was, and one that is not makes the thread of the child. -/
def ExecUpdateSafe (s s' : UserState) : Pc → Prop
  | .execP _ _ | .execMutex _ _ _ | .execStore _ _ | .execRelease _ => s'.status = .running
  | .execScan _ _ => s'.status = .running ∧
      ScanOutcome s.toProcTable s'.toProcTable s.currentThread
  | .execFork name _ ptr => s'.status = .running ∧ s'.threads ptr = some ⟨name, .user⟩ ∧
      s'.mode ptr = .starting
  | .execReturn result => s'.status = .running ∧ s'.mode s.currentThread = .user ∧
      s'.registers.result = BitVec.ofInt 32 result
  | .execFail _ => False
  | _ => True

/-- What an `Exec` promises of a step that leads to `s'`: the call returns `-1` and leaves the
process table as it was, or starts a child; the child does not make the kernel abort, and
executes its first instruction in a space that has been loaded. -/
def ExecOutcome (s s' : UserState) : UserEvent → Prop
  | .exec _ _ _ => s'.status = .running ∧ SlotsKept s.toProcTable s'.toProcTable ∧
      (s'.mode s.currentThread = .user → s'.registers.result = BitVec.ofInt 32 (-1))
  | .resume _ => ∀ thr, s.threads s.currentThread = some thr → ExecUpdateSafe s s' thr.pc
  | .startProcess2 file _ => s'.status = .running ∧
      ∃ executable a, file = some executable ∧ Loaded s executable a s'
  | _ => True

def ExecSafe (s : UserState) (e : UserEvent) : Prop :=
  ∀ s', s.step e = some s' → ExecOutcome s s' e

/-- What `ExecUpdate` needs at `pc`, called by a thread with the name `self`: a search that finds
the caller, and the `PCB` it is filling. -/
def ExecUpdateSound (s : ProcTable) (self : String) : Pc → Prop
  | .execScan name opens => ∀ file, name = some file → opens = true → self ≠ file →
      (∃ i < s.bm.numBits, isSet s.bm i = false) → CallerFound s self
  | .execMutex _ _ ptr | .execFork _ _ ptr | .execStore _ ptr => ∃ c, s.heap ptr = some c
  | _ => True

/-- `ExecUpdate` finds its caller and the `PCB` it fills in, and a child's file can be loaded. -/
def ExecSound (s : UserState) : UserEvent → Prop
  | .resume _ => ∀ thr, s.threads s.currentThread = some thr →
      ExecUpdateSound s.toProcTable thr.name thr.pc
  | .startProcess2 file _ => Loadable s file
  | _ => True

/-- The NOFF images that are loaded are laid out as the loader assumes. -/
def SuitedFiles (_ : UserState) : UserEvent → Prop
  | .startProcess2 file _ => Suited file
  | _ => True

/-! ## Step by step -/

theorem bmsemTest_cases (s : ProcState) (t : ThreadId) (name : Option String) (opens : Bool) :
    ∃ pc, (pc = .execScan name opens ∨ pc = .execP name opens) ∧
      (s.bmsemTest t name opens).toProcTable = s.toProcTable.setPc t pc ∧
      (s.bmsemTest t name opens).status = s.status := by
  unfold ProcState.bmsemTest
  dsimp only
  split
  · exact ⟨_, Or.inl rfl, rfl, rfl⟩
  · exact ⟨_, Or.inr rfl, rfl, rfl⟩

theorem result_returnResult (s : UserState) (value : ℤ) :
    (s.returnResult value).registers.result = BitVec.ofInt 32 value := by
  simp [UserState.returnResult, UserState.return_, Registers.writeResult, Registers.increasePC,
    Registers.result]

/-- INTERNAL: `SC_Exec` refuses a file that does not open, or waits for the table; it never
touches a slot. -/
theorem execSafe_exec (s : UserState) (name : Option String) (opens opens' : Bool) :
    ExecSafe s (.exec name opens opens') := by
  intro s' h
  unfold UserState.step at h
  split at h
  · next hrunning =>
    dsimp only at h
    cases hmode : s.mode s.currentThread with
    | starting => rw [hmode] at h; cases h
    | user => rw [hmode] at h; cases h
    | system call =>
      rw [hmode] at h
      cases call <;> simp only [UserState.act, reduceCtorEq, Option.ite_none_right_eq_some] at h
      obtain ⟨-, h⟩ := h
      split at h
      · cases h
        exact ⟨hrunning, ⟨rfl, rfl, rfl⟩, fun _ => result_returnResult s (-1)⟩
      · obtain ⟨p, hp, hback⟩ := tableCall_of_kept h rfl
        obtain ⟨-, thr, r, hthr, hact, rfl⟩ := procStep_cases hp
        simp only [ProcState.act, Option.ite_none_right_eq_some, Option.some.injEq] at hact
        obtain ⟨-, rfl⟩ := hact
        obtain ⟨pc, hpc, htable, hstatus⟩ :=
          bmsemTest_cases s.toProcState s.currentThread name opens'
        have hkept : SlotsKept s.toProcTable
            (s.bmsemTest s.currentThread name opens').toProcTable := by
          rw [htable]
          exact ⟨rfl, rfl, rfl⟩
        rw [Option.getD_some] at hback
        obtain ⟨-, huser, -⟩ | ⟨-, rfl⟩ := hback
        · change s.threads s.currentThread = some thr at hthr
          rw [htable, pc_setPc hthr, Option.some.injEq] at huser
          rcases hpc with rfl | rfl <;> cases huser
        · refine ⟨hstatus.trans hrunning, hkept, fun hu => ?_⟩
          rw [hmode] at hu
          cases hu
  · cases h

/-- INTERNAL: a thread inside `ExecUpdate` runs on in the table. -/
theorem resume_cases {s s' : UserState} {garbage : ℤ} (h : s.step (.resume garbage) = some s')
    (hthr : s.threads s.currentThread = some thr)
    (hkept : UserState.destroyedThread s.toProcState (.resume s.currentThread garbage) = none) :
    s.status = .running ∧ ∃ r,
      s.toProcState.resume s.currentThread thr.name garbage thr.pc = some r ∧
      s'.toProcTable = (r.getD s.crash).toProcTable ∧ s'.status = (r.getD s.crash).status ∧
      ∀ t, t ≠ s.currentThread → s'.mode t = s.mode t := by
  unfold UserState.step at h
  split at h
  · next hrunning =>
    refine ⟨hrunning, ?_⟩
    dsimp only at h
    cases hmode : s.mode s.currentThread <;> rw [hmode] at h <;>
      simp only [UserState.act, reduceCtorEq] at h
    obtain ⟨p, hp, hback⟩ := tableCall_of_kept h hkept
    obtain ⟨-, thr', r, hthr', hact, rfl⟩ := procStep_cases hp
    obtain rfl : thr = thr' := Option.some.inj (hthr.symm.trans hthr')
    refine ⟨r, hact, ?_⟩
    obtain ⟨-, -, rfl⟩ | ⟨-, rfl⟩ := hback
    · exact ⟨rfl, rfl, fun t ht => Function.update_of_ne ht _ _⟩
    · exact ⟨rfl, rfl, fun _ _ => rfl⟩
  · cases h

/-- A step of the process table goes on running unless it follows a bad pointer. -/
theorem running_iff {r : Option ProcState} {P : ProcTable → Prop} :
    ((r.getD s.crash).status = .running ∧ P (r.getD s.crash).toProcTable) ↔
      ∃ p, r = some p ∧ p.status = .running ∧ P p.toProcTable := by
  cases r with
  | none => simp [ProcState.crash]
  | some p => simp

theorem pTest_iff (hrunning : s.status = .running) {passed waiting : Pc} :
    ((s.pTest t ptr x passed waiting).getD s.crash).status = .running ↔
      ∃ c, s.heap ptr = some c := by
  cases hc : s.heap ptr with
  | none => simp [ProcState.pTest, hc, ProcState.crash]
  | some c =>
    have hsome : ∃ p, s.pTest t ptr x passed waiting = some p := by simp [ProcState.pTest, hc]
    obtain ⟨p, hp⟩ := hsome
    rw [hp]
    exact ⟨fun _ => ⟨c, rfl⟩, fun _ => (status_pTest hp).trans hrunning⟩

theorem execStore_iff (hrunning : s.status = .running) {pid ptr : ℕ} :
    ((s.execStore t pid ptr).getD s.crash).status = .running ↔ ∃ c, s.heap ptr = some c := by
  cases hc : s.heap ptr with
  | none => simp [ProcState.execStore, hc, ProcState.crash]
  | some c =>
    have hsome : ∃ p, (s.onTable (·.setPcb ptr { c with pid := pid })).vCall ptr .mutex = some p := by
      simp [ProcState.vCall, ProcState.onTable, ProcTable.setPcb]
    obtain ⟨p, hp⟩ := hsome
    have hstore : s.execStore t pid ptr = some (p.goto t (.execRelease pid)) := by
      simp only [ProcState.execStore, hc, Option.bind_eq_bind, Option.bind_some, hp, Option.pure_def]
    rw [hstore]
    exact ⟨fun _ => ⟨c, rfl⟩, fun _ => (status_vCall hp).trans hrunning⟩

theorem exists_execFork (hinv : TableInv (viewOf s.toProcTable)) {pid ptr : ℕ}
    (hat : s.threads t = some ⟨self, .execFork name pid ptr⟩) (hc : s.heap ptr = some c) :
    ∃ p, s.execFork t name pid ptr = some p ∧ p.status = s.status ∧
      p.threads ptr = some ⟨name, .user⟩ ∧ s.threads ptr = none := by
  have hnone : c.thread = none := hinv.thread_eq_none hat (ident_viewOf hc)
  obtain ⟨-, -, -, hpre⟩ := hinv.filling t pid ptr false ⟨_, hat, rfl⟩
  have hptr : s.threads ptr = none := hpre rfl
  have htp : ptr ≠ t := by
    rintro rfl
    rw [hptr] at hat
    cases hat
  refine ⟨(s.onTable (·.fork name ptr c)).goto t (.execStore pid ptr), ?_, rfl, ?_, hptr⟩
  · simp [ProcState.execFork, hc, hnone]
  · exact (Function.update_of_ne htp _ _).trans (Function.update_self _ _ _)

/-- INTERNAL: the call returns what `ExecUpdate` has returned. -/
theorem execReturn_safe {s s' : UserState} {garbage result : ℤ}
    (h : s.step (.resume garbage) = some s')
    (hthr : s.threads s.currentThread = some ⟨self, .execReturn result⟩) :
    ExecUpdateSafe s s' (.execReturn result) := by
  unfold UserState.step at h
  split at h
  · next hrunning =>
    dsimp only at h
    cases hmode : s.mode s.currentThread <;> rw [hmode] at h <;>
      simp only [UserState.act, reduceCtorEq] at h
    obtain ⟨p, hp, hback⟩ := tableCall_of_kept h (by simp [UserState.destroyedThread, hthr])
    obtain ⟨-, thr, r, hthr', hact, rfl⟩ := procStep_cases hp
    obtain rfl : thr = ⟨self, .execReturn result⟩ := Option.some.inj (hthr'.symm.trans hthr)
    obtain rfl := Option.some.inj hact
    have huser : ((s.goto s.currentThread .user).threads s.currentThread).map Thread.pc =
        some .user := pc_setPc hthr _
    obtain ⟨-, -, rfl⟩ | ⟨hno, -⟩ := hback
    · refine ⟨hrunning, Function.update_self _ _ _, ?_⟩
      rw [result_returnResult, hthr]
      rfl
    · exact absurd ⟨hrunning, huser⟩ hno
  · cases h

/-- INTERNAL: **a step of `ExecUpdate` is safe exactly when it finds what it needs.**
SRCLINE: threads/ptable.cc:20-66, threads/pcb.cc:40-59 -/
theorem execUpdate_iff {s s' : UserState} {garbage : ℤ} (hinv : KernelInv s)
    (h : s.step (.resume garbage) = some s') (hthr : s.threads s.currentThread = some thr) :
    ExecUpdateSafe s s' thr.pc ↔ ExecUpdateSound s.toProcTable thr.name thr.pc := by
  obtain ⟨self, pc⟩ := thr
  have hresume := fun hkept => resume_cases h hthr hkept
  simp only [UserState.destroyedThread, hthr, Option.map_some] at hresume
  cases pc with
  | execP name opens =>
    obtain ⟨hrunning, r, hr, -, hstatus, -⟩ := hresume rfl
    obtain rfl := Option.some.inj hr
    obtain ⟨-, -, -, hs⟩ := bmsemTest_cases s.toProcState s.currentThread name opens
    exact ⟨fun _ => trivial, fun _ => hstatus.trans (hs.trans hrunning)⟩
  | execScan name opens =>
    obtain ⟨hrunning, r, hr, htable, hstatus, -⟩ := hresume rfl
    obtain rfl := Option.some.inj hr
    simp only [ExecUpdateSafe, ExecUpdateSound]
    rw [← execScan_iff garbage hthr, htable, hstatus, hrunning]
    exact running_iff (P := fun p => ScanOutcome s.toProcTable p s.currentThread)
  | execMutex name pid ptr =>
    obtain ⟨hrunning, r, hr, -, hstatus, -⟩ := hresume rfl
    obtain rfl := Option.some.inj hr
    simp only [ExecUpdateSafe, ExecUpdateSound]
    rw [hstatus, pTest_iff hrunning]
  | execFork name pid ptr =>
    obtain ⟨hrunning, r, hr, htable, hstatus, hmode⟩ := hresume rfl
    obtain rfl := Option.some.inj hr
    constructor
    · rintro ⟨hsafe, -, -⟩
      cases hc : s.heap ptr with
      | none =>
        rw [hstatus, ProcState.execFork, hc] at hsafe
        cases hsafe
      | some c => exact ⟨c, hc⟩
    · rintro ⟨c, hc⟩
      obtain ⟨p, hp, hpstatus, hchild, hnew⟩ := exists_execFork hinv.table hthr hc
      rw [hp, Option.getD_some] at htable hstatus
      refine ⟨hstatus.trans (hpstatus.trans hrunning), by rw [htable]; exact hchild, ?_⟩
      have hne : ptr ≠ s.currentThread := by
        rintro rfl
        rw [hthr] at hnew
        cases hnew
      rw [hmode ptr hne]
      by_contra hstarting
      obtain ⟨thr, hthr⟩ := hinv.born ptr hstarting
      rw [hnew] at hthr
      cases hthr
  | execStore pid ptr =>
    obtain ⟨hrunning, r, hr, -, hstatus, -⟩ := hresume rfl
    obtain rfl := Option.some.inj hr
    simp only [ExecUpdateSafe, ExecUpdateSound]
    rw [hstatus, execStore_iff hrunning]
  | execFail pid => exact absurd rfl (hinv.table.noFail _ _ pid hthr)
  | execRelease pid =>
    obtain ⟨hrunning, r, hr, -, hstatus, -⟩ := hresume rfl
    obtain rfl := Option.some.inj hr
    exact ⟨fun _ => trivial, fun _ => hstatus.trans ((status_bmsemV _ _ _).trans hrunning)⟩
  | execReturn result => exact ⟨fun _ => trivial, fun _ => execReturn_safe h hthr⟩
  | _ => exact Iff.rfl

theorem execSafe_iff {s s' : UserState} {e : UserEvent} (hinv : KernelInv s)
    (hsuited : SuitedFiles s e) (h : s.step e = some s') : ExecSafe s e ↔ ExecSound s e := by
  have hout : ExecOutcome s s' e ↔ ExecSound s e := by
    cases e with
    | exec name opens opens' => exact ⟨fun _ => trivial, fun _ => execSafe_exec s _ _ _ s' h⟩
    | resume garbage =>
      exact forall_congr' fun thr => forall_congr' fun hthr => execUpdate_iff hinv h hthr
    | startProcess2 file uninit => exact start_iff hinv.bits hsuited h
    | _ => exact Iff.rfl
  refine ⟨fun hsafe => hout.mp (hsafe s' h), fun hsound s'' h'' => ?_⟩
  obtain rfl := Option.some.inj (h.symm.trans h'')
  exact hout.mpr hsound

/-! ## Runs -/

/-- SOURCE: userprog/exception.cc:353-383, threads/ptable.cc:20-66, threads/pcb.cc:25-59,
userprog/addrspace.cc:123-210 — **in every run an `Exec` either returns `-1` and leaves the
process table as it was or starts a child that runs in a loaded space, exactly when every search
of `ExecUpdate` finds its caller and every child finds a file that opens, is a NOFF image and
fits in the free pages.** -/
theorem exec_refuses_or_loads {words frames : ℕ → BitVec 32} {executable : Executable}
    {mem : Memory} {garbage : ThreadId → Registers} {s₀ : UserState}
    (hboot : UserState.boot words frames executable mem garbage = some s₀) {es : List UserEvent}
    (hes : Meets UserState.step SuitedFiles s₀ es) :
    Meets UserState.step ExecSafe s₀ es ↔ Meets UserState.step ExecSound s₀ es := by
  refine meets_congr_of_meets (I := KernelInv) ?_ ?_ (kernelInv_boot hboot) hes
  · intro s e s' hinv hsuited hs'
    exact execSafe_iff hinv hsuited hs'
  · intro s e s' hinv hs'
    exact hinv.step hs'

/-- Registers with which a program calls `type` with the argument `arg`. -/
def callRegisters (type arg : BitVec 32) : Registers :=
  { AddrSpace.initRegisters ⟨[]⟩ with
    gp := fun i => if i.val = 2 then type else if i.val = 4 then arg else 0#32 }

/-- The current thread calls `Exec(name)`, the file opens both times, and the call runs to its end
without losing the processor. -/
def undisturbedExec (name : String) : List UserEvent :=
  [.oneInstruction (callRegisters 15#32 0#32) (fun _ => 0#8), .syscall,
    .exec (some name) true true] ++ List.replicate 5 (.resume 0)

/-- An image with code, data and uninitialised data. -/
def smallImage : Executable :=
  ⟨⟨noffMagicNumber, ⟨0, 40, 8⟩, ⟨8, 48, 4⟩, ⟨12, 0, 4⟩⟩, List.replicate 52 1#8⟩

theorem suited_smallImage : Suited (some smallImage) := by
  rintro executable ⟨⟩ -
  exact ⟨⟨by decide, by decide, by decide, by decide, rfl⟩, ⟨by decide, by decide⟩⟩

/-- SOURCE: threads/pcb.cc:25-38 — the boot process executes an image with all three segments, and
the child starts. -/
theorem exec_refuses_or_loads_small_image :
    ∃ s₀, UserState.boot (fun _ => 0#32) (fun _ => 0#32) emptyImage (fun _ => 0#8)
        (fun _ => callRegisters 0#32 0#32) = some s₀ ∧
      (Meets UserState.step ExecSafe s₀
          (undisturbedExec "A" ++ [.run 1, .startProcess2 (some smallImage) ⟨[]⟩]) ↔
        Meets UserState.step ExecSound s₀
          (undisturbedExec "A" ++ [.run 1, .startProcess2 (some smallImage) ⟨[]⟩])) ∧
      (run UserState.step s₀
        (undisturbedExec "A" ++ [.run 1, .startProcess2 (some smallImage) ⟨[]⟩])).map
          (fun s => (s.status, s.pageTable)) = some (.running, some 1) := by
  obtain ⟨p, hp⟩ : ∃ p, ProcState.boot (fun _ => 0#32) = some p := ⟨_, rfl⟩
  obtain ⟨space, b, mem, -, -, hboot⟩ := exists_boot hp (fun _ => 0#32) (fun _ => 0#8)
    (fun _ => callRegisters 0#32 0#32)
  have hrun : (UserState.boot (fun _ => 0#32) (fun _ => 0#32) emptyImage (fun _ => 0#8)
      (fun _ => callRegisters 0#32 0#32)).bind (fun s₀ => (run UserState.step s₀
        (undisturbedExec "A" ++ [.run 1, .startProcess2 (some smallImage) ⟨[]⟩])).map
          (fun s => (s.status, s.pageTable))) = some (.running, some 1) := by decide +kernel
  rw [hboot, Option.bind_some] at hrun
  refine ⟨_, hboot, exec_refuses_or_loads hboot (meets_of_forall (fun s e he => ?_) _), hrun⟩
  simp only [undisturbedExec, List.replicate, List.cons_append, List.nil_append, List.mem_cons,
    List.not_mem_nil, or_false] at he
  rcases he with rfl | rfl | rfl | rfl | rfl | rfl | rfl | rfl | rfl | rfl
  all_goals first | exact suited_smallImage | trivial

/-- A file that opens and is no NOFF image. -/
def textFile : Executable := ⟨⟨0#32, ⟨0, 0, 0⟩, ⟨0, 0, 0⟩, ⟨0, 0, 0⟩⟩, []⟩

/-- SOURCE: userprog/addrspace.cc:138-142, threads/pcb.cc:28 — the boot process executes a file
that opens and is no NOFF image. `Exec` returns the number of the child, and when the child gets
the processor the kernel aborts. -/
theorem exec_of_text_file_aborts :
    ∃ s₀, UserState.boot (fun _ => 0#32) (fun _ => 0#32) emptyImage (fun _ => 0#8)
        (fun _ => callRegisters 0#32 0#32) = some s₀ ∧
      ¬ Meets UserState.step ExecSafe s₀
        ((undisturbedExec "A" ++ [.run 1]) ++ [.startProcess2 (some textFile) ⟨[]⟩]) := by
  have hrun : ((UserState.boot (fun _ => 0#32) (fun _ => 0#32) emptyImage (fun _ => 0#8)
      (fun _ => callRegisters 0#32 0#32)).bind fun s₀ => run UserState.step s₀
        ((undisturbedExec "A" ++ [.run 1]) ++ [.startProcess2 (some textFile) ⟨[]⟩])).map
          (fun s => s.status) = some .crashed := by decide +kernel
  obtain ⟨s, hs, hcrashed⟩ := Option.map_eq_some_iff.mp hrun
  obtain ⟨s₀, hboot, hs⟩ := Option.bind_eq_some_iff.mp hs
  obtain ⟨u, hu, hs⟩ := run_append_eq_some.mp hs
  obtain ⟨s', hstep, hs⟩ := run_cons_eq_some.mp hs
  obtain rfl := Option.some.inj hs
  refine ⟨s₀, hboot, fun h => ?_⟩
  have hsafe := ((h.of_append hu).2 s' hstep).1 s' hstep
  rw [hsafe.1] at hcrashed
  cases hcrashed

end Nachos.Analysis
