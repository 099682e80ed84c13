import Mathlib.Tactic
import Nachos.Model.ProcessTable
import Nachos.Analysis.BitMapSet
import Nachos.Analysis.SemaphoreRuns

/-!
# What one step can do to the process table

The results about the process table do not depend on who sleeps in which queue, on
`bmsem`, on the mutex of a `PCB` or on `numwait`. `TableView` is the table without them:
the slots, what identifies each `PCB`, the values of its two signalling semaphores, its
exit code, and where every thread is. `ViewStep` lists the ways a view can change, one
constructor for each stretch of code between two places where a thread can lose the
processor, and `viewStep_of_step` says that there are no others. The invariants of the
later modules are proved against this list and never unfold the calls themselves.

A woken thread tests its semaphore again before it goes on, so a view does not need to
know who has been woken: a thread that waits may run at any time and then either passes
or waits on.
-/

set_option autoImplicit false

namespace Nachos.Analysis

open Nachos.Model

variable {s s' : ProcState} {t u : ThreadId} {pid ptr : ℕ} {name self : String} {garbage : ℤ}
  {thr : Thread} {c : PCB} {pc : Pc} {e : ProcEvent}

/-! ## Updates of a table of pointers -/

section Updates

variable {α : Type} {f : ℕ → Option α} {k i : ℕ} {new x y : α}

theorem update_some_cases (h : Function.update f k (some new) i = some x) :
    (i = k ∧ x = new) ∨ (i ≠ k ∧ f i = some x) := by
  by_cases hi : i = k
  · rw [hi, Function.update_self, Option.some.injEq] at h
    exact Or.inl ⟨hi, h.symm⟩
  · rw [Function.update_of_ne hi] at h
    exact Or.inr ⟨hi, h⟩

theorem update_none_cases (h : Function.update f k none i = some x) : i ≠ k ∧ f i = some x := by
  have hi : i ≠ k := by
    rintro rfl
    rw [Function.update_self] at h
    cases h
  exact ⟨hi, by rwa [Function.update_of_ne hi] at h⟩

theorem eq_none_of_update_some (h : Function.update f k (some new) i = none) : f i = none := by
  have hi : i ≠ k := by
    rintro rfl
    rw [Function.update_self] at h
    cases h
  rwa [Function.update_of_ne hi] at h

theorem update_some_of_some (new : α) (hnone : f k = none) (h : f i = some x) :
    Function.update f k (some new) i = some x := by
  rw [Function.update_of_ne, h]
  rintro rfl
  rw [hnone] at h
  cases h

theorem update_none_of_ne (hk : f k = some x) (hne : y ≠ x) (h : f i = some y) :
    Function.update f k none i = some y := by
  rw [Function.update_of_ne, h]
  rintro rfl
  rw [hk, Option.some.injEq] at h
  exact hne h.symm

end Updates

/-! ## The view of a table -/

/-- The fields of a `PCB` that say whose it is. -/
structure Ident where
  thread : Option ThreadId
  pid : ℤ
  parentID : ℤ

def identOf (c : PCB) : Ident := ⟨c.thread, c.pid, c.parentID⟩

/-- The process table up to the waiting queues. `join`, `exit` and `code` are the values of
`joinsem` and `exitsem` and the exit code of a `PCB`, `0` for one that does not exist. -/
@[ext]
structure TableView where
  pcb : ℕ → Option ℕ
  ident : ℕ → Option Ident
  join : ℕ → BitVec 32
  exit : ℕ → BitVec 32
  code : ℕ → ℤ
  bm : BitMap
  threads : ThreadId → Option Thread
  next : ℕ
  creator : ThreadId → ThreadId
  exited : ThreadId → Option ℤ

/-- INTERNAL: the view of a table.
SRCLINE: threads/ptable.h:9-14, threads/pcb.h:7-16 -/
def viewOf (s : ProcTable) : TableView where
  pcb := s.pcb
  ident p := (s.heap p).map identOf
  join p := ((s.heap p).map fun c => c.joinsem.value).getD 0#32
  exit p := ((s.heap p).map fun c => c.exitsem.value).getD 0#32
  code p := ((s.heap p).map fun c => c.exitcode).getD 0
  bm := s.bm
  threads := s.threads
  next := s.next
  creator := s.creator
  exited := s.exited

namespace TableView

def setPc (v : TableView) (t : ThreadId) (pc : Pc) : TableView :=
  { v with threads := Function.update v.threads t ((v.threads t).map fun thr => { thr with pc := pc }) }

def setSem (v : TableView) (ptr : ℕ) : PCBSem → BitVec 32 → TableView
  | .joinsem, w => { v with join := Function.update v.join ptr w }
  | .exitsem, w => { v with exit := Function.update v.exit ptr w }
  | .mutex, _ => v

/-- `pcb[i]` in a view. -/
def pcbAt (v : TableView) (i : ℤ) : Option ℕ :=
  if 0 ≤ i ∧ i < maxProcess then v.pcb i.toNat else none

/-- `PCB::GetFileName` in a view. -/
def fileName (v : TableView) (ptr : ℕ) : Option String := do
  let k ← v.ident ptr
  let t ← k.thread
  let thr ← v.threads t
  if thr.pc = .finished then none else some thr.name

/-- `currentID` in a view. -/
def currentID (v : TableView) (index : Option ℕ) : ℤ :=
  match index with
  | none => -1
  | some i =>
    match (v.pcbAt i).bind v.ident with
    | none => -1
    | some k => k.pid

/-- A new `PCB` in slot `pid`. -/
def publish (v : TableView) (t : ThreadId) (pid : ℕ) (currentID garbage : ℤ) : TableView :=
  { v with
    pcb := Function.update v.pcb pid (some v.next)
    ident := Function.update v.ident v.next (some ⟨none, garbage, currentID⟩)
    join := Function.update v.join v.next 0#32
    exit := Function.update v.exit v.next 0#32
    code := Function.update v.code v.next 0
    bm := setBit v.bm pid
    next := v.next + 1
    creator := Function.update v.creator v.next t }

/-- The thread of the `PCB` `ptr`. -/
def fork (v : TableView) (name : String) (ptr : ℕ) (k : Ident) : TableView :=
  { v with
    ident := Function.update v.ident ptr (some { k with thread := some ptr })
    threads := Function.update v.threads ptr (some ⟨name, .user⟩) }

/-- The `PCB` `ptr` is deleted. -/
def delete (v : TableView) (ptr : ℕ) : TableView :=
  { v with
    ident := Function.update v.ident ptr none
    join := Function.update v.join ptr 0#32
    exit := Function.update v.exit ptr 0#32
    code := Function.update v.code ptr 0 }

/-- The `PCB` `ptr` is deleted and its slot `pid` emptied. -/
def remove (v : TableView) (pid ptr : ℕ) (bm : BitMap) : TableView :=
  { v.delete ptr with pcb := Function.update v.pcb pid none, bm := bm }

theorem threads_setPc {v : TableView} (h : v.threads t = some thr) (pc : Pc) :
    (v.setPc t pc).threads = Function.update v.threads t (some ⟨thr.name, pc⟩) := by
  simp [setPc, h]

theorem threads_fork_of_some {v : TableView} (h : v.threads t = some thr)
    (hptr : v.threads ptr = none) (name : String) (k : Ident) :
    (v.fork name ptr k).threads t = some thr :=
  update_some_of_some _ hptr h

end TableView

theorem threads_setPc_eq_some {v : TableView} {thr a : Thread} (hat : v.threads t = some thr)
    (h : (v.setPc t pc).threads u = some a) :
    (u = t ∧ a = ⟨thr.name, pc⟩) ∨ (u ≠ t ∧ v.threads u = some a) := by
  rw [TableView.threads_setPc hat] at h
  exact update_some_cases h

theorem threads_setPc_self {v : TableView} (pc : Pc) (hat : v.threads t = some thr) :
    (v.setPc t pc).threads t = some ⟨thr.name, pc⟩ := by
  rw [TableView.threads_setPc hat, Function.update_self]

theorem threads_setPc_of_ne {v : TableView} (pc : Pc) (hu : u ≠ t) :
    (v.setPc t pc).threads u = v.threads u := by
  simp only [TableView.setPc, Function.update_of_ne hu]

theorem threads_setPc_eq_none {v : TableView} (h : (v.setPc t pc).threads u = none) :
    v.threads u = none := by
  by_cases hu : u = t
  · subst hu
    simpa [TableView.setPc] using h
  · rwa [threads_setPc_of_ne pc hu] at h

theorem viewOf_setPc (s : ProcTable) (t : ThreadId) (pc : Pc) :
    viewOf (s.setPc t pc) = (viewOf s).setPc t pc := rfl

theorem pcbAt_viewOf (s : ProcTable) (i : ℤ) : (viewOf s).pcbAt i = s.pcbAt i := rfl

theorem ident_viewOf {s : ProcTable} (h : s.heap ptr = some c) :
    (viewOf s).ident ptr = some (identOf c) := by
  simp [viewOf, h]

theorem exists_heap_of_ident {s : ProcTable} {k : Ident} (h : (viewOf s).ident ptr = some k) :
    ∃ c, s.heap ptr = some c ∧ identOf c = k := by
  simpa [viewOf] using h

theorem join_viewOf {s : ProcTable} (h : s.heap ptr = some c) :
    (viewOf s).join ptr = c.joinsem.value := by
  simp [viewOf, h]

theorem exit_viewOf {s : ProcTable} (h : s.heap ptr = some c) :
    (viewOf s).exit ptr = c.exitsem.value := by
  simp [viewOf, h]

theorem code_viewOf {s : ProcTable} (h : s.heap ptr = some c) :
    (viewOf s).code ptr = c.exitcode := by
  simp [viewOf, h]

theorem getFileName_eq (s : ProcTable) (ptr : ℕ) :
    s.getFileName ptr = (viewOf s).fileName ptr := by
  unfold ProcTable.getFileName TableView.fileName
  cases h : s.heap ptr <;> simp [viewOf, h, identOf]

theorem currentID_eq (s : ProcTable) (index : Option ℕ) :
    s.currentID index = (viewOf s).currentID index := by
  cases index with
  | none => rfl
  | some i =>
    have hderef : (s.deref i).map identOf = ((viewOf s).pcbAt i).bind (viewOf s).ident := by
      rw [ProcTable.deref, pcbAt_viewOf, Option.map_bind]
      rfl
    unfold ProcTable.currentID TableView.currentID
    dsimp only
    rw [← hderef]
    cases s.deref i <;> rfl

theorem viewOf_setPcb (s : ProcTable) (ptr : ℕ) (c : PCB) :
    viewOf (s.setPcb ptr c) =
      { viewOf s with
        ident := Function.update (viewOf s).ident ptr (some (identOf c))
        join := Function.update (viewOf s).join ptr c.joinsem.value
        exit := Function.update (viewOf s).exit ptr c.exitsem.value
        code := Function.update (viewOf s).code ptr c.exitcode } := by
  ext1 <;> try rfl
  all_goals
    funext p
    by_cases hp : p = ptr
    · subst hp
      simp [viewOf, ProcTable.setPcb]
    · simp [viewOf, ProcTable.setPcb, hp]

theorem viewOf_setPcb_of_same {s : ProcTable} {c c' : PCB} (h : s.heap ptr = some c)
    (hi : identOf c' = identOf c) (hj : c'.joinsem.value = c.joinsem.value)
    (he : c'.exitsem.value = c.exitsem.value) (hc : c'.exitcode = c.exitcode) :
    viewOf (s.setPcb ptr c') = viewOf s := by
  rw [viewOf_setPcb, hi, hj, he, hc, ← ident_viewOf h, ← join_viewOf h, ← exit_viewOf h,
    ← code_viewOf h]
  simp only [Function.update_eq_self]

theorem viewOf_setPcb_setSem {s : ProcTable} (h : s.heap ptr = some c) (x : PCBSem)
    (sem : Semaphore) :
    viewOf (s.setPcb ptr (c.setSem x sem)) = (viewOf s).setSem ptr x sem.value := by
  cases x with
  | joinsem =>
    rw [viewOf_setPcb]
    simp only [PCB.setSem, TableView.setSem]
    rw [show identOf { c with joinsem := sem } = identOf c from rfl, ← ident_viewOf h,
      ← exit_viewOf h, ← code_viewOf h]
    simp only [Function.update_eq_self]
  | exitsem =>
    rw [viewOf_setPcb]
    simp only [PCB.setSem, TableView.setSem]
    rw [show identOf { c with exitsem := sem } = identOf c from rfl, ← ident_viewOf h,
      ← join_viewOf h, ← code_viewOf h]
    simp only [Function.update_eq_self]
  | mutex => exact viewOf_setPcb_of_same h rfl rfl rfl rfl

theorem viewOf_publish (s : ProcTable) (t : ThreadId) (pid : ℕ) (garbage : ℤ) {currentID : ℤ}
    (h : currentID ≠ -1) :
    viewOf (s.publish t pid currentID garbage (setBit s.bm pid)) =
      (viewOf s).publish t pid currentID garbage := by
  ext1 <;> try rfl
  all_goals
    funext p
    by_cases hp : p = s.next
    · subst hp
      simp [viewOf, ProcTable.publish, TableView.publish, identOf, PCB.new, Semaphore.new, h]
    · simp [viewOf, ProcTable.publish, TableView.publish, hp]

theorem viewOf_fork (s : ProcTable) (name : String) (h : s.heap ptr = some c) :
    viewOf (s.fork name ptr c) = (viewOf s).fork name ptr (identOf c) := by
  ext1 <;> try rfl
  all_goals
    funext p
    by_cases hp : p = ptr
    · subst hp
      simp [viewOf, ProcTable.fork, TableView.fork, identOf, h]
    · simp [viewOf, ProcTable.fork, TableView.fork, hp]

theorem viewOf_delete (s : ProcTable) (ptr : ℕ) :
    viewOf { s with heap := Function.update s.heap ptr none } = (viewOf s).delete ptr := by
  ext1 <;> try rfl
  all_goals
    funext p
    by_cases hp : p = ptr
    · subst hp
      simp [viewOf, TableView.delete]
    · simp [viewOf, TableView.delete, hp]

/-! ## The search -/

/-- INTERNAL: the search for `name` came to the end of the table with `index`: every slot in
use has a file name, and `index` is a slot with the name searched for unless there is none.
SRCLINE: threads/ptable.cc:47-49 -/
structure Scanned (v : TableView) (name : String) (index : Option ℕ) : Prop where
  named : ∀ i < maxProcess, ∀ ptr, v.pcb i = some ptr → ∃ file, v.fileName ptr = some file
  found : ∀ i, index = some i →
    i < maxProcess ∧ ∃ ptr, v.pcb i = some ptr ∧ v.fileName ptr = some name
  missed : index = none → ∀ i < maxProcess, ∀ ptr, v.pcb i = some ptr → v.fileName ptr ≠ some name

/-- INTERNAL: the loop from slot `i` on keeps the index it has or finds a later one. -/
theorem scanFrom_spec {s : ProcTable} (n : ℕ) :
    ∀ (i : ℕ) (acc r : Option ℕ), s.scanFrom name i n acc = some r →
      (∀ j, i ≤ j → j < i + n → ∀ ptr, s.pcb j = some ptr →
        ∃ file, s.getFileName ptr = some file) ∧
      ((r = acc ∧ ∀ j, i ≤ j → j < i + n → ∀ ptr, s.pcb j = some ptr →
          s.getFileName ptr ≠ some name) ∨
        ∃ j, i ≤ j ∧ j < i + n ∧ r = some j ∧
          ∃ ptr, s.pcb j = some ptr ∧ s.getFileName ptr = some name) := by
  induction n with
  | zero =>
    intro i acc r h
    simp only [ProcTable.scanFrom, Option.some.injEq] at h
    refine ⟨fun j h1 h2 => ?_, Or.inl ⟨h.symm, fun j h1 h2 => ?_⟩⟩ <;> omega
  | succ n ih =>
    intro i acc r h
    rw [ProcTable.scanFrom] at h
    cases hp : s.pcb i with
    | none =>
      simp only [hp] at h
      obtain ⟨hnamed, hr⟩ := ih (i + 1) acc r h
      refine ⟨fun j h1 h2 ptr hj => ?_, ?_⟩
      · rcases Nat.eq_or_lt_of_le h1 with rfl | hlt
        · simp [hp] at hj
        · exact hnamed j hlt (by omega) ptr hj
      · rcases hr with ⟨hr, hno⟩ | ⟨j, h1, h2, hr, hj⟩
        · refine Or.inl ⟨hr, fun j h1 h2 ptr hj => ?_⟩
          rcases Nat.eq_or_lt_of_le h1 with rfl | hlt
          · simp [hp] at hj
          · exact hno j hlt (by omega) ptr hj
        · exact Or.inr ⟨j, by omega, by omega, hr, hj⟩
    | some q =>
      simp only [hp, Option.bind_eq_bind, Option.bind_eq_some_iff] at h
      obtain ⟨file, hfile, h⟩ := h
      obtain ⟨hnamed, hr⟩ := ih (i + 1) _ r h
      refine ⟨fun j h1 h2 ptr hj => ?_, ?_⟩
      · rcases Nat.eq_or_lt_of_le h1 with rfl | hlt
        · rw [hp, Option.some.injEq] at hj
          exact ⟨file, hj ▸ hfile⟩
        · exact hnamed j hlt (by omega) ptr hj
      · rcases hr with ⟨hr, hno⟩ | ⟨j, h1, h2, hr, hj⟩
        · by_cases hn : name = file
          · subst hn
            exact Or.inr ⟨i, by omega, by omega, by simpa using hr, q, hp, hfile⟩
          · refine Or.inl ⟨by simpa [hn] using hr, fun j h1 h2 ptr hj => ?_⟩
            rcases Nat.eq_or_lt_of_le h1 with rfl | hlt
            · rw [hp, Option.some.injEq] at hj
              rw [← hj, hfile]
              exact fun h => hn (Option.some.inj h).symm
            · exact hno j hlt (by omega) ptr hj
        · exact Or.inr ⟨j, by omega, by omega, hr, hj⟩

theorem scanned_of_scan {s : ProcTable} {index : Option ℕ} (h : s.scan name = some index) :
    Scanned (viewOf s) name index := by
  obtain ⟨hnamed, hr⟩ := scanFrom_spec maxProcess 0 none index h
  simp only [getFileName_eq] at hnamed hr
  refine ⟨fun i hi => hnamed i (by omega) (by omega), fun i hi => ?_, fun hnone i hlt => ?_⟩
  · rcases hr with ⟨hr, -⟩ | ⟨j, -, hlt, hr, hj⟩
    · rw [hr] at hi
      cases hi
    · rw [hr, Option.some.injEq] at hi
      subst hi
      exact ⟨by omega, hj⟩
  · rcases hr with ⟨-, hno⟩ | ⟨j, -, -, hr, -⟩
    · exact hno i (by omega) (by omega)
    · rw [hr] at hnone
      cases hnone

theorem scanFrom_total {s : ProcTable} (n : ℕ) :
    ∀ (i : ℕ) (acc : Option ℕ),
      (∀ j, i ≤ j → j < i + n → ∀ ptr, s.pcb j = some ptr → ∃ file, s.getFileName ptr = some file) →
      ∃ r, s.scanFrom name i n acc = some r := by
  induction n with
  | zero => exact fun i acc _ => ⟨acc, rfl⟩
  | succ n ih =>
    intro i acc h
    rw [ProcTable.scanFrom]
    cases hp : s.pcb i with
    | none => exact ih (i + 1) acc fun j h1 h2 => h j (by omega) (by omega)
    | some ptr =>
      obtain ⟨file, hfile⟩ := h i le_rfl (by omega) ptr hp
      obtain ⟨r, hr⟩ := ih (i + 1) (if name = file then some i else acc)
        fun j h1 h2 => h j (by omega) (by omega)
      exact ⟨r, by simp [hfile, hr]⟩

theorem scan_total (s : ProcTable) (name : String)
    (h : ∀ i ptr, s.pcb i = some ptr → ∃ file, s.getFileName ptr = some file) :
    ∃ index, s.scan name = some index :=
  scanFrom_total maxProcess 0 none fun i _ _ => h i

/-! ## Places in the calls -/

/-- The places at which a thread holds no slot number and no pointer into the table that it
will still use. -/
def Plain : Pc → Prop
  | .user | .execP _ _ | .execScan _ _ | .execRelease _ | .execReturn _ | .joinReturn _ => True
  | _ => False

/-- The slot and the `PCB` that a thread inside `PCB::Exec` is filling in, and whether the
thread of that `PCB` exists already. -/
def window : Pc → Option (ℕ × ℕ × Bool)
  | .execMutex _ pid ptr => some (pid, ptr, false)
  | .execFork _ pid ptr => some (pid, ptr, false)
  | .execStore pid ptr => some (pid, ptr, true)
  | _ => none

theorem window_of_plain (h : Plain pc) : window pc = none := by
  cases pc <;> first | rfl | exact h.elim

theorem ne_finished_of_plain (h : Plain pc) : pc ≠ .finished := by
  rintro rfl
  exact h

theorem ne_execFail_of_plain (h : Plain pc) (pid : ℕ) : pc ≠ .execFail pid := by
  rintro rfl
  exact h

/-- INTERNAL: one test of a `P` that finds `value`, leaves `value'` and goes on at `pc`.
SRCLINE: threads/synch.cc:69-73 -/
def Tested (value value' : BitVec 32) (pc passed waiting : Pc) : Prop :=
  (value ≠ 0#32 ∧ value' = value - 1#32 ∧ pc = passed) ∨
    (value = 0#32 ∧ value' = value ∧ pc = waiting)

/-! ## The steps of a view -/

/-- INTERNAL: the ways in which one step changes a view. `plain` covers the steps that move a
thread between places where it holds nothing; a failing `Exec` may leave one more bit set.
SRCLINE: threads/ptable.cc:20-121, threads/pcb.cc:40-59 -/
inductive ViewStep (v : TableView) : ProcEvent → TableView → Prop
  | refuse (e : ProcEvent) : ViewStep v e v
  | plain {e : ProcEvent} {thr : Thread} {bm : BitMap} (pc : Pc)
      (hat : v.threads e.thread = some thr) (hfrom : Plain thr.pc) (hto : Plain pc)
      (hn : bm.numBits = v.bm.numBits) (hbm : ∀ i, isSet v.bm i = true → isSet bm i = true) :
      ViewStep v e ({ v with bm := bm }.setPc e.thread pc)
  | publish {t : ThreadId} {self name : String} {garbage : ℤ} {pid : ℕ} {index : Option ℕ}
      (hat : v.threads t = some ⟨self, .execScan (some name) true⟩)
      (hpid : pid < v.bm.numBits) (hfree : isSet v.bm pid = false)
      (hscan : Scanned v self index) (hid : v.currentID index ≠ -1) :
      ViewStep v (.resume t garbage)
        ((v.publish t pid (v.currentID index) garbage).setPc t (.execFork name pid v.next))
  | mutexTest {t : ThreadId} {self name : String} {garbage : ℤ} {pid ptr : ℕ} {pc : Pc}
      (hat : v.threads t = some ⟨self, .execMutex name pid ptr⟩)
      (hpc : pc = .execFork name pid ptr ∨ pc = .execMutex name pid ptr) :
      ViewStep v (.resume t garbage) (v.setPc t pc)
  | fork {t : ThreadId} {self name : String} {garbage : ℤ} {pid ptr : ℕ} {k : Ident}
      (hat : v.threads t = some ⟨self, .execFork name pid ptr⟩) (hk : v.ident ptr = some k)
      (hnone : k.thread = none) :
      ViewStep v (.resume t garbage) ((v.fork name ptr k).setPc t (.execStore pid ptr))
  | forkFail {t : ThreadId} {self name : String} {garbage : ℤ} {pid ptr : ℕ} {k : Ident}
      (hat : v.threads t = some ⟨self, .execFork name pid ptr⟩) (hk : v.ident ptr = some k)
      (hsome : k.thread ≠ none) :
      ViewStep v (.resume t garbage) (v.setPc t (.execFail pid))
  | store {t : ThreadId} {self : String} {garbage : ℤ} {pid ptr : ℕ} {k : Ident}
      (hat : v.threads t = some ⟨self, .execStore pid ptr⟩) (hk : v.ident ptr = some k) :
      ViewStep v (.resume t garbage)
        ({ v with ident := Function.update v.ident ptr (some { k with pid := pid }) }.setPc t
          (.execRelease pid))
  | discard {t : ThreadId} {self : String} {garbage : ℤ} {pid ptr : ℕ} {bm : BitMap}
      (hat : v.threads t = some ⟨self, .execFail pid⟩) (hptr : v.pcbAt pid = some ptr)
      (hbm : v.bm.clear pid = some bm) :
      ViewStep v (.resume t garbage) (({ v with bm := bm }.delete ptr).setPc t (.execReturn (-1)))
  | join {t : ThreadId} {self : String} {id : ℤ} {index : Option ℕ} {child ptr : ℕ} {kc km : Ident}
      {w : BitVec 32} {pc : Pc}
      (hat : v.threads t = some ⟨self, .user⟩) (hid : 0 ≤ id ∧ id < maxProcess)
      (hscan : Scanned v self index) (hchild : v.pcb id.toNat = some child)
      (hkc : v.ident child = some kc) (hparent : kc.parentID = v.currentID index)
      (hptr : v.pcbAt (v.currentID index) = some ptr) (hkm : v.ident ptr = some km)
      (htest : Tested (v.join ptr) w pc (.joinRead id (v.currentID index) child)
        (.joinP id (v.currentID index) ptr child)) :
      ViewStep v (.join t id) ((v.setSem ptr .joinsem w).setPc t pc)
  | joinTest {t : ThreadId} {self : String} {garbage id currentID : ℤ} {ptr child : ℕ} {km : Ident}
      {w : BitVec 32} {pc : Pc}
      (hat : v.threads t = some ⟨self, .joinP id currentID ptr child⟩)
      (hkm : v.ident ptr = some km)
      (htest : Tested (v.join ptr) w pc (.joinRead id currentID child)
        (.joinP id currentID ptr child)) :
      ViewStep v (.resume t garbage) ((v.setSem ptr .joinsem w).setPc t pc)
  | joinRead {t : ThreadId} {self : String} {garbage id currentID : ℤ} {child ptr : ℕ} {kc : Ident}
      (hat : v.threads t = some ⟨self, .joinRead id currentID child⟩)
      (hptr : v.pcbAt id = some ptr) (hkc : v.ident ptr = some kc) :
      ViewStep v (.resume t garbage)
        ((v.setSem ptr .exitsem (v.exit ptr + 1#32)).setPc t (.joinReturn (v.code ptr)))
  | exit {t : ThreadId} {self : String} {ec : ℤ} {index ptr parent : ℕ} {k kp : Ident}
      (hat : v.threads t = some ⟨self, .user⟩) (hscan : Scanned v self (some index))
      (hptr : v.pcb index = some ptr) (hk : v.ident ptr = some k) (hpid : k.pid ≠ 0)
      (hparent : v.pcbAt k.parentID = some parent) (hkp : v.ident parent = some kp) :
      ViewStep v (.exit t ec)
        (({ v with
            code := Function.update v.code ptr ec
            exited := Function.update v.exited t (some ec) }.setSem parent .joinsem
              (v.join parent + 1#32)).setPc t (.exitWait index k.pid))
  | exitTest {t : ThreadId} {self : String} {garbage pid : ℤ} {ptr : ℕ} {from_ : Pc} {k : Ident}
      {w : BitVec 32} {pc : Pc}
      (hat : v.threads t = some ⟨self, from_⟩)
      (hfrom : from_ = .exitP pid ptr ∨
        ∃ index : ℕ, from_ = .exitWait index pid ∧ v.pcbAt index = some ptr)
      (hk : v.ident ptr = some k)
      (htest : Tested (v.exit ptr) w pc (.exitRemove pid) (.exitP pid ptr)) :
      ViewStep v (.resume t garbage) ((v.setSem ptr .exitsem w).setPc t pc)
  | leave {t : ThreadId} {self : String} {garbage pid : ℤ}
      (hat : v.threads t = some ⟨self, .exitRemove pid⟩) (hnone : v.pcbAt pid = none) :
      ViewStep v (.resume t garbage) (v.setPc t .finished)
  | remove {t : ThreadId} {self file : String} {garbage pid : ℤ} {ptr : ℕ} {bm : BitMap}
      (hat : v.threads t = some ⟨self, .exitRemove pid⟩) (hptr : v.pcbAt pid = some ptr)
      (hfile : v.fileName ptr = some file) (hbm : v.bm.clear pid = some bm) :
      ViewStep v (.resume t garbage) ((v.remove pid.toNat ptr bm).setPc t .finished)

/-! ## The code takes no other step -/

theorem toProcTable_wake (s : ProcState) (woken : Option ThreadId) :
    (s.wake woken).toProcTable = s.toProcTable := by
  cases woken <;> rfl

theorem pTest_view {x : PCBSem} {passed waiting : Pc} (h : s.pTest t ptr x passed waiting = some s') :
    ∃ c w pc, s.heap ptr = some c ∧ Tested (c.sem x).value w pc passed waiting ∧
      viewOf s'.toProcTable = ((viewOf s.toProcTable).setSem ptr x w).setPc t pc := by
  simp only [ProcState.pTest, Option.bind_eq_bind, Option.bind_eq_some_iff, Option.pure_def,
    Option.some.injEq] at h
  obtain ⟨c, hc, rfl⟩ := h
  by_cases h0 : (c.sem x).value = 0#32
  · refine ⟨c, (c.sem x).value, waiting, hc, Or.inr ⟨h0, rfl, rfl⟩, ?_⟩
    rw [← viewOf_setPcb_setSem hc x { c.sem x with queue := (c.sem x).queue ++ [t] },
      ← viewOf_setPc]
    simp [Semaphore.p, h0, ProcState.sleepAt, ProcState.goto, ProcState.onTable]
  · refine ⟨c, (c.sem x).value - 1#32, passed, hc, Or.inl ⟨h0, rfl, rfl⟩, ?_⟩
    rw [← viewOf_setPcb_setSem hc x { c.sem x with value := (c.sem x).value - 1#32 },
      ← viewOf_setPc]
    simp [Semaphore.p, h0, ProcState.goto, ProcState.onTable]

theorem vCall_view {x : PCBSem} (h : s.vCall ptr x = some s') :
    ∃ c, s.heap ptr = some c ∧
      viewOf s'.toProcTable = (viewOf s.toProcTable).setSem ptr x ((c.sem x).value + 1#32) := by
  simp only [ProcState.vCall, Option.bind_eq_bind, Option.bind_eq_some_iff, Option.pure_def,
    Option.some.injEq] at h
  obtain ⟨c, hc, rfl⟩ := h
  refine ⟨c, hc, ?_⟩
  rw [toProcTable_wake, ← Semaphore.value_v]
  exact viewOf_setPcb_setSem hc x _

theorem viewStep_bmsemTest (hat : s.threads e.thread = some thr) (hfrom : Plain thr.pc)
    (name : Option String) (opens : Bool) :
    ViewStep (viewOf s.toProcTable) e (viewOf (s.bmsemTest e.thread name opens).toProcTable) := by
  simp only [ProcState.bmsemTest]
  split
  · exact .plain (.execScan name opens) hat hfrom trivial rfl fun _ h => h
  · exact .plain (.execP name opens) hat hfrom trivial rfl fun _ h => h

theorem viewStep_bmsemV {bm : BitMap} (hat : s.threads e.thread = some thr) (hfrom : Plain thr.pc)
    (hn : bm.numBits = s.bm.numBits) (hbm : ∀ i, isSet s.bm i = true → isSet bm i = true)
    (result : ℤ) :
    ViewStep (viewOf s.toProcTable) e
      (viewOf ((s.onTable fun r => { r with bm := bm }).bmsemV e.thread result).toProcTable) := by
  have hs' : ((s.onTable fun r => { r with bm := bm }).bmsemV e.thread result).toProcTable =
      ({ s.toProcTable with bm := bm }.setPc e.thread (.execReturn result)) := by
    simp only [ProcState.bmsemV, ProcState.goto, ProcState.onTable, toProcTable_wake]
  rw [hs', viewOf_setPc]
  exact .plain (.execReturn result) hat hfrom trivial hn hbm

/-- `ExecUpdate` comes to its search: the file opens and is not the caller's own program, and slot
`pid` is free. -/
def ReachesSearch (s : ProcTable) (self : String) (name : Option String) (opens : Bool)
    (file : String) (pid : ℕ) : Prop :=
  name = some file ∧ opens = true ∧ self ≠ file ∧ pid < s.bm.numBits ∧ isSet s.bm pid = false

/-- INTERNAL: **what `ExecUpdate` does after `bmsem->P()`**: it is refused before the search and
leaves the table alone, or it takes a slot and searches for its caller. With no caller the bit of
the slot stays marked.
SRCLINE: threads/ptable.cc:23-56 -/
theorem execScanWith_cases (s : ProcState) (scan : Option (Option ℕ)) (t : ThreadId)
    (self : String) (name : Option String) (opens : Bool) (garbage : ℤ) :
    ((∀ file pid, ¬ReachesSearch s.toProcTable self name opens file pid) ∧
      s.execScanWith scan t self name opens garbage = some (s.bmsemV t (-1))) ∨
    ∃ file pid, ReachesSearch s.toProcTable self name opens file pid ∧
      s.execScanWith scan t self name opens garbage = scan.bind fun index =>
        if s.currentID index = -1 then
          some ((s.onTable fun r => { r with bm := setBit s.bm pid }).bmsemV t (-1))
        else
          (s.onTable (·.publish t pid (s.currentID index) garbage (setBit s.bm pid))).pTest t s.next
            .mutex (.execFork file pid s.next) (.execMutex file pid s.next) := by
  unfold ProcState.execScanWith
  cases name with
  | none => exact Or.inl ⟨fun file pid h => absurd h.1 (by simp), rfl⟩
  | some file =>
    dsimp only
    by_cases hopens : opens = false
    · rw [if_pos hopens]
      exact Or.inl ⟨fun file' pid h => absurd h.2.1 (by simp [hopens]), rfl⟩
    rw [if_neg hopens]
    by_cases hself : self = file
    · rw [if_pos hself]
      exact Or.inl ⟨fun file' pid h => h.2.2.1 (hself.trans (Option.some.inj h.1)), rfl⟩
    rw [if_neg hself]
    rcases find_cases s.bm with ⟨hfull, hset⟩ | ⟨pid, hpid, hfind, hfree, -⟩
    · simp only [hfull, Option.bind_eq_bind, Option.bind_some, if_pos, Option.pure_def]
      refine Or.inl ⟨fun file' pid h => ?_, trivial⟩
      have hset' := hset pid h.2.2.2.1
      rw [h.2.2.2.2] at hset'
      cases hset'
    · refine Or.inr ⟨file, pid, ⟨rfl, by simpa using hopens, hself, hpid, hfree⟩, ?_⟩
      have hne : ((pid : ℤ) = -1) = False := by simp
      have hmark : (setBit s.bm pid).mark (pid : ℤ) = some (setBit s.bm pid) := by
        rw [mark_eq (b := setBit s.bm pid) hpid, setBit_of_isSet (by simp)]
      simp only [hfind, Option.bind_eq_bind, Option.bind_some, hne, if_false, Option.pure_def, hmark,
        Int.toNat_natCast]

theorem viewStep_execScan {name : Option String} {opens : Bool}
    (hat : s.threads t = some ⟨self, .execScan name opens⟩)
    (h : s.execScan t self name opens garbage = some s') :
    ViewStep (viewOf s.toProcTable) (.resume t garbage) (viewOf s'.toProcTable) := by
  unfold ProcState.execScan at h
  rcases execScanWith_cases s (s.scan self) t self name opens garbage with ⟨-, hrun⟩ |
    ⟨file, pid, ⟨rfl, rfl, -, hpid, hfree⟩, hrun⟩
  · rw [hrun, Option.some.injEq] at h
    subst h
    exact viewStep_bmsemV (e := .resume t garbage) hat trivial rfl (fun _ h => h) (-1)
  · rw [hrun, Option.bind_eq_some_iff] at h
    obtain ⟨index, hscan, h⟩ := h
    split at h
    · cases h
      refine viewStep_bmsemV (e := .resume t garbage) hat trivial (numBits_setBit s.bm pid)
        (fun i hi => ?_) (-1)
      simp [hi]
    · next hid =>
      obtain ⟨c, w, pc, hc, htest, hview⟩ := pTest_view h
      simp only [ProcState.onTable, ProcTable.publish, Function.update_self,
        Option.some.injEq] at hc
      subst hc
      obtain ⟨-, -, rfl⟩ | ⟨h0, -, -⟩ := htest
      · rw [hview, currentID_eq]
        simp only [ProcState.onTable, TableView.setSem]
        rw [currentID_eq] at hid
        rw [viewOf_publish _ _ _ _ hid]
        exact .publish hat hpid hfree (scanned_of_scan hscan) hid
      · simp [PCB.sem, PCB.new, Semaphore.new] at h0

theorem viewStep_execFork (hat : s.threads t = some ⟨self, .execFork name pid ptr⟩)
    (h : s.execFork t name pid ptr = some s') :
    ViewStep (viewOf s.toProcTable) (.resume t garbage) (viewOf s'.toProcTable) := by
  simp only [ProcState.execFork, Option.bind_eq_bind, Option.bind_eq_some_iff] at h
  obtain ⟨c, hc, h⟩ := h
  split at h
  · next hsome =>
    simp only [Option.bind_eq_some_iff, Option.pure_def, Option.some.injEq] at h
    obtain ⟨s₁, hv, rfl⟩ := h
    obtain ⟨c', hc', hview⟩ := vCall_view hv
    have hs' : viewOf (s₁.goto t (.execFail pid)).toProcTable =
        (viewOf s.toProcTable).setPc t (.execFail pid) := by
      simp only [ProcState.goto, ProcState.onTable, viewOf_setPc, hview, TableView.setSem]
    rw [hs']
    refine .forkFail hat (ident_viewOf hc) ?_
    intro hnone
    simp only [identOf] at hnone
    simp [hnone] at hsome
  · next hnone =>
    simp only [Option.pure_def, Option.some.injEq] at h
    subst h
    simp only [ProcState.goto, ProcState.onTable, viewOf_setPc, viewOf_fork _ _ hc]
    refine .fork hat (ident_viewOf hc) ?_
    simpa [identOf] using hnone

theorem viewStep_execStore (hat : s.threads t = some ⟨self, .execStore pid ptr⟩)
    (h : s.execStore t pid ptr = some s') :
    ViewStep (viewOf s.toProcTable) (.resume t garbage) (viewOf s'.toProcTable) := by
  simp only [ProcState.execStore, Option.bind_eq_bind, Option.bind_eq_some_iff, Option.pure_def,
    Option.some.injEq] at h
  obtain ⟨c, hc, s₁, hv, rfl⟩ := h
  obtain ⟨c', -, hview⟩ := vCall_view hv
  have hstore : viewOf (s.setPcb ptr { c with pid := pid }) =
      { viewOf s.toProcTable with
        ident := Function.update (viewOf s.toProcTable).ident ptr
          (some { identOf c with pid := pid }) } := by
    rw [viewOf_setPcb, ← join_viewOf hc, ← exit_viewOf hc, ← code_viewOf hc]
    simp only [Function.update_eq_self, identOf]
  simp only [ProcState.goto, ProcState.onTable, viewOf_setPc, hview, TableView.setSem, hstore]
  exact .store hat (ident_viewOf hc)

theorem viewStep_execFail (hat : s.threads t = some ⟨self, .execFail pid⟩)
    (h : s.execFail t pid = some s') :
    ViewStep (viewOf s.toProcTable) (.resume t garbage) (viewOf s'.toProcTable) := by
  simp only [ProcState.execFail, Option.bind_eq_bind, Option.bind_eq_some_iff, Option.pure_def,
    Option.some.injEq] at h
  obtain ⟨bm, hbm, ptr, hptr, -, -, rfl⟩ := h
  simp only [ProcState.bmsemV, ProcState.goto, ProcState.onTable, toProcTable_wake, viewOf_setPc]
  rw [show viewOf { s.toProcTable with heap := Function.update s.heap ptr none, bm := bm } =
    ({ viewOf s.toProcTable with bm := bm }).delete ptr from
      viewOf_delete { s.toProcTable with bm := bm } ptr]
  exact .discard hat hptr hbm

theorem viewStep_joinCall {id : ℤ} (hat : s.threads t = some ⟨self, .user⟩)
    (h : s.joinCall t self id = some s') :
    ViewStep (viewOf s.toProcTable) (.join t id) (viewOf s'.toProcTable) := by
  unfold ProcState.joinCall ProcState.joinCallWith at h
  split at h
  · cases h
    exact .refuse _
  · next hid =>
    simp only [Option.bind_eq_bind, Option.bind_eq_some_iff] at h
    obtain ⟨index, hscan, h⟩ := h
    split at h
    · cases h
      exact .refuse _
    · next child hchild =>
      simp only [Option.bind_eq_some_iff] at h
      obtain ⟨c, hc, h⟩ := h
      split at h
      · cases h
        exact .refuse _
      · next hparent =>
        simp only [Option.bind_eq_some_iff] at h
        obtain ⟨ptr, hptr, me, hme, h⟩ := h
        obtain ⟨c', w, pc, hc', htest, hview⟩ := pTest_view h
        simp only [ProcState.onTable, ProcTable.setPcb, Function.update_self,
          Option.some.injEq] at hc'
        subst hc'
        have hsame : viewOf (s.setPcb ptr { me with numwait := me.numwait + 1 }) =
            viewOf s.toProcTable := viewOf_setPcb_of_same hme rfl rfl rfl rfl
        rw [hview]
        simp only [ProcState.onTable, hsame]
        rw [not_not, currentID_eq] at hparent
        rw [currentID_eq] at hptr htest
        refine .join hat (by omega) (scanned_of_scan hscan) hchild (ident_viewOf hc) hparent hptr
          (ident_viewOf hme) ?_
        rw [join_viewOf hme]
        exact htest

theorem viewStep_joinRead {id currentID : ℤ} {child : ℕ}
    (hat : s.threads t = some ⟨self, .joinRead id currentID child⟩)
    (h : s.joinRead t id currentID = some s') :
    ViewStep (viewOf s.toProcTable) (.resume t garbage) (viewOf s'.toProcTable) := by
  simp only [ProcState.joinRead, Option.bind_eq_bind, Option.bind_eq_some_iff, Option.pure_def,
    Option.some.injEq, ProcTable.deref] at h
  obtain ⟨c, ⟨ptr, hptr, hc⟩, me, hme, m, hm, ptr', hptr', s₂, hv, rfl⟩ := h
  obtain rfl : ptr' = ptr := by
    have : s.pcbAt id = some ptr' := hptr'
    rw [hptr, Option.some.injEq] at this
    exact this.symm
  have hsame : viewOf (s.setPcb me { m with numwait := m.numwait - 1 }) = viewOf s.toProcTable :=
    viewOf_setPcb_of_same hm rfl rfl rfl rfl
  obtain ⟨c', hc', hview⟩ := vCall_view hv
  have hexit : c'.exitsem.value = (viewOf s.toProcTable).exit ptr' := by
    rw [← hsame]
    exact (exit_viewOf hc').symm
  simp only [ProcState.goto, ProcState.onTable, viewOf_setPc, hview, hsame, PCB.sem, hexit,
    ← code_viewOf hc]
  exact .joinRead hat hptr (ident_viewOf hc)

theorem viewStep_exitCall {ec : ℤ} (hat : s.threads t = some ⟨self, .user⟩)
    (h : s.exitCall t self ec = some s') :
    ViewStep (viewOf s.toProcTable) (.exit t ec) (viewOf s'.toProcTable) := by
  simp only [ProcState.exitCall, ProcState.exitCallWith, Option.bind_eq_bind,
    Option.bind_eq_some_iff] at h
  obtain ⟨index, hscan, h⟩ := h
  cases index with
  | none =>
    cases h
    exact .refuse _
  | some index =>
    simp only [Option.bind_eq_some_iff] at h
    obtain ⟨ptr, hptr, c, hc, h⟩ := h
    split at h
    · cases h
      exact .refuse _
    · next hpid =>
      simp only [Option.bind_eq_some_iff, Option.pure_def, Option.some.injEq] at h
      obtain ⟨parent, hparent, s₂, hv, rfl⟩ := h
      obtain ⟨p, hp, hview⟩ := vCall_view hv
      have hcode : viewOf { s.setPcb ptr { c with exitcode := ec } with
            exited := Function.update s.exited t (some ec) } =
          { viewOf s.toProcTable with
            code := Function.update (viewOf s.toProcTable).code ptr ec
            exited := Function.update s.exited t (some ec) } := by
        have hset := viewOf_setPcb s.toProcTable ptr { c with exitcode := ec }
        rw [show identOf { c with exitcode := ec } = identOf c from rfl, ← ident_viewOf hc,
          ← join_viewOf hc, ← exit_viewOf hc] at hset
        simp only [Function.update_eq_self] at hset
        exact congrArg (fun v : TableView =>
          { v with exited := Function.update s.exited t (some ec) }) hset
      have hscanned := scanned_of_scan hscan
      have hlt := (hscanned.found index rfl).1
      have hslot : s.pcb index = some ptr := by
        simpa [ProcTable.pcbAt, hlt] using hptr
      have hjoin : p.joinsem.value = (viewOf s.toProcTable).join parent := by
        have hj := (join_viewOf hp).symm
        simp only [ProcState.onTable, hcode] at hj
        exact hj
      have hkp : ∃ kp, (viewOf s.toProcTable).ident parent = some kp := by
        have hi := ident_viewOf hp
        simp only [ProcState.onTable, hcode] at hi
        exact ⟨_, hi⟩
      obtain ⟨kp, hkp⟩ := hkp
      simp only [ProcState.goto, ProcState.onTable, viewOf_setPc, hview, hcode, PCB.sem, hjoin]
      exact .exit hat hscanned hslot (ident_viewOf hc) hpid hparent hkp

theorem viewStep_exitTest {pid : ℤ}
    {from_ : Pc} (hat : s.threads t = some ⟨self, from_⟩)
    (hfrom : from_ = .exitP pid ptr ∨
      ∃ index : ℕ, from_ = .exitWait index pid ∧ s.pcbAt index = some ptr)
    (h : s.pTest t ptr .exitsem (.exitRemove pid) (.exitP pid ptr) = some s') :
    ViewStep (viewOf s.toProcTable) (.resume t garbage) (viewOf s'.toProcTable) := by
  obtain ⟨c, w, pc, hc, htest, hview⟩ := pTest_view h
  rw [hview]
  refine .exitTest hat hfrom (ident_viewOf hc) ?_
  rw [exit_viewOf hc]
  exact htest

theorem viewStep_exitRemove {pid garbage : ℤ} (hat : s.threads t = some ⟨self, .exitRemove pid⟩)
    (h : s.exitRemove t pid = some s') :
    ViewStep (viewOf s.toProcTable) (.resume t garbage) (viewOf s'.toProcTable) := by
  simp only [ProcState.exitRemove, Option.bind_eq_bind, Option.bind_eq_some_iff, Option.pure_def,
    Option.some.injEq] at h
  obtain ⟨r, hr, rfl⟩ := h
  unfold ProcTable.remove at hr
  split at hr
  · next hnone =>
    cases hr
    exact .leave hat hnone
  · next ptr hptr =>
    simp only [Option.bind_eq_bind, Option.bind_eq_some_iff, Option.pure_def,
      Option.some.injEq] at hr
    obtain ⟨file, hfile, bm, hbm, rfl⟩ := hr
    rw [getFileName_eq] at hfile
    have hview : viewOf { s.toProcTable with
          heap := Function.update s.heap ptr none
          pcb := Function.update s.pcb pid.toNat none
          bm := bm } = (viewOf s.toProcTable).remove pid.toNat ptr bm :=
      viewOf_delete { s.toProcTable with pcb := Function.update s.pcb pid.toNat none, bm := bm } ptr
    simp only [ProcState.goto, ProcState.onTable, viewOf_setPc, hview]
    exact .remove hat hptr hfile hbm

/-- INTERNAL: a thread inside a call takes one of the listed steps. -/
theorem viewStep_resume (hat : s.threads t = some thr)
    (h : s.resume t thr.name garbage thr.pc = some (some s')) :
    ViewStep (viewOf s.toProcTable) (.resume t garbage) (viewOf s'.toProcTable) := by
  obtain ⟨self, pc⟩ := thr
  cases pc <;> simp only [ProcState.resume, Option.some.injEq, reduceCtorEq] at h
  case execP name opens =>
    subst h
    exact viewStep_bmsemTest (e := .resume t garbage) hat trivial name opens
  case execScan name opens => exact viewStep_execScan hat h
  case execMutex name pid ptr =>
    obtain ⟨c, w, pc, hc, htest, hview⟩ := pTest_view h
    rw [hview]
    exact .mutexTest hat (htest.imp (fun h => h.2.2) fun h => h.2.2)
  case execFork name pid ptr => exact viewStep_execFork hat h
  case execStore pid ptr => exact viewStep_execStore hat h
  case execFail pid => exact viewStep_execFail hat h
  case execRelease pid =>
    subst h
    exact viewStep_bmsemV (e := .resume t garbage) hat trivial rfl (fun _ h => h) pid
  case execReturn result =>
    subst h
    exact .plain (e := .resume t garbage) .user hat trivial trivial rfl fun _ h => h
  case joinP id currentID ptr child =>
    obtain ⟨c, w, pc, hc, htest, hview⟩ := pTest_view h
    rw [hview]
    refine .joinTest hat (ident_viewOf hc) ?_
    rw [join_viewOf hc]
    exact htest
  case joinRead id currentID child => exact viewStep_joinRead hat h
  case joinReturn result =>
    subst h
    exact .plain (e := .resume t garbage) .user hat trivial trivial rfl fun _ h => h
  case exitWait index pid =>
    simp only [ProcState.exitWait, Option.bind_eq_bind, Option.bind_eq_some_iff] at h
    obtain ⟨ptr, hptr, h⟩ := h
    exact viewStep_exitTest hat (Or.inr ⟨index, rfl, hptr⟩) h
  case exitP pid ptr => exact viewStep_exitTest hat (Or.inl rfl) h
  case exitRemove pid => exact viewStep_exitRemove hat h

/-- INTERNAL: **every step of the machine is one of the listed steps of the view**. A step that
halts the machine or follows a bad pointer leaves the table as it was. -/
theorem viewStep_of_step (h : s.step e = some s') :
    ViewStep (viewOf s.toProcTable) e (viewOf s'.toProcTable) := by
  unfold ProcState.step at h
  split at h
  · simp only [Option.bind_eq_bind, Option.bind_eq_some_iff, Option.pure_def,
      Option.some.injEq] at h
    obtain ⟨thr, hat, r, hact, rfl⟩ := h
    cases r with
    | none => exact .refuse e
    | some s' =>
      cases e with
      | exec t name opens =>
        simp only [ProcState.act, Option.ite_none_right_eq_some, Option.some.injEq] at hact
        obtain ⟨hpc, rfl⟩ := hact
        exact viewStep_bmsemTest (e := .exec t name opens) hat (hpc ▸ trivial) name opens
      | join t id =>
        simp only [ProcState.act, Option.ite_none_right_eq_some, Option.some.injEq] at hact
        obtain ⟨self, pc⟩ := thr
        obtain ⟨rfl, hact⟩ := hact
        exact viewStep_joinCall hat hact
      | exit t ec =>
        simp only [ProcState.act, Option.ite_none_right_eq_some, Option.some.injEq] at hact
        obtain ⟨self, pc⟩ := thr
        obtain ⟨rfl, hact⟩ := hact
        exact viewStep_exitCall hat hact
      | resume t garbage => exact viewStep_resume hat hact
  · cases h

end Nachos.Analysis
