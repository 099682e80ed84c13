import Nachos.Analysis.CallerIdentity

/-!
# What the slot numbers a call holds still mean

`ExitUpdate` signals `pcb[parentid]` and `JoinUpdate` reads `pcb[id]` again after its
wait. Both are slot numbers that were right when they were taken: `parentid` when the
process was created, `id` when `JoinUpdate` checked it. Nothing in the code keeps the
slots from being emptied and given to another process in between. Two things can go
wrong: a parent that leaves before its child has called `Exit`, and a child that is
joined a second time after a first `Join` has released it.

`ExitInv` relates the record of `Exit` calls to where the processes are; `SlotInv` says
that the slot numbers are still right, and is kept by every step that avoids the two.
-/

set_option autoImplicit false

namespace Nachos.Analysis

open Nachos.Library Nachos.Model

variable {v w : TableView} {t : ThreadId} {thr : Thread} {pc : Pc} {child ptr : ℕ} {s : ProcTable}
  {e : ProcEvent} {k : Ident}

/-! ## The record of `Exit` calls -/

/-- The thread has called `Exit` and waits to be released, or has been released. -/
def Exiting : Pc → Prop
  | .exitWait _ _ | .exitP _ _ | .exitRemove _ => True
  | _ => False

/-- INTERNAL: the processes on their way out are those with a recorded `Exit`, and the recorded
code is the one in the `PCB`.
SRCLINE: threads/ptable.cc:80-84 -/
structure ExitInv (v : TableView) : Prop where
  recorded : ∀ t thr, v.threads t = some thr → Exiting thr.pc → v.exited t = some (v.code t)
  only : ∀ t thr, v.threads t = some thr → v.exited t ≠ none →
    Exiting thr.pc ∨ thr.pc = .finished
  unborn : ∀ t, v.threads t = none → v.exited t = none

theorem not_exiting_of_plain (h : Plain pc) : ¬ Exiting pc := by
  cases pc <;> first | exact h.elim | exact fun hx => hx

theorem ExitInv.exited_eq_none (h : ExitInv v) (hat : v.threads t = some thr)
    (hout : ¬ Exiting thr.pc) (hlive : thr.pc ≠ .finished) : v.exited t = none := by
  by_contra hx
  rcases h.only t thr hat hx with hx | hx
  · exact hout hx
  · exact hlive hx

/-- INTERNAL: a thread moves without calling `Exit`. -/
theorem ExitInv.move (h : ExitInv v) (hat : v.threads t = some thr)
    (hthreads : w.threads = (v.setPc t pc).threads) (hexited : w.exited = v.exited)
    (hcode : w.code = v.code) (hin : Exiting pc → Exiting thr.pc)
    (hout : Exiting thr.pc → Exiting pc ∨ pc = .finished) (hlive : thr.pc ≠ .finished) :
    ExitInv w := by
  constructor
  · intro u a hu hx
    rw [hthreads] at hu
    rw [hexited, hcode]
    rcases threads_setPc_eq_some hat hu with ⟨rfl, rfl⟩ | ⟨-, hu⟩
    · exact h.recorded u thr hat (hin hx)
    · exact h.recorded u a hu hx
  · intro u a hu hx
    rw [hthreads] at hu
    rw [hexited] at hx
    rcases threads_setPc_eq_some hat hu with ⟨rfl, rfl⟩ | ⟨-, hu⟩
    · exact hout ((h.only u thr hat hx).resolve_right hlive)
    · exact h.only u a hu hx
  · intro u hu
    rw [hthreads] at hu
    rw [hexited]
    exact h.unborn u (threads_setPc_eq_none hu)

theorem ExitInv.quiet (h : ExitInv v) (hat : v.threads t = some thr)
    (hthreads : w.threads = (v.setPc t pc).threads) (hexited : w.exited = v.exited)
    (hcode : w.code = v.code) (hto : ¬ Exiting pc) (hfrom : ¬ Exiting thr.pc)
    (hlive : thr.pc ≠ .finished) : ExitInv w :=
  h.move hat hthreads hexited hcode (fun hx => absurd hx hto) (fun hx => absurd hx hfrom) hlive

/-- INTERNAL: `Exit` records its code in the caller's own `PCB`. -/
theorem ExitInv.record (h : ExitInv v) {ec : ℤ} (hat : v.threads t = some thr)
    (hthreads : w.threads = (v.setPc t pc).threads)
    (hexited : w.exited = Function.update v.exited t (some ec))
    (hcode : w.code = Function.update v.code t ec) (hpc : Exiting pc) : ExitInv w := by
  constructor
  · intro u a hu hx
    rw [hthreads] at hu
    rw [hexited, hcode]
    rcases threads_setPc_eq_some hat hu with ⟨rfl, -⟩ | ⟨hne, hu⟩
    · simp
    · rw [Function.update_of_ne hne, Function.update_of_ne hne]
      exact h.recorded u a hu hx
  · intro u a hu hx
    rw [hthreads] at hu
    rw [hexited] at hx
    rcases threads_setPc_eq_some hat hu with ⟨rfl, rfl⟩ | ⟨hne, hu⟩
    · exact Or.inl hpc
    · rw [Function.update_of_ne hne] at hx
      exact h.only u a hu hx
  · intro u hu
    rw [hthreads] at hu
    have hnone := threads_setPc_eq_none hu
    rw [hexited, Function.update_of_ne, h.unborn u hnone]
    rintro rfl
    rw [hat] at hnone
    cases hnone

theorem ExitInv.publish (hT : TableInv v) (h : ExitInv v) (t : ThreadId) (pid : ℕ)
    (currentID garbage : ℤ) : ExitInv (v.publish t pid currentID garbage) := by
  refine ⟨fun u a hu hx => ?_, h.only, h.unborn⟩
  have hne : u ≠ v.next := Nat.ne_of_lt (hT.lt_next hu)
  show v.exited u = some (Function.update v.code v.next 0 u)
  rw [Function.update_of_ne hne]
  exact h.recorded u a hu hx

theorem ExitInv.fork (h : ExitInv v) (name : String) (k : Ident) (hptr : v.threads ptr = none) :
    ExitInv (v.fork name ptr k) := by
  constructor
  · intro u a hu hx
    rcases threads_fork_cases hu with ⟨-, rfl⟩ | hu
    · exact hx.elim
    · exact h.recorded u a hu hx
  · intro u a hu hx
    rcases threads_fork_cases hu with ⟨rfl, -⟩ | hu
    · exact absurd (h.unborn u hptr) hx
    · exact h.only u a hu hx
  · intro u hu
    apply h.unborn u
    by_cases hup : u = ptr
    · rw [hup, hptr]
    · simpa only [TableView.fork, Function.update_of_ne hup] using hu

theorem ExitInv.leave (h : ExitInv v) (pid : ℕ) (bm : BitMap) (hat : v.threads t = some thr) :
    ExitInv ((v.remove pid t bm).setPc t .finished) := by
  have hat' : (v.remove pid t bm).threads t = some thr := hat
  constructor
  · intro u a hu hx
    rcases threads_setPc_eq_some hat' hu with ⟨-, rfl⟩ | ⟨hne, hu⟩
    · exact hx.elim
    · show v.exited u = some (Function.update v.code t 0 u)
      rw [Function.update_of_ne hne]
      exact h.recorded u a hu hx
  · intro u a hu hx
    rcases threads_setPc_eq_some hat' hu with ⟨-, rfl⟩ | ⟨-, hu⟩
    · exact Or.inr rfl
    · exact h.only u a hu hx
  · exact fun u hu => h.unborn u (threads_setPc_eq_none hu)

/-- INTERNAL: every step keeps the record right. -/
theorem ExitInv.step {v' : TableView} (hT : TableInv (viewOf s)) (hO : OwnInv (viewOf s))
    (h : ExitInv (viewOf s)) (hstep : ViewStep (viewOf s) e v') (hstored : PidsStored s e) :
    ExitInv v' := by
  cases hstep with
  | refuse => exact h
  | plain pc hat hfrom hto hn hbm =>
    exact h.quiet hat rfl rfl rfl (not_exiting_of_plain hto) (not_exiting_of_plain hfrom)
      (ne_finished_of_plain hfrom)
  | publish hat hpid hfree hscan hid =>
    exact (h.publish hT _ _ _ _).quiet hat rfl rfl rfl (fun hx => hx) (fun hx => hx) nofun
  | mutexTest hat hpc =>
    refine h.quiet hat rfl rfl rfl ?_ (fun hx => hx) nofun
    rcases hpc with rfl | rfl <;> exact fun hx => hx
  | fork hat hk hnone =>
    have hptr := (hT.filling _ _ _ false ⟨_, hat, rfl⟩).2.2.2 rfl
    exact (h.fork _ _ hptr).quiet (TableView.threads_fork_of_some hat hptr _ _) rfl rfl rfl
      (fun hx => hx) (fun hx => hx) nofun
  | forkFail hat hk hsome => exact absurd (hT.thread_eq_none hat hk) hsome
  | store hat hk => exact h.quiet hat rfl rfl rfl (fun hx => hx) (fun hx => hx) nofun
  | discard hat hptr hbm => exact absurd rfl (hT.noFail _ _ _ hat)
  | join hat hid hscan hchild hkc hparent hptr hkm htest =>
    refine h.quiet hat rfl rfl rfl ?_ (fun hx => hx) nofun
    rcases htest.cases_pc with rfl | rfl <;> exact fun hx => hx
  | joinTest hat hkm htest =>
    refine h.quiet hat rfl rfl rfl ?_ (fun hx => hx) nofun
    rcases htest.cases_pc with rfl | rfl <;> exact fun hx => hx
  | joinRead hat hptr hkc => exact h.quiet hat rfl rfl rfl (fun hx => hx) (fun hx => hx) nofun
  | exit hat hscan hptr hk hpid hparent hkp =>
    have hno := not_filling_of_stored hstored trivial hat trivial
    obtain ⟨rfl, -⟩ := hO.exiting hT hat hscan hptr hk hno
    exact h.record hat rfl rfl rfl trivial
  | exitTest hat hfrom hk htest =>
    refine h.move hat rfl rfl rfl ?_ ?_ ?_
    · rcases hfrom with rfl | ⟨index, rfl, -⟩ <;> exact fun _ => trivial
    · rcases htest.cases_pc with rfl | rfl <;> exact fun _ => Or.inl trivial
    · rcases hfrom with rfl | ⟨index, rfl, -⟩ <;> exact fun h => by cases h
  | leave hat hnone =>
    refine h.move hat rfl rfl rfl ?_ ?_ (fun h => by cases h)
    · exact fun hx => hx.elim
    · exact fun _ => Or.inr rfl
  | remove hat hptr hfile hbm =>
    obtain ⟨i, rfl, -, hslot, hself⟩ := hO.leaving hat
    obtain rfl := Option.some.inj (hself.symm.trans hptr)
    exact h.leave _ _ hat

/-! ## Slot numbers that are still right -/

/-- The slot that a thread inside `JoinUpdate` will read, and the `PCB` it checked there. -/
def joinTarget : Pc → Option (ℤ × ℕ)
  | .joinP id _ _ child => some (id, child)
  | .joinRead id _ child => some (id, child)
  | _ => none

/-- No `Join` has released process `p`: its `exitsem` is zero and it has not passed it. -/
def Unreleased (v : TableView) (p : ℕ) : Prop :=
  v.exit p = 0#32 ∧ ∀ thr, v.threads p = some thr → ∀ pid, thr.pc ≠ .exitRemove pid

/-- INTERNAL: a process that has not called `Exit` finds its creator in slot `parentID`, and the
slot a `Join` has checked keeps its process until that `Join` releases it.
SRCLINE: threads/ptable.cc:79-81, 96-101 -/
structure SlotInv (v : TableView) : Prop where
  parents : ∀ i p k, v.pcb i = some p → p ≠ 0 → v.ident p = some k → v.exited p = none →
    ∃ j : ℕ, k.parentID = j ∧ v.pcb j = some (v.creator p)
  joins : ∀ t thr id child, v.threads t = some thr → joinTarget thr.pc = some (id, child) →
    v.pcb id.toNat = some child ∧ Unreleased v child
  boot : ∀ i, v.pcb i = some 0 → i = 0
  pos : 0 < v.next

theorem joinTarget_of_plain (h : Plain pc) : joinTarget pc = none := by
  cases pc <;> first | exact h.elim | rfl

theorem Unreleased.setPc {p : ℕ} (h : Unreleased v p) (hat : v.threads t = some thr)
    (hthreads : w.threads = (v.setPc t pc).threads) (hexit : w.exit p = v.exit p)
    (hpc : p = t → ∀ pid, pc ≠ .exitRemove pid) : Unreleased w p := by
  refine ⟨by rw [hexit, h.1], fun a ha pid => ?_⟩
  rw [hthreads] at ha
  rcases threads_setPc_eq_some hat ha with ⟨rfl, rfl⟩ | ⟨-, ha⟩
  · exact hpc rfl pid
  · exact h.2 a ha pid

/-- INTERNAL: a thread moves and no slot changes hands. Semaphores may change as long as nobody
releases a process that is being joined. -/
theorem SlotInv.move (h : SlotInv v)
    (hat : v.threads t = some thr) (hthreads : w.threads = (v.setPc t pc).threads)
    (hpcb : w.pcb = v.pcb) (hnext : w.next = v.next) (hcreator : w.creator = v.creator)
    (hident : ∀ p k, w.ident p = some k → ∃ k₀, v.ident p = some k₀ ∧ k.parentID = k₀.parentID)
    (hexited : ∀ p, w.exited p = none → v.exited p = none)
    (hexit : ∀ u a id child, u ≠ t → v.threads u = some a →
      joinTarget a.pc = some (id, child) → w.exit child = v.exit child ∧
        (child = t → ∀ pid, pc ≠ .exitRemove pid))
    (hnew : ∀ id child, joinTarget pc = some (id, child) →
      v.pcb id.toNat = some child ∧ Unreleased w child) : SlotInv w := by
  constructor
  · intro i p k hi hp hk hx
    rw [hpcb] at hi
    obtain ⟨k₀, hk₀, hparent⟩ := hident p k hk
    rw [hpcb, hcreator, hparent]
    exact h.parents i p k₀ hi hp hk₀ (hexited p hx)
  · intro u a id child hu hjoin
    rw [hthreads] at hu
    rw [hpcb]
    rcases threads_setPc_eq_some hat hu with ⟨rfl, rfl⟩ | ⟨hne, hu⟩
    · exact hnew id child hjoin
    · obtain ⟨hslot, hrel⟩ := h.joins u a id child hu hjoin
      obtain ⟨hsame, hpc⟩ := hexit u a id child hne hu hjoin
      exact ⟨hslot, hrel.setPc hat hthreads hsame hpc⟩
  · rw [hpcb]
    exact h.boot
  · rw [hnext]
    exact h.pos

theorem SlotInv.quiet (h : SlotInv v) (hat : v.threads t = some thr)
    (hthreads : w.threads = (v.setPc t pc).threads) (hpcb : w.pcb = v.pcb) (hnext : w.next = v.next)
    (hcreator : w.creator = v.creator)
    (hident : ∀ p k, w.ident p = some k → ∃ k₀, v.ident p = some k₀ ∧ k.parentID = k₀.parentID)
    (hexited : ∀ p, w.exited p = none → v.exited p = none) (hexit : w.exit = v.exit)
    (hstays : ∀ pid, pc ≠ .exitRemove pid) (hpc : joinTarget pc = none) : SlotInv w := by
  refine h.move hat hthreads hpcb hnext hcreator hident hexited ?_ ?_
  · exact fun u a id child _ _ _ => ⟨by rw [hexit], fun _ => hstays⟩
  · intro id child hjoin
    rw [hpc] at hjoin
    cases hjoin

theorem SlotInv.joinTested (h : SlotInv v) {id cur : ℤ} {child ptr ptr' : ℕ} {value w : BitVec 32}
    (hat : v.threads t = some thr)
    (htest : Tested value w pc (.joinRead id cur child) (.joinP id cur ptr child))
    (hslot : v.pcb id.toNat = some child) (hrel : Unreleased v child) :
    SlotInv ((v.setSem ptr' .joinsem w).setPc t pc) := by
  have hstays : ∀ pid, pc ≠ .exitRemove pid := by
    rcases htest.cases_pc with rfl | rfl <;> exact nofun
  have htarget : joinTarget pc = some (id, child) := by
    rcases htest.cases_pc with rfl | rfl <;> rfl
  refine h.move hat rfl rfl rfl rfl (fun p k hk => ⟨k, hk, rfl⟩) (fun _ h => h) ?_ ?_
  · exact fun u a id child _ _ _ => ⟨rfl, fun _ => hstays⟩
  · intro id' child' hjoin
    rw [htarget] at hjoin
    cases hjoin
    exact ⟨hslot, hrel.setPc hat rfl rfl fun _ => hstays⟩

/-- INTERNAL: a new process finds its creator in the slot the creator has found itself in. -/
theorem SlotInv.publish (hT : TableInv v) (h : SlotInv v) {pid i : ℕ} (garbage : ℤ)
    (hnone : v.pcb pid = none) (hslot : v.pcb i = some t) :
    SlotInv (v.publish t pid i garbage) := by
  constructor
  · intro j p k hj hp hk hx
    change Function.update v.ident v.next (some ⟨none, garbage, i⟩) p = some k at hk
    show ∃ j : ℕ, k.parentID = j ∧
      (v.publish t pid i garbage).pcb j = some (Function.update v.creator v.next t p)
    rcases update_some_cases hj with ⟨-, rfl⟩ | ⟨-, hj⟩
    · rw [Function.update_self, Option.some.injEq] at hk
      rw [Function.update_self, ← hk]
      exact ⟨i, rfl, update_some_of_some v.next hnone hslot⟩
    · have hne := (hT.slot j p hj).1.ne
      rw [Function.update_of_ne hne] at hk ⊢
      obtain ⟨j', hparent, hj'⟩ := h.parents j p k hj hp hk hx
      exact ⟨j', hparent, update_some_of_some v.next hnone hj'⟩
  · intro u a id child hu hjoin
    obtain ⟨hslot', hexit, hpc⟩ := h.joins u a id child hu hjoin
    refine ⟨update_some_of_some v.next hnone hslot', ?_, hpc⟩
    show Function.update v.exit v.next 0#32 child = 0#32
    rw [Function.update_of_ne (hT.slot _ child hslot').1.ne, hexit]
  · intro j hj
    rcases update_some_cases hj with ⟨-, h0⟩ | ⟨-, hj⟩
    · exact absurd h0 h.pos.ne
    · exact h.boot j hj
  · exact Nat.succ_pos _

theorem SlotInv.fork (h : SlotInv v) (name : String) (hk : v.ident ptr = some k)
    (hptr : v.threads ptr = none) : SlotInv (v.fork name ptr k) := by
  refine ⟨fun i p k' hi hp hk' hx => ?_, fun u a id child hu hjoin => ?_, h.boot, h.pos⟩
  · change Function.update v.ident ptr (some { k with thread := some ptr }) p = some k' at hk'
    by_cases hpp : p = ptr
    · subst hpp
      rw [Function.update_self, Option.some.injEq] at hk'
      rw [← hk']
      exact h.parents i p k hi hp hk hx
    · rw [Function.update_of_ne hpp] at hk'
      exact h.parents i p k' hi hp hk' hx
  · rcases threads_fork_cases hu with ⟨-, rfl⟩ | hu
    · cases hjoin
    · obtain ⟨hslot, hexit, hpc⟩ := h.joins u a id child hu hjoin
      refine ⟨hslot, hexit, fun b hb pid => ?_⟩
      rcases threads_fork_cases hb with ⟨-, rfl⟩ | hb
      · exact fun h => by cases h
      · exact hpc b hb pid

/-- INTERNAL: a process leaves whose children have all called `Exit`. -/
theorem SlotInv.leave (hT : TableInv v) (h : SlotInv v) {self : String} {i : ℕ} (bm : BitMap)
    (hat : v.threads t = some ⟨self, .exitRemove i⟩) (hslot : v.pcb i = some t)
    (hchildren : ∀ j p, v.pcb j = some p → v.creator p = t → v.exited p ≠ none) :
    SlotInv ((v.remove i t bm).setPc t .finished) := by
  have hat' : (v.remove i t bm).threads t = some ⟨self, .exitRemove i⟩ := hat
  constructor
  · intro j p k hj hp hk hx
    obtain ⟨hj, hpt, -⟩ := hT.pcb_remove hslot hj
    change Function.update v.ident t none p = some k at hk
    rw [Function.update_of_ne hpt] at hk
    obtain ⟨j', hparent, hj'⟩ := h.parents j p k hj hp hk hx
    refine ⟨j', hparent, update_none_of_ne hslot ?_ hj'⟩
    exact fun hc => hchildren j p hj hc hx
  · intro u a id child hu hjoin
    rcases threads_setPc_eq_some hat' hu with ⟨-, rfl⟩ | ⟨-, hu⟩
    · cases hjoin
    · obtain ⟨hslot', hexit, hpc⟩ := h.joins u a id child hu hjoin
      have hne : child ≠ t := by
        rintro rfl
        exact hpc _ hat i rfl
      refine ⟨update_none_of_ne hslot hne hslot', ?_, fun b hb pid => ?_⟩
      · show Function.update v.exit t 0#32 child = 0#32
        rw [Function.update_of_ne hne, hexit]
      · rcases threads_setPc_eq_some hat' hb with ⟨hc, -⟩ | ⟨-, hb⟩
        · exact absurd hc hne
        · exact hpc b hb pid
  · exact fun j hj => h.boot j (hT.pcb_remove hslot hj).1
  · exact h.pos

theorem Joining.unique {t u : ThreadId} {id id' cur cur' : ℤ} (h : Joining v t id cur child)
    (h' : Joining v u id' cur' child) (hk : v.ident child = some k) : t = u := by
  obtain ⟨i, hi, ht⟩ := h.caller
  obtain ⟨j, hj, hu⟩ := h'.caller
  have hij : (i : ℤ) = j := by rw [← hi, ← hj, ← h.parent k hk, ← h'.parent k hk]
  obtain rfl : i = j := by omega
  exact Option.some.inj (ht.symm.trans hu)

theorem OwnInv.joining_of_target (h : OwnInv v) {id : ℤ} (hat : v.threads t = some thr)
    (hjoin : joinTarget thr.pc = some (id, child)) : ∃ cur, Joining v t id cur child := by
  have hown := h.pcs t thr hat
  cases hpc : thr.pc <;> rw [hpc] at hjoin hown <;>
    simp only [joinTarget, reduceCtorEq, Option.some.injEq, Prod.mk.injEq] at hjoin
  · obtain ⟨rfl, rfl⟩ := hjoin
    exact ⟨_, hown.2⟩
  · obtain ⟨rfl, rfl⟩ := hjoin
    exact ⟨_, hown⟩

/-! ## The conditions on a step -/

/-- No process leaves the table while one that it has created has yet to call `Exit`. -/
def ChildrenExited (s : ProcTable) : ProcEvent → Prop
  | .resume t _ => ∀ self pid, s.threads t = some ⟨self, .exitRemove pid⟩ →
      ∀ i p, s.pcb i = some p → s.creator p = t → s.exited p ≠ none
  | _ => True

/-- A `Join` that passes its checks is for a process that no earlier `Join` has released. -/
def JoinsOnce (s : ProcTable) : ProcEvent → Prop
  | .join t id => ∀ child c me, s.pcbAt id = some child → s.heap child = some c →
      s.heap t = some me → c.parentID = me.pid →
      c.exitsem.value = 0#32 ∧ ∀ thr, s.threads child = some thr → ∀ pid, thr.pc ≠ .exitRemove pid
  | _ => True

theorem SlotInv.joinRead (hO : OwnInv v) (h : SlotInv v) {self : String} {id cur code : ℤ}
    {value : BitVec 32} (hat : v.threads t = some ⟨self, .joinRead id cur child⟩)
    (hk : v.ident child = some k) :
    SlotInv ((v.setSem child .exitsem value).setPc t (.joinReturn code)) := by
  have hjoining : Joining v t id cur child := hO.pcs _ _ hat
  refine h.move hat rfl rfl rfl rfl (fun p k hk => ⟨k, hk, rfl⟩) (fun _ h => h) ?_ nofun
  intro u a id' child' hne hu hjoin
  refine ⟨Function.update_of_ne ?_ _ _, fun _ => nofun⟩
  rintro rfl
  obtain ⟨cur', hother⟩ := hO.joining_of_target hu hjoin
  exact hne (hother.unique hjoining hk)

theorem SlotInv.exitTested (h : SlotInv v) {pid : ℤ} {w : BitVec 32} (hat : v.threads t = some thr)
    (htest : Tested (v.exit t) w pc (.exitRemove pid) (.exitP pid t)) :
    SlotInv ((v.setSem t .exitsem w).setPc t pc) := by
  refine h.move hat rfl rfl rfl rfl (fun p k hk => ⟨k, hk, rfl⟩) (fun _ h => h) ?_ ?_
  · intro u a id child hne hu hjoin
    by_cases hc : child = t
    · subst hc
      obtain ⟨-, hexit, -⟩ := h.joins u a id child hu hjoin
      rcases htest with ⟨hpos, -⟩ | ⟨-, hw, rfl⟩
      · exact absurd hexit hpos
      · exact ⟨(Function.update_self _ _ _).trans hw, fun _ => nofun⟩
    · exact ⟨Function.update_of_ne hc _ _, fun h => absurd h hc⟩
  · rcases htest.cases_pc with rfl | rfl <;> exact nofun

/-- INTERNAL: **slot numbers stay right** along steps that let no parent leave before its children
and join nobody twice.
SRCLINE: threads/ptable.cc:68-103 -/
theorem SlotInv.step {v' : TableView} (hT : TableInv (viewOf s)) (hO : OwnInv (viewOf s))
    (h : SlotInv (viewOf s)) (hstep : ViewStep (viewOf s) e v') (hstored : PidsStored s e)
    (hchildren : ChildrenExited s e) (honce : JoinsOnce s e) : SlotInv v' := by
  have hsame : ∀ p k, (viewOf s).ident p = some k →
      ∃ k₀, (viewOf s).ident p = some k₀ ∧ k.parentID = k₀.parentID := fun p k hk => ⟨k, hk, rfl⟩
  cases hstep with
  | refuse => exact h
  | plain pc hat hfrom hto hn hbm =>
    refine h.quiet hat rfl rfl rfl rfl hsame (fun _ h => h) rfl ?_ (joinTarget_of_plain hto)
    rintro pid rfl
    exact hto
  | publish hat hpid hfree hscan hid =>
    have hno := not_filling_of_stored hstored ⟨_, _, _, hat, rfl⟩ hat trivial
    obtain ⟨i, k, rfl, hlt, hslot, -, -, hcur⟩ := hO.selected_pid hT hat trivial hscan hno
    rw [hcur]
    exact (h.publish hT _ (hO.pcb_of_free hfree) hslot).quiet hat rfl rfl rfl rfl
      (fun p k hk => ⟨k, hk, rfl⟩) (fun _ h => h) rfl nofun rfl
  | mutexTest hat hpc =>
    refine h.quiet hat rfl rfl rfl rfl hsame (fun _ h => h) rfl ?_ ?_
    · rcases hpc with rfl | rfl <;> exact nofun
    · rcases hpc with rfl | rfl <;> rfl
  | fork hat hk hnone =>
    have hptr := (hT.filling _ _ _ false ⟨_, hat, rfl⟩).2.2.2 rfl
    exact (h.fork _ hk hptr).quiet (TableView.threads_fork_of_some hat hptr _ _) rfl rfl rfl rfl
      (fun p k hk => ⟨k, hk, rfl⟩) (fun _ h => h) rfl nofun rfl
  | forkFail hat hk hsome => exact absurd (hT.thread_eq_none hat hk) hsome
  | store hat hk =>
    refine h.quiet hat rfl rfl rfl rfl ?_ (fun _ h => h) rfl nofun rfl
    intro p k' hk'
    obtain ⟨k₀, hk₀, -, hparent⟩ := ident_storePid hk hk'
    exact ⟨k₀, hk₀, hparent⟩
  | discard hat hptr hbm => exact absurd rfl (hT.noFail _ _ _ hat)
  | join hat hid hscan hchild hkc hparent hptr hkm htest =>
    have hno := not_filling_of_stored hstored hid hat trivial
    obtain ⟨i, k, rfl, -, hslot, hk, hpid, hcur⟩ := hO.selected_pid hT hat trivial hscan hno
    obtain ⟨c, hc, rfl⟩ := exists_heap_of_ident hkc
    obtain ⟨me, hme, rfl⟩ := exists_heap_of_ident hk
    have hrel := honce _ c me (pcbAt_of_pcb hid hchild) hc hme
      (by rw [hcur, ← hpid] at hparent; exact hparent)
    exact h.joinTested hat htest hchild ⟨(exit_viewOf hc).trans hrel.1, hrel.2⟩
  | joinTest hat hkm htest =>
    obtain ⟨hslot, hrel⟩ := h.joins _ _ _ _ hat rfl
    exact h.joinTested hat htest hslot hrel
  | joinRead hat hptr hkc =>
    obtain ⟨hslot, -⟩ := h.joins _ _ _ _ hat rfl
    obtain ⟨-, -, hptr⟩ := pcb_of_pcbAt hptr
    obtain rfl := Option.some.inj (hslot.symm.trans hptr)
    exact h.joinRead hO hat hkc
  | exit hat hscan hptr hk hpid hparent hkp =>
    exact h.quiet hat rfl rfl rfl rfl hsame (fun p hp => eq_none_of_update_some hp) rfl nofun rfl
  | exitTest hat hfrom hk htest =>
    obtain ⟨rfl, -⟩ := hO.exitWaiting hat hfrom
    exact h.exitTested hat htest
  | leave hat hnone =>
    obtain ⟨i, -, -, -, hself⟩ := hO.leaving hat
    rw [hself] at hnone
    cases hnone
  | remove hat hptr hfile hbm =>
    obtain ⟨i, rfl, -, hslot, hself⟩ := hO.leaving hat
    obtain rfl := Option.some.inj (hself.symm.trans hptr)
    exact h.leave hT _ hat hslot (hchildren _ _ hat)

/-! ## Boot -/

theorem exitInv_boot {words : ℕ → BitVec 32} {s₀ : ProcState}
    (h : ProcState.boot words = some s₀) : ExitInv (viewOf s₀.toProcTable) := by
  obtain ⟨-, -, hthreads, -, hexited, -, -⟩ := boot_spec h
  refine ⟨fun t thr ht hx => ?_, fun t thr _ hx => ?_, fun t _ => ?_⟩
  · simp only [viewOf, hthreads, Option.ite_none_right_eq_some, Option.some.injEq] at ht
    rw [← ht.2] at hx
    exact hx.elim
  · exact absurd (by simp [viewOf, hexited]) hx
  · simp [viewOf, hexited]

theorem slotInv_boot {words : ℕ → BitVec 32} {s₀ : ProcState}
    (h : ProcState.boot words = some s₀) : SlotInv (viewOf s₀.toProcTable) := by
  obtain ⟨hpcb, -, hthreads, hnext, -, -, -⟩ := boot_spec h
  have hslot : ∀ i ptr, (viewOf s₀.toProcTable).pcb i = some ptr → i = 0 ∧ ptr = 0 := by
    intro i ptr hi
    simp only [viewOf, hpcb, Option.ite_none_right_eq_some, Option.some.injEq] at hi
    exact ⟨hi.1, hi.2.symm⟩
  refine ⟨fun i p k hi hp => ?_, fun t thr id child ht hjoin => ?_, fun i hi => (hslot i 0 hi).1, ?_⟩
  · exact absurd (hslot i p hi).2 hp
  · simp only [viewOf, hthreads, Option.ite_none_right_eq_some, Option.some.injEq] at ht
    rw [← ht.2] at hjoin
    cases hjoin
  · simp [viewOf, hnext]

/-! ## Every slot that is dereferenced -/

/-- The slots that the step dereferences hold the processes the code means. `Join` reads
`pcb[id]` and its own `pcb[currentID]`, before and after its wait; `Exit` reads its own
`pcb[index]` and `pcb[parentid]`, which is to be the process that executed the `Exec` that made
the caller. -/
def DerefsIntended (s : ProcTable) : ProcEvent → Prop
  | .exec _ _ _ => True
  | .join t id => ∀ thr index, s.threads t = some thr → s.scan thr.name = some index →
      ∀ child, s.pcbAt id = some child → ∃ c, s.heap child = some c ∧
        (c.parentID = s.currentID index →
          s.pcbAt (s.currentID index) = some t ∧ (s.heap t).isSome = true)
  | .exit t _ => ∀ thr index, s.threads t = some thr → s.scan thr.name = some (some index) →
      s.pcbAt index = some t ∧ ∃ c, s.heap t = some c ∧
        (c.pid ≠ 0 →
          s.pcbAt c.parentID = some (s.creator t) ∧ (s.heap (s.creator t)).isSome = true)
  | .resume t _ => ∀ thr, s.threads t = some thr →
      match thr.pc with
      | .joinRead id currentID child =>
        s.pcbAt id = some child ∧ (s.heap child).isSome = true ∧
          s.pcbAt currentID = some t ∧ (s.heap t).isSome = true
      | .exitWait index _ => s.pcbAt index = some t ∧ (s.heap t).isSome = true
      | _ => True

theorem TableInv.isSome_heap (hT : TableInv (viewOf s)) {i ptr : ℕ} (hi : s.pcb i = some ptr) :
    (s.heap ptr).isSome = true := by
  obtain ⟨-, k, hk, -⟩ := hT.slot i ptr hi
  obtain ⟨c, hc, -⟩ := exists_heap_of_ident hk
  rw [hc]
  rfl

/-- INTERNAL: what the invariants say about the slots of the next step. -/
theorem SlotInv.derefs {s s' : ProcState} (hT : TableInv (viewOf s.toProcTable))
    (hO : OwnInv (viewOf s.toProcTable)) (hX : ExitInv (viewOf s.toProcTable))
    (h : SlotInv (viewOf s.toProcTable)) (hstored : PidsStored s.toProcTable e)
    (hstep : s.step e = some s') : DerefsIntended s.toProcTable e := by
  cases e with
  | exec t name opens => trivial
  | join t id =>
    intro thr index hat hindex child hchild
    obtain ⟨hlo, hhi, hslot⟩ := pcb_of_pcbAt (v := viewOf s.toProcTable) hchild
    have hscan : Scans s.toProcTable (.join t id) := ⟨hlo, hhi⟩
    obtain ⟨thr', hat', hplain⟩ := plain_of_scans hstep hscan
    obtain rfl : thr' = thr := Option.some.inj (hat'.symm.trans hat)
    have hno := not_filling_of_stored hstored hscan hat hplain
    obtain ⟨i, k, rfl, hlt, hown, -, -, hcur⟩ :=
      hO.selected_pid hT hat hplain (scanned_of_scan hindex) hno
    obtain ⟨c, hc⟩ := Option.isSome_iff_exists.mp (hT.isSome_heap hslot)
    rw [currentID_eq, hcur]
    exact ⟨c, hc, fun _ => ⟨(pcbAt_natCast hlt).mpr hown, hT.isSome_heap hown⟩⟩
  | exit t ec =>
    intro thr index hat hindex
    have hscan : Scans s.toProcTable (.exit t ec) := trivial
    obtain ⟨thr', hat', hplain⟩ := plain_of_scans hstep hscan
    obtain rfl : thr' = thr := Option.some.inj (hat'.symm.trans hat)
    have hno := not_filling_of_stored hstored hscan hat hplain
    obtain ⟨i, k, hi, hlt, hown, hk, hpid, -⟩ :=
      hO.selected_pid hT hat hplain (scanned_of_scan hindex) hno
    obtain rfl := Option.some.inj hi
    obtain ⟨c, hc, rfl⟩ := exists_heap_of_ident hk
    refine ⟨(pcbAt_natCast hlt).mpr hown, c, hc, fun hne => ?_⟩
    have ht : t ≠ 0 := by
      rintro rfl
      rw [h.boot index hown] at hpid
      exact hne hpid
    have hnone := hX.exited_eq_none hat (not_exiting_of_plain hplain) (ne_finished_of_plain hplain)
    obtain ⟨j, hparent, hj⟩ := h.parents index t _ hown ht hk hnone
    have hparent : c.parentID = j := hparent
    rw [hparent]
    exact ⟨(pcbAt_natCast (hO.bits j _ hj).1).mpr hj, hT.isSome_heap hj⟩
  | resume t garbage =>
    intro thr hat
    have hpcs := hO.pcs t thr hat
    cases hpc : thr.pc with
    | joinRead id currentID child =>
      rw [hpc] at hpcs
      obtain ⟨⟨j, hj, hown⟩, hid, -⟩ := hpcs
      obtain ⟨hslot, -⟩ := h.joins t thr id child hat (by rw [hpc]; rfl)
      rw [hj]
      exact ⟨pcbAt_of_pcb (v := viewOf s.toProcTable) hid hslot, hT.isSome_heap hslot,
        (pcbAt_natCast (hO.bits j t hown).1).mpr hown, hT.isSome_heap hown⟩
    | exitWait index pid =>
      rw [hpc] at hpcs
      exact ⟨(pcbAt_natCast (hO.bits index t hpcs.2).1).mpr hpcs.2, hT.isSome_heap hpcs.2⟩
    | _ => trivial

theorem pidsStored_resume {garbage : ℤ} (hat : s.threads t = some thr)
    (h : ∀ name opens, thr.pc ≠ .execScan name opens) : PidsStored s (.resume t garbage) :=
  pidsStored_of_noScan (noScan_resume hat h)

theorem childrenExited_resume {garbage : ℤ} (hat : s.threads t = some thr)
    (h : ∀ pid, thr.pc ≠ .exitRemove pid) : ChildrenExited s (.resume t garbage) := by
  intro self pid hat'
  rw [hat, Option.some.injEq] at hat'
  exact absurd (by rw [hat']) (h pid)

/-- SOURCE: threads/ptable.cc:68-103, 115-121 — in every run from boot of processes with different
program names in which no search is made between a `Fork` and the store of the child's `pid`, no
process leaves before all it has created have called `Exit`, and no process is joined after a
`Join` has released it, every slot that `ExitUpdate` and `JoinUpdate` dereference holds the
intended process. -/
theorem derefs_are_intended {words : ℕ → BitVec 32} {s₀ : ProcState}
    (hboot : ProcState.boot words = some s₀) {es : List ProcEvent}
    (hes : Meets ProcState.step
      (fun s e => NewName s.toProcTable e ∧ PidsStored s.toProcTable e ∧
        ChildrenExited s.toProcTable e ∧ JoinsOnce s.toProcTable e) s₀ es) :
    Meets ProcState.step (fun s e => DerefsIntended s.toProcTable e) s₀ es := by
  refine meets_of_meets (I := fun s => TableInv (viewOf s.toProcTable) ∧
    OwnInv (viewOf s.toProcTable) ∧ ExitInv (viewOf s.toProcTable) ∧
    SlotInv (viewOf s.toProcTable)) ?_ ?_
    ⟨tableInv_boot hboot, ownInv_boot hboot, exitInv_boot hboot, slotInv_boot hboot⟩ hes
  · rintro s e s' ⟨hT, hO, hX, hI⟩ ⟨-, hstored, -, -⟩ hstep
    exact hI.derefs hT hO hX hstored hstep
  · rintro s e s' ⟨hT, hO, hX, hI⟩ ⟨hname, hstored, hchildren, honce⟩ hstep
    have hview := viewStep_of_step hstep
    exact ⟨hT.step hview, hO.step hT hview hstored hname, hX.step hT hO hview hstored,
      hI.step hT hO hview hstored hchildren honce⟩

/-- SOURCE: threads/ptable.cc:20-121 — the boot process executes `A`, the child exits, the boot
process joins it, and the child leaves the table. -/
theorem derefs_are_intended_one_child :
    ∃ s₀, ProcState.boot (fun _ => 0#32) = some s₀ ∧
      Meets ProcState.step (fun s e => DerefsIntended s.toProcTable e) s₀
        [.exec 0 (some "A") true, .resume 0 7, .resume 0 0, .resume 0 0, .resume 0 0, .resume 0 0,
          .exit 1 5, .resume 1 0, .join 0 1, .resume 0 0, .resume 1 0, .resume 1 0] := by
  have hresume : ∀ {s : ProcState} {t : ThreadId} {thr : Thread} {garbage : ℤ},
      s.threads t = some thr → (∀ name opens, thr.pc ≠ .execScan name opens) →
      (∀ pid, thr.pc ≠ .exitRemove pid) →
      NewName s.toProcTable (.resume t garbage) ∧ PidsStored s.toProcTable (.resume t garbage) ∧
        ChildrenExited s.toProcTable (.resume t garbage) ∧
        JoinsOnce s.toProcTable (.resume t garbage) :=
    fun hat h h' => ⟨newName_resume hat h, pidsStored_resume hat h, childrenExited_resume hat h',
      trivial⟩
  refine ⟨_, rfl, derefs_are_intended rfl ?_⟩
  refine .cons rfl ⟨trivial, fun h => h.elim, trivial, trivial⟩ ?_
  refine .cons rfl ⟨?_, ?_, childrenExited_resume rfl (by simp), trivial⟩ ?_
  · rintro thr name opens hthr hpc (_ | i) ptr hi
    · cases hthr
      cases hpc
      cases hi
      decide
    · cases hi
  · rintro - (_ | u) hu thr hthr
    · exact absurd rfl hu
    · cases hthr
  refine .cons rfl (hresume rfl (by simp) (by simp)) ?_
  refine .cons rfl (hresume rfl (by simp) (by simp)) ?_
  refine .cons rfl (hresume rfl (by simp) (by simp)) ?_
  refine .cons rfl (hresume rfl (by simp) (by simp)) ?_
  refine .cons rfl ⟨trivial, ?_, trivial, trivial⟩ ?_
  · rintro - (_ | _ | u) hu thr hthr
    · cases hthr
      simp
    · exact absurd rfl hu
    · cases hthr
  refine .cons rfl (hresume rfl (by simp) (by simp)) ?_
  refine .cons rfl ⟨trivial, ?_, trivial, ?_⟩ ?_
  · rintro - (_ | _ | u) hu thr hthr
    · exact absurd rfl hu
    · cases hthr
      simp
    · cases hthr
  · intro child c me hchild hc hme _
    cases hchild
    cases hc
    refine ⟨rfl, fun thr hthr pid => ?_⟩
    cases hthr
    simp
  refine .cons rfl (hresume rfl (by simp) (by simp)) ?_
  refine .cons rfl (hresume rfl (by simp) (by simp)) ?_
  refine .cons rfl ⟨newName_resume rfl (by simp), pidsStored_resume rfl (by simp), ?_, trivial⟩
    trivial
  rintro self pid - (_ | _ | i) p hi hcreator
  · cases hi
    cases hcreator
  · cases hi
    cases hcreator
  · cases hi

/-- SOURCE: threads/ptable.cc:81, 115-121 — the boot process executes `A` and `A` executes `B`;
`A` exits, is joined and leaves slot `1`; when `B` exits it signals `pcb[1]`, which is `NULL`. -/
theorem orphan_signals_empty_slot :
    ∃ s₀, ProcState.boot (fun _ => 0#32) = some s₀ ∧
      ¬ Meets ProcState.step (fun s e => DerefsIntended s.toProcTable e) s₀
        (uninterruptedExec 0 "A" ++ uninterruptedExec 1 "B" ++
          [.exit 1 5, .resume 1 0, .join 0 1, .resume 0 0, .resume 0 0, .resume 1 0, .resume 1 0] ++
          [.exit 2 7]) := by
  refine ⟨_, rfl, fun h => ?_⟩
  have hexit := (h.of_append rfl).2
  obtain ⟨-, c, hc, hparent⟩ := (hexit _ rfl).1 _ 2 rfl rfl
  cases hc
  cases (hparent (by decide)).1

end Nachos.Analysis
