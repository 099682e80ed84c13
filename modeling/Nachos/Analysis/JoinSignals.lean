import Nachos.Analysis.SlotLifetimes

/-!
# When `Join` returns the exit code of the child it names

A parent waits in `Join` on one semaphore of its own, `joinsem`, and every child signals
that semaphore when it exits. The exit code is then read from the slot of the child that
the call names, whoever the signal came from. So a `Join` that finds an earlier signal of
another child, or is woken by another child, returns the code of a process that is still
running.

`JoinInv` says when this does not happen: whenever a thread inside `Join` could pass its
`joinsem`, the child it names has called `Exit` and waits to be released. The two ways to
break it are the two conditions of `SignalsMatch`, on the `Join` that finds a signal and
on the `Exit` that sends one.
-/

set_option autoImplicit false

namespace Nachos.Analysis

open Nachos.Library Nachos.Model

variable {v w : TableView} {t : ThreadId} {pc : Pc} {cur id : ℤ} {thr : Thread} {s : ProcTable}
  {p : ℕ}

/-! ## Signals and the children they are taken for -/

/-- The thread has called `Exit` and is before or inside its `exitsem->P()`. -/
def AtExitSem : Pc → Prop
  | .exitWait _ _ | .exitP _ _ => True
  | _ => False

/-- Process `p` is in slot `id`, has called `Exit` and has not been released. -/
structure Zombie (v : TableView) (id : ℤ) (p : ℕ) : Prop where
  slot : v.pcb id.toNat = some p
  unreleased : v.exit p = 0#32
  waits : ∃ thr, v.threads p = some thr ∧ AtExitSem thr.pc

/-- INTERNAL: a thread inside `Join` whose `joinsem` is up has named a child that has exited.
SRCLINE: threads/ptable.cc:79-81, 96-101 -/
structure JoinInv (v : TableView) : Prop where
  unexited : ∀ p, v.exited p = none → v.exit p = 0#32
  waiting : ∀ t thr id cur ptr child, v.threads t = some thr → thr.pc = .joinP id cur ptr child →
    v.join t ≠ 0#32 → Zombie v id child
  reading : ∀ t thr id cur child, v.threads t = some thr → thr.pc = .joinRead id cur child →
    Zombie v id child

theorem exiting_of_atExitSem (h : AtExitSem pc) : Exiting pc := by
  cases pc <;> first | exact h.elim | trivial

theorem not_atExitSem_of_plain (h : Plain pc) : ¬ AtExitSem pc :=
  fun hx => not_exiting_of_plain h (exiting_of_atExitSem hx)

theorem Zombie.setPc (h : Zombie v id p) (hat : v.threads t = some thr)
    (hthreads : w.threads = (v.setPc t pc).threads) (hpcb : w.pcb = v.pcb) (hexit : w.exit p = 0#32)
    (hpc : p = t → AtExitSem thr.pc → AtExitSem pc) : Zombie w id p := by
  refine ⟨by rw [hpcb, h.slot], hexit, ?_⟩
  obtain ⟨a, ha, hwaits⟩ := h.waits
  rw [hthreads]
  by_cases hp : p = t
  · subst hp
    rw [hat, Option.some.injEq] at ha
    subst ha
    exact ⟨_, threads_setPc_self pc hat, hpc rfl hwaits⟩
  · exact ⟨a, by rw [threads_setPc_of_ne pc hp, ha], hwaits⟩

/-- INTERNAL: a thread moves and no slot changes hands. -/
theorem JoinInv.move (h : JoinInv v)
    (hat : v.threads t = some thr) (hthreads : w.threads = (v.setPc t pc).threads)
    (hpcb : w.pcb = v.pcb) (hunexited : ∀ p, w.exited p = none → w.exit p = 0#32)
    (hzombie : ∀ u a id child, u ≠ t → v.threads u = some a →
      joinTarget a.pc = some (id, child) → v.exit child = 0#32 →
      w.exit child = 0#32 ∧ (child = t → AtExitSem thr.pc → AtExitSem pc))
    (hsignal : ∀ u a id cur ptr child, u ≠ t → v.threads u = some a →
      a.pc = .joinP id cur ptr child → w.join u ≠ 0#32 → v.join u ≠ 0#32 ∨ Zombie w id child)
    (hwaiting : ∀ id cur ptr child, pc = .joinP id cur ptr child → w.join t ≠ 0#32 →
      Zombie w id child)
    (hreading : ∀ id cur child, pc = .joinRead id cur child → Zombie w id child) : JoinInv w := by
  refine ⟨hunexited, fun u a id cur ptr child hu hpc hup => ?_, fun u a id cur child hu hpc => ?_⟩
  · rw [hthreads] at hu
    rcases threads_setPc_eq_some hat hu with ⟨rfl, rfl⟩ | ⟨hne, hu⟩
    · exact hwaiting id cur ptr child hpc hup
    · rcases hsignal u a id cur ptr child hne hu hpc hup with hold | hz
      · have hz := h.waiting u a id cur ptr child hu hpc hold
        obtain ⟨hexit, hstay⟩ := hzombie u a id child hne hu (by rw [hpc]; rfl) hz.unreleased
        exact hz.setPc hat hthreads hpcb hexit hstay
      · exact hz
  · rw [hthreads] at hu
    rcases threads_setPc_eq_some hat hu with ⟨rfl, rfl⟩ | ⟨hne, hu⟩
    · exact hreading id cur child hpc
    · have hz := h.reading u a id cur child hu hpc
      obtain ⟨hexit, hstay⟩ := hzombie u a id child hne hu (by rw [hpc]; rfl) hz.unreleased
      exact hz.setPc hat hthreads hpcb hexit hstay

theorem JoinInv.quiet (h : JoinInv v) (hat : v.threads t = some thr)
    (hthreads : w.threads = (v.setPc t pc).threads) (hpcb : w.pcb = v.pcb) (hexit : w.exit = v.exit)
    (hjoin : w.join = v.join) (hexited : w.exited = v.exited) (hout : ¬ AtExitSem thr.pc)
    (hpc : joinTarget pc = none) : JoinInv w := by
  refine h.move hat hthreads hpcb ?_ ?_ ?_ ?_ ?_
  · rw [hexited, hexit]
    exact h.unexited
  · intro u a id child _ _ _ hz
    exact ⟨by rw [hexit, hz], fun _ hx => absurd hx hout⟩
  · intro u a id cur ptr child _ _ _ hup
    exact Or.inl (hjoin ▸ hup)
  · rintro id cur ptr child rfl
    cases hpc
  · rintro id cur child rfl
    cases hpc

/-- INTERNAL: a thread tests its own `joinsem` for a child that has exited if the test passes. -/
theorem JoinInv.joinTested (h : JoinInv v) {child ptr : ℕ} {value w : BitVec 32}
    (hat : v.threads t = some thr) (hout : ¬ AtExitSem thr.pc)
    (htest : Tested value w pc (.joinRead id cur child) (.joinP id cur ptr child))
    (hup : value ≠ 0#32 → Zombie v id child) : JoinInv ((v.setSem t .joinsem w).setPc t pc) := by
  have hz : Zombie v id child → Zombie ((v.setSem t .joinsem w).setPc t pc) id child :=
    fun hz => hz.setPc hat rfl rfl hz.unreleased fun _ hx => absurd hx hout
  refine h.move hat rfl rfl h.unexited ?_ ?_ ?_ ?_
  · exact fun u a id child _ _ _ hexit => ⟨hexit, fun _ hx => absurd hx hout⟩
  · intro u a id cur ptr child hne _ _ hj
    change Function.update v.join t w u ≠ 0#32 at hj
    rw [Function.update_of_ne hne] at hj
    exact Or.inl hj
  · intro id' cur' ptr' child' hpc hj
    change Function.update v.join t w t ≠ 0#32 at hj
    rw [Function.update_self] at hj
    rcases htest with ⟨-, -, rfl⟩ | ⟨hzero, rfl, -⟩
    · cases hpc
    · exact absurd hzero hj
  · intro id' cur' child' hpc
    rcases htest with ⟨hpos, -, rfl⟩ | ⟨-, -, rfl⟩
    · cases hpc
      exact hz (hup hpos)
    · cases hpc

theorem JoinInv.publish (hT : TableInv v) (h : JoinInv v) {pid : ℕ} (currentID garbage : ℤ)
    (hnone : v.pcb pid = none) : JoinInv (v.publish t pid currentID garbage) := by
  have hz : ∀ id p, Zombie v id p → Zombie (v.publish t pid currentID garbage) id p := by
    intro id p hz
    refine ⟨update_some_of_some v.next hnone hz.slot, ?_, hz.waits⟩
    show Function.update v.exit v.next 0#32 p = 0#32
    rw [Function.update_of_ne (hT.slot _ p hz.slot).1.ne, hz.unreleased]
  refine ⟨fun p hp => ?_, fun u a id cur ptr child hu hpc hup => ?_,
    fun u a id cur child hu hpc => hz id child (h.reading u a id cur child hu hpc)⟩
  · show Function.update v.exit v.next 0#32 p = 0#32
    by_cases hpn : p = v.next
    · rw [hpn, Function.update_self]
    · rw [Function.update_of_ne hpn]
      exact h.unexited p hp
  · apply hz
    apply h.waiting u a id cur ptr child hu hpc
    change Function.update v.join v.next 0#32 u ≠ 0#32 at hup
    rwa [Function.update_of_ne (Nat.ne_of_lt (hT.lt_next hu))] at hup

theorem JoinInv.fork (h : JoinInv v) (name : String) {ptr : ℕ} (k : Ident)
    (hptr : v.threads ptr = none) : JoinInv (v.fork name ptr k) := by
  have hz : ∀ id p, Zombie v id p → Zombie (v.fork name ptr k) id p := by
    intro id p hz
    obtain ⟨a, ha, hwaits⟩ := hz.waits
    exact ⟨hz.slot, hz.unreleased, a, TableView.threads_fork_of_some ha hptr name k, hwaits⟩
  refine ⟨h.unexited, fun u a id cur p child hu hpc hup => ?_, fun u a id cur child hu hpc => ?_⟩
  · rcases threads_fork_cases hu with ⟨-, rfl⟩ | hu
    · cases hpc
    · exact hz id child (h.waiting u a id cur p child hu hpc hup)
  · rcases threads_fork_cases hu with ⟨-, rfl⟩ | hu
    · cases hpc
    · exact hz id child (h.reading u a id cur child hu hpc)

/-- INTERNAL: a process that has been released leaves; nobody waits for it any more. -/
theorem JoinInv.leave (h : JoinInv v) {self : String} {i : ℕ} (bm : BitMap)
    (hat : v.threads t = some ⟨self, .exitRemove i⟩) (hslot : v.pcb i = some t) :
    JoinInv ((v.remove i t bm).setPc t .finished) := by
  have hat' : (v.remove i t bm).threads t = some ⟨self, .exitRemove i⟩ := hat
  have hz : ∀ id p, Zombie v id p → Zombie ((v.remove i t bm).setPc t .finished) id p := by
    intro id p hz
    obtain ⟨a, ha, hwaits⟩ := hz.waits
    have hne : p ≠ t := by
      rintro rfl
      rw [hat, Option.some.injEq] at ha
      rw [← ha] at hwaits
      exact hwaits
    refine ⟨update_none_of_ne hslot hne hz.slot, ?_, a, ?_, hwaits⟩
    · show Function.update v.exit t 0#32 p = 0#32
      rw [Function.update_of_ne hne, hz.unreleased]
    · rw [threads_setPc_of_ne _ hne]
      exact ha
  refine ⟨fun p hp => ?_, fun u a id cur ptr child hu hpc hup => ?_, fun u a id cur child hu hpc => ?_⟩
  · show Function.update v.exit t 0#32 p = 0#32
    by_cases hpt : p = t
    · rw [hpt, Function.update_self]
    · rw [Function.update_of_ne hpt]
      exact h.unexited p hp
  · rcases threads_setPc_eq_some hat' hu with ⟨-, rfl⟩ | ⟨hne, hu⟩
    · cases hpc
    · apply hz
      apply h.waiting u a id cur ptr child hu hpc
      change Function.update v.join t 0#32 u ≠ 0#32 at hup
      rwa [Function.update_of_ne hne] at hup
  · rcases threads_setPc_eq_some hat' hu with ⟨-, rfl⟩ | ⟨-, hu⟩
    · cases hpc
    · exact hz id child (h.reading u a id cur child hu hpc)

/-! ## The conditions on a step -/

/-- The thread is between two `P`s of one call. -/
def BetweenPs : Pc → Prop
  | .execStore _ _ | .execFail _ | .execRelease _ | .execReturn _ | .joinReturn _
  | .exitWait _ _ => True
  | _ => False

/-- A thread takes over only when every other one is in its user program, in a `P`, or at the end
of one: the calls are cut into steps at their `P`s. -/
def CutAtPs (s : ProcTable) (e : ProcEvent) : Prop :=
  ∀ u, u ≠ e.thread → ∀ thr, s.threads u = some thr → ¬ BetweenPs thr.pc

/-- Process `p` has called `Exit` and no `Join` has released it. -/
def AwaitsJoin (s : ProcTable) (p : ℕ) : Prop :=
  ∃ thr c, s.threads p = some thr ∧ AtExitSem thr.pc ∧ s.heap p = some c ∧ c.exitsem.value = 0#32

/-- Signals are taken for the right child. A `Join` that passes its checks and finds its
caller's `joinsem` up names a child that has exited and not been joined; and a process that exits
while the process in its parent's slot waits in a `Join` is the child which that `Join` names,
unless that child has already exited and not been joined. -/
def SignalsMatch (s : ProcTable) : ProcEvent → Prop
  | .join t id => ∀ child c me, s.pcbAt id = some child → s.heap child = some c →
      s.heap t = some me → c.parentID = me.pid → me.joinsem.value ≠ 0#32 → AwaitsJoin s child
  | .exit t _ => ∀ me q a id cur ptr child, s.heap t = some me → s.pcbAt me.parentID = some q →
      s.threads q = some a → a.pc = .joinP id cur ptr child → child = t ∨ AwaitsJoin s child
  | _ => True

theorem pidsStored_of_cutAtPs {e : ProcEvent} (h : CutAtPs s e) : PidsStored s e := by
  intro _ u hu thr hthr pid ptr hpc
  apply h u hu thr hthr
  rw [hpc]
  trivial

theorem Joining.slot_of {child i : ℕ} (h : Joining v t id cur child) (hi : v.pcb i = some child) :
    v.pcb id.toNat = some child := by
  have hid : id.toNat = i := by
    have := h.stays i hi
    omega
  rw [hid, hi]

theorem AwaitsJoin.zombie (h : AwaitsJoin s p) (hO : OwnInv (viewOf s))
    (hjoin : Joining (viewOf s) t id cur p) : Zombie (viewOf s) id p := by
  obtain ⟨thr, c, hthr, hwaits, hc, hexit⟩ := h
  have hlive : thr.pc ≠ .finished := by
    intro hfin
    rw [hfin] at hwaits
    exact hwaits
  obtain ⟨i, hi⟩ := hO.own p thr hthr hlive
  exact ⟨hjoin.slot_of hi, (exit_viewOf hc).trans hexit, thr, hthr, hwaits⟩

theorem ExitInv.exited_ne_none (h : ExitInv v)
    (hp : ∃ thr, v.threads p = some thr ∧ AtExitSem thr.pc) : v.exited p ≠ none := by
  obtain ⟨thr, hthr, hwaits⟩ := hp
  rw [h.recorded p thr hthr (exiting_of_atExitSem hwaits)]
  exact Option.some_ne_none _

theorem JoinInv.joinRead (hO : OwnInv v) (hX : ExitInv v) (h : JoinInv v) {self : String}
    {id cur code : ℤ} {child : ℕ} {value : BitVec 32} {k : Ident}
    (hat : v.threads t = some ⟨self, .joinRead id cur child⟩) (hk : v.ident child = some k) :
    JoinInv ((v.setSem child .exitsem value).setPc t (.joinReturn code)) := by
  have hz := h.reading _ _ _ _ _ hat rfl
  have hjoining : Joining v t id cur child := hO.pcs _ _ hat
  refine h.move hat rfl rfl ?_ ?_ (fun _ _ _ _ _ _ _ _ _ hup => Or.inl hup) nofun nofun
  · intro p hp
    refine (Function.update_of_ne ?_ _ _).trans (h.unexited p hp)
    rintro rfl
    exact hX.exited_ne_none hz.waits hp
  · intro u a id' child' hne hu hjoin hexit
    refine ⟨(Function.update_of_ne ?_ _ _).trans hexit, fun _ hx => hx.elim⟩
    rintro rfl
    obtain ⟨cur', hother⟩ := hO.joining_of_target hu hjoin
    exact hne (hother.unique hjoining hk)

/-- INTERNAL: a process that has exited and has not been released waits on. -/
theorem JoinInv.exitTested (hX : ExitInv v) (h : JoinInv v) {pid : ℤ} {w : BitVec 32}
    (hat : v.threads t = some thr) (hfrom : AtExitSem thr.pc)
    (htest : Tested (v.exit t) w pc (.exitRemove pid) (.exitP pid t)) :
    JoinInv ((v.setSem t .exitsem w).setPc t pc) := by
  have hpc : joinTarget pc = none := by
    rcases htest.cases_pc with rfl | rfl <;> rfl
  refine h.move hat rfl rfl ?_ ?_ (fun _ _ _ _ _ _ _ _ _ hup => Or.inl hup) ?_ ?_
  · intro p hp
    refine (Function.update_of_ne ?_ _ _).trans (h.unexited p hp)
    rintro rfl
    exact hX.exited_ne_none ⟨thr, hat, hfrom⟩ hp
  · intro u a id child hne hu hjoin hexit
    by_cases hc : child = t
    · subst hc
      rcases htest with ⟨hpos, -⟩ | ⟨-, hw, rfl⟩
      · exact absurd hexit hpos
      · exact ⟨(Function.update_self _ _ _).trans (hw.trans hexit), fun _ _ => trivial⟩
    · exact ⟨(Function.update_of_ne hc _ _).trans hexit, fun h => absurd h hc⟩
  · rintro id cur ptr child rfl
    cases hpc
  · rintro id cur child rfl
    cases hpc

/-- INTERNAL: `Exit` raises the `joinsem` of its parent. If the parent waits in a `Join`, then for a child that has
exited by now. -/
theorem JoinInv.exit (h : JoinInv v) {t parent : ThreadId}
    {value : BitVec 32} (hat : v.threads t = some thr) (hthreads : w.threads = (v.setPc t pc).threads)
    (hpcb : w.pcb = v.pcb) (hexit : w.exit = v.exit) (hexited : ∀ p, w.exited p = none → v.exited p = none)
    (hjoin : w.join = Function.update v.join parent value) (hout : ¬ AtExitSem thr.pc)
    (hpc : joinTarget pc = none)
    (hawaited : ∀ a id cur ptr child, v.threads parent = some a → a.pc = .joinP id cur ptr child →
      Zombie w id child) : JoinInv w := by
  refine h.move hat hthreads hpcb ?_ ?_ ?_ ?_ ?_
  · intro p hp
    rw [hexit]
    exact h.unexited p (hexited p hp)
  · intro u a id child _ _ _ hz
    exact ⟨by rw [hexit, hz], fun _ hx => absurd hx hout⟩
  · intro u a id cur ptr child hne hu hpc hup
    by_cases hparent : u = parent
    · subst hparent
      exact Or.inr (hawaited a id cur ptr child hu hpc)
    · rw [hjoin, Function.update_of_ne hparent] at hup
      exact Or.inl hup
  · rintro id cur ptr child rfl
    cases hpc
  · rintro id cur child rfl
    cases hpc

/-- INTERNAL: **a signal is taken for the right child** after every step that keeps the
conditions. -/
theorem JoinInv.step {e : ProcEvent} {v' : TableView} (hT : TableInv (viewOf s))
    (hO : OwnInv (viewOf s)) (hX : ExitInv (viewOf s)) (h : JoinInv (viewOf s))
    (hstep : ViewStep (viewOf s) e v') (hstored : PidsStored s e) (hmatch : SignalsMatch s e) :
    JoinInv v' := by
  cases hstep with
  | refuse => exact h
  | plain pc hat hfrom hto hn hbm =>
    exact h.quiet hat rfl rfl rfl rfl rfl (not_atExitSem_of_plain hfrom) (joinTarget_of_plain hto)
  | publish hat hpid hfree hscan hid =>
    exact (h.publish hT _ _ (hO.pcb_of_free hfree)).quiet hat rfl rfl rfl rfl rfl (fun h => h) rfl
  | mutexTest hat hpc =>
    refine h.quiet hat rfl rfl rfl rfl rfl (fun h => h) ?_
    rcases hpc with rfl | rfl <;> rfl
  | fork hat hk hnone =>
    have hptr := (hT.filling _ _ _ false ⟨_, hat, rfl⟩).2.2.2 rfl
    exact (h.fork _ _ hptr).quiet (TableView.threads_fork_of_some hat hptr _ _) rfl rfl rfl rfl rfl
      (fun h => h) rfl
  | forkFail hat hk hsome => exact absurd (hT.thread_eq_none hat hk) hsome
  | store hat hk => exact h.quiet hat rfl rfl rfl rfl rfl (fun h => h) rfl
  | discard hat hptr hbm => exact absurd rfl (hT.noFail _ _ _ hat)
  | @join t self id index child ptr kc km w pc hat hid hscan hchild hkc hparent hptr hkm htest =>
    have hno := not_filling_of_stored hstored hid hat trivial
    obtain ⟨i, k, rfl, -, -, hk, hpid, hcur⟩ := hO.selected_pid hT hat trivial hscan hno
    obtain ⟨rfl, hjoining⟩ := hO.joining hT hat hid hscan hchild hkc hparent hptr hno
    obtain ⟨c, hc, rfl⟩ := exists_heap_of_ident hkc
    obtain ⟨me, hme, rfl⟩ := exists_heap_of_ident hk
    have hup : me.joinsem.value ≠ 0#32 → Zombie (viewOf s) id child := by
      intro hup
      refine (hmatch child c me (pcbAt_of_pcb hid hchild) hc hme ?_ hup).zombie hO hjoining
      rw [hcur, ← hpid] at hparent
      exact hparent
    rw [join_viewOf hme] at htest
    exact h.joinTested hat (fun h => h) htest hup
  | @joinTest t self garbage id cur ptr child km w pc hat hkm htest =>
    obtain ⟨rfl, -⟩ := hO.pcs _ _ hat
    exact h.joinTested hat (fun h => h) htest fun hup => h.waiting _ _ _ _ _ _ hat rfl hup
  | @joinRead t self garbage id cur child ptr kc hat hptr hkc =>
    have hz := h.reading _ _ _ _ _ hat rfl
    obtain ⟨-, -, hslot⟩ := pcb_of_pcbAt hptr
    obtain rfl : ptr = child := Option.some.inj (hslot.symm.trans hz.slot)
    exact h.joinRead hO hX hat hkc
  | @exit t self ec index ptr parent k kp hat hscan hptr hk hpid hparent hkp =>
    have hno := not_filling_of_stored hstored trivial hat trivial
    obtain ⟨rfl, -, hslot⟩ := hO.exiting hT hat hscan hptr hk hno
    obtain ⟨me, hme, rfl⟩ := exists_heap_of_ident hk
    refine h.exit hat rfl rfl rfl (fun p hp => eq_none_of_update_some hp) rfl (fun hx => hx) rfl ?_
    intro a id cur p child hu hpc
    have hown := hO.pcs parent a hu
    rw [hpc] at hown
    -- the signal is for a `Join` that waits: its child is `t` or has exited before
    rcases hmatch me parent a id cur p child hme hparent hu hpc with rfl | hawaits
    · have hnone := hX.exited_eq_none hat (fun hx => hx) nofun
      exact ⟨hown.2.slot_of hslot, h.unexited child hnone, _, threads_setPc_self _ hat, trivial⟩
    · have hz := hawaits.zombie hO hown.2
      exact hz.setPc hat rfl rfl hz.unreleased fun _ hx => hx.elim
  | exitTest hat hfrom hk htest =>
    obtain ⟨rfl, -⟩ := hO.exitWaiting hat hfrom
    refine h.exitTested hX hat ?_ htest
    rcases hfrom with rfl | ⟨index, rfl, -⟩ <;> trivial
  | leave hat hnone =>
    obtain ⟨i, -, -, -, hself⟩ := hO.leaving hat
    rw [hself] at hnone
    cases hnone
  | remove hat hptr hfile hbm =>
    obtain ⟨i, rfl, -, hslot, hself⟩ := hO.leaving hat
    obtain rfl := Option.some.inj (hself.symm.trans hptr)
    exact h.leave _ hat hslot

theorem joinInv_boot {words : ℕ → BitVec 32} {s₀ : ProcState}
    (h : ProcState.boot words = some s₀) : JoinInv (viewOf s₀.toProcTable) := by
  obtain ⟨-, hheap, hthreads, -, -, -, -⟩ := boot_spec h
  have huser : ∀ t thr, (viewOf s₀.toProcTable).threads t = some thr → thr.pc = .user := by
    intro t thr ht
    simp only [viewOf, hthreads, Option.ite_none_right_eq_some, Option.some.injEq] at ht
    rw [← ht.2]
  refine ⟨fun p _ => ?_, fun t thr id cur ptr child ht hpc => ?_, fun t thr id cur child ht hpc => ?_⟩
  · by_cases hp : p = 0
    · simp [viewOf, hheap, hp, PCB.new, Semaphore.new]
    · simp [viewOf, hheap, hp]
  · rw [huser t thr ht] at hpc
    cases hpc
  · rw [huser t thr ht] at hpc
    cases hpc

/-! ## The exit code that `Join` returns -/

/-- If the step goes on after the wait of a `Join(id)`, then the exit code it reads from `pcb[id]`
and will return is the one with which the child that was in slot `id` at the call has called
`Exit`. -/
def JoinReturnsExit (s : ProcTable) : ProcEvent → Prop
  | .resume t _ => ∀ thr id currentID child, s.threads t = some thr →
      thr.pc = .joinRead id currentID child →
      ∀ c, s.deref id = some c → s.exited child = some c.exitcode
  | _ => True

theorem JoinInv.returns (hX : ExitInv (viewOf s)) (h : JoinInv (viewOf s)) (e : ProcEvent) :
    JoinReturnsExit s e := by
  cases e with
  | resume t garbage =>
    intro thr id cur child hat hpc c hc
    have hz := h.reading t thr id cur child hat hpc
    obtain ⟨ptr, hptr, hheap⟩ := Option.bind_eq_some_iff.mp hc
    obtain ⟨-, -, hslot⟩ := pcb_of_pcbAt (v := viewOf s) hptr
    obtain rfl : ptr = child := Option.some.inj (hslot.symm.trans hz.slot)
    obtain ⟨a, ha, hwaits⟩ := hz.waits
    rw [← code_viewOf hheap]
    exact hX.recorded ptr a ha (exiting_of_atExitSem hwaits)
  | _ => trivial

/-- SOURCE: threads/ptable.cc:68-103, threads/pcb.cc:61-79 — in every run from boot of processes
with different program names whose calls are cut into steps at their `P`s, if each signal is
taken for the right child then every `Join` returns the code with which the child it names has
called `Exit`. -/
theorem join_returns_exit {words : ℕ → BitVec 32} {s₀ : ProcState}
    (hboot : ProcState.boot words = some s₀) {es : List ProcEvent}
    (hes : Meets ProcState.step
      (fun s e => NewName s.toProcTable e ∧ CutAtPs s.toProcTable e ∧
        SignalsMatch s.toProcTable e) s₀ es) :
    Meets ProcState.step (fun s e => JoinReturnsExit s.toProcTable e) s₀ es := by
  refine meets_of_meets (I := fun s => TableInv (viewOf s.toProcTable) ∧
    OwnInv (viewOf s.toProcTable) ∧ ExitInv (viewOf s.toProcTable) ∧
    JoinInv (viewOf s.toProcTable)) ?_ ?_
    ⟨tableInv_boot hboot, ownInv_boot hboot, exitInv_boot hboot, joinInv_boot hboot⟩ hes
  · rintro s e s' ⟨-, -, hX, hI⟩ - -
    exact hI.returns hX e
  · rintro s e s' ⟨hT, hO, hX, hI⟩ ⟨hname, hcut, hmatch⟩ hstep
    have hview := viewStep_of_step hstep
    have hstored := pidsStored_of_cutAtPs hcut
    exact ⟨hT.step hview, hO.step hT hview hstored hname, hX.step hT hO hview hstored,
      hI.step hT hO hX hview hstored hmatch⟩

/-- SOURCE: threads/ptable.cc:20-103 — the boot process executes `A`, the child exits with code
`5`, and the boot process joins it. -/
theorem join_returns_exit_one_child :
    ∃ s₀, ProcState.boot (fun _ => 0#32) = some s₀ ∧
      Meets ProcState.step (fun s e => JoinReturnsExit s.toProcTable e) s₀
        [.exec 0 (some "A") true, .resume 0 7, .resume 0 0, .resume 0 0, .resume 0 0, .resume 0 0,
          .exit 1 5, .resume 1 0, .join 0 1, .resume 0 0] := by
  -- only threads `0` and `1` exist, so the one that does not run decides
  have hmain : ∀ {s : ProcTable} {e : ProcEvent}, e.thread = 0 →
      (∀ thr, s.threads 1 = some thr → ¬ BetweenPs thr.pc) → (∀ u, s.threads (u + 2) = none) →
      CutAtPs s e := by
    rintro s e he h1 h2 (_ | _ | u) hu thr hthr
    · exact absurd he.symm hu
    · exact h1 thr hthr
    · rw [h2 u] at hthr
      cases hthr
  have hchild : ∀ {s : ProcTable} {e : ProcEvent}, e.thread = 1 →
      s.threads 0 = some ⟨"main", .user⟩ → (∀ u, s.threads (u + 2) = none) → CutAtPs s e := by
    rintro s e he h0 h2 (_ | _ | u) hu thr hthr
    · rw [h0, Option.some.injEq] at hthr
      subst hthr
      exact fun h => h
    · exact absurd he.symm hu
    · rw [h2 u] at hthr
      cases hthr
  have hnone : ∀ thr : Thread, none = some thr → ¬ BetweenPs thr.pc := fun _ h => by cases h
  have hat : ∀ {pc : Pc}, ¬ BetweenPs pc →
      ∀ thr : Thread, some ⟨"A", pc⟩ = some thr → ¬ BetweenPs thr.pc := by
    rintro pc hpc thr hthr
    cases hthr
    exact hpc
  have huser : ∀ thr : Thread, some ⟨"A", .user⟩ = some thr → ¬ BetweenPs thr.pc := hat fun h => h
  refine ⟨_, rfl, join_returns_exit rfl ?_⟩
  refine .cons rfl ⟨trivial, hmain rfl hnone fun _ => rfl, trivial⟩ ?_
  refine .cons rfl ⟨?_, hmain rfl hnone fun _ => rfl, trivial⟩ ?_
  · rintro thr name opens hthr hpc (_ | i) ptr hi
    · cases hthr
      cases hpc
      cases hi
      decide
    · cases hi
  refine .cons rfl ⟨newName_resume rfl (by simp), hmain rfl hnone fun _ => rfl, trivial⟩ ?_
  refine .cons rfl ⟨newName_resume rfl (by simp), hmain rfl huser fun _ => rfl, trivial⟩ ?_
  refine .cons rfl ⟨newName_resume rfl (by simp), hmain rfl huser fun _ => rfl, trivial⟩ ?_
  refine .cons rfl ⟨newName_resume rfl (by simp), hmain rfl huser fun _ => rfl, trivial⟩ ?_
  refine .cons rfl ⟨trivial, hchild rfl rfl fun _ => rfl, ?_⟩ ?_
  · -- the parent is not in a `Join`
    intro me q a id cur ptr child hme hq ha hpc
    cases hme
    cases hq
    cases ha
    cases hpc
  refine .cons rfl ⟨newName_resume rfl (by simp), hchild rfl rfl fun _ => rfl, trivial⟩ ?_
  refine .cons rfl ⟨trivial, hmain rfl (hat (fun h => h)) fun _ => rfl, ?_⟩ ?_
  · intro child c me hslot hc hme _ _
    cases hslot
    exact ⟨_, c, rfl, trivial, hc, by cases hc; rfl⟩
  refine .cons rfl ⟨newName_resume rfl (by simp), ?_, trivial⟩ trivial
  exact hmain rfl (hat (fun h => h)) fun _ => rfl

/-- SOURCE: threads/ptable.cc:81, 98-99 — the boot process executes `A` and `B`, and `B` exits with
code `7`. The boot process then calls `Join(1)`, passes its semaphore on the signal of `B`, and
reads `0` from the slot of `A`, which is still running. -/
theorem join_returns_before_exit :
    ∃ s₀, ProcState.boot (fun _ => 0#32) = some s₀ ∧
      ¬ Meets ProcState.step (fun s e => JoinReturnsExit s.toProcTable e) s₀
        (uninterruptedExec 0 "A" ++ uninterruptedExec 0 "B" ++
          [.exit 2 7, .resume 2 0, .join 0 1] ++ [.resume 0 0]) := by
  refine ⟨_, rfl, fun h => ?_⟩
  have hread := (h.of_append rfl).2
  cases (hread _ rfl).1 _ 1 0 1 rfl rfl _ rfl

end Nachos.Analysis
