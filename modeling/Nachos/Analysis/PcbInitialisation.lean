import Nachos.Library.Runs
import Nachos.Analysis.ProcessTableSteps

/-!
# When a half-initialised `PCB` can be seen

`ExecUpdate` stores the new `PCB` in the table before `PCB::Exec` gives it a thread and a
`pid`. Until then the slot is *being filled* by the thread inside `PCB::Exec`, and the end
of `mutex->P()` and the end of `Fork` are places where that thread can lose the processor.

`TableInv` says that nothing else is wrong with the table: a slot in use holds a `PCB`
with its thread and its own number, or some thread is filling it. Every step keeps this,
whatever the names of the programs and whoever selects whose slot, so a search meets a
half-initialised `PCB` exactly when it is made while another thread is filling a slot.
-/

set_option autoImplicit false

namespace Nachos.Analysis

open Nachos.Library Nachos.Model

variable {v v' : TableView} {pid ptr : ℕ} {t u : ThreadId} {name self : String} {thr : Thread}
  {k : Ident} {forked : Bool}

/-! ## Slots being filled -/

/-- Thread `u` is inside `PCB::Exec`, filling slot `pid` with the `PCB` `ptr`; `forked` says
whether the thread of that `PCB` exists already. -/
def Filling (v : TableView) (u : ThreadId) (pid ptr : ℕ) (forked : Bool) : Prop :=
  ∃ thr, v.threads u = some thr ∧ window thr.pc = some (pid, ptr, forked)

/-- INTERNAL: the table is sound up to the slots that are being filled.
SRCLINE: threads/ptable.cc:54-56, threads/pcb.cc:40-59 -/
structure TableInv (v : TableView) : Prop where
  slot : ∀ i ptr, v.pcb i = some ptr → ptr < v.next ∧ ∃ k, v.ident ptr = some k ∧
    ((k.thread ≠ none ∧ k.pid = i) ∨ ∃ u forked, Filling v u i ptr forked)
  inj : ∀ i j ptr, v.pcb i = some ptr → v.pcb j = some ptr → i = j
  fresh : ∀ t : ℕ, v.next ≤ t → v.threads t = none
  filling : ∀ u pid ptr forked, Filling v u pid ptr forked →
    ptr < v.next ∧ (∀ i, v.pcb i = some ptr → i = pid) ∧
      (∀ k, v.ident ptr = some k → (k.thread = none ↔ forked = false)) ∧
      (forked = false → v.threads ptr = none)
  alone : ∀ u u' pid pid' ptr forked forked', Filling v u pid ptr forked →
    Filling v u' pid' ptr forked' → u = u'
  noFail : ∀ u thr pid, v.threads u = some thr → thr.pc ≠ .execFail pid

theorem filling_update (h : v'.threads = Function.update v.threads t (some thr)) :
    Filling v' u pid ptr forked ↔
      (u = t ∧ window thr.pc = some (pid, ptr, forked)) ∨ (u ≠ t ∧ Filling v u pid ptr forked) := by
  unfold Filling
  rw [h]
  by_cases hu : u = t
  · subst hu
    simp
  · simp [hu]

theorem filling_fork {ptr pid q : ℕ} (h : v.threads ptr = none) :
    Filling (v.fork name ptr k) u pid q forked ↔ Filling v u pid q forked := by
  unfold Filling
  by_cases hu : u = ptr
  · subst hu
    simp [TableView.fork, window, h]
  · simp [TableView.fork, hu]

theorem Filling.same {pid pid' ptr ptr' : ℕ} {forked forked' : Bool}
    (h : Filling v u pid ptr forked) (h' : Filling v u pid' ptr' forked') : ptr = ptr' := by
  obtain ⟨thr, hthr, hw⟩ := h
  obtain ⟨thr', hthr', hw'⟩ := h'
  obtain rfl := Option.some.inj (hthr.symm.trans hthr')
  rw [hw, Option.some.injEq, Prod.mk.injEq, Prod.mk.injEq] at hw'
  exact hw'.2.1

theorem not_filling_of_window (hat : v.threads t = some thr) (hw : window thr.pc = none) :
    ¬ Filling v t pid ptr forked := by
  rintro ⟨thr', hat', hw'⟩
  rw [hat, Option.some.injEq] at hat'
  subst hat'
  rw [hw] at hw'
  cases hw'

theorem TableInv.thread_eq_none (h : TableInv v)
    (hat : v.threads t = some ⟨self, .execFork name pid ptr⟩) (hk : v.ident ptr = some k) :
    k.thread = none := by
  obtain ⟨-, -, hthread, -⟩ := h.filling t pid ptr false ⟨_, hat, rfl⟩
  exact (hthread k hk).mpr rfl

theorem TableInv.lt_next (h : TableInv v) (hat : v.threads t = some thr) : t < v.next := by
  by_contra hle
  rw [h.fresh t (Nat.not_lt.mp hle)] at hat
  cases hat

/-! ## Slots before and after -/

theorem TableInv.pcb_remove (h : TableInv v) {pid ptr i q : ℕ} (hslot : v.pcb pid = some ptr)
    (hi : Function.update v.pcb pid none i = some q) : v.pcb i = some q ∧ q ≠ ptr ∧ i ≠ pid := by
  obtain ⟨hne, hi⟩ := update_none_cases hi
  refine ⟨hi, ?_, hne⟩
  rintro rfl
  exact hne (h.inj i pid q hi hslot)

theorem threads_fork_cases {a : Thread} (h : (v.fork name ptr k).threads u = some a) :
    (u = ptr ∧ a = ⟨name, .user⟩) ∨ v.threads u = some a :=
  (update_some_cases h).imp id And.right

/-! ## Steps -/

/-- INTERNAL: semaphores, exit codes and the bitmap do not matter here. -/
theorem TableInv.congr {v w : TableView} (h : TableInv v) (hpcb : w.pcb = v.pcb)
    (hident : w.ident = v.ident) (hnext : w.next = v.next) (hthreads : w.threads = v.threads) :
    TableInv w := by
  have hfill : ∀ u pid ptr forked, Filling w u pid ptr forked ↔ Filling v u pid ptr forked := by
    intro u pid ptr forked
    unfold Filling
    rw [hthreads]
  constructor
  · intro i ptr hi
    rw [hpcb] at hi
    simp only [hident, hnext, hfill]
    exact h.slot i ptr hi
  · rw [hpcb]
    exact h.inj
  · rw [hnext, hthreads]
    exact h.fresh
  · intro u pid ptr forked hf
    rw [hnext, hpcb, hident, hthreads]
    exact h.filling u pid ptr forked ((hfill _ _ _ _).mp hf)
  · intro u u' pid pid' ptr forked forked' hf hf'
    exact h.alone u u' pid pid' ptr forked forked' ((hfill _ _ _ _).mp hf) ((hfill _ _ _ _).mp hf')
  · rw [hthreads]
    exact h.noFail

/-- INTERNAL: a thread moves and fills what it filled before, if anything. -/
theorem TableInv.setPc (h : TableInv v) {pc : Pc} (hat : v.threads t = some thr)
    (hwin : window pc = window thr.pc) (hfail : ∀ pid, pc ≠ .execFail pid) :
    TableInv (v.setPc t pc) := by
  have hthreads := TableView.threads_setPc hat pc
  have hfill : ∀ u pid ptr forked,
      Filling (v.setPc t pc) u pid ptr forked ↔ Filling v u pid ptr forked := by
    intro u pid ptr forked
    rw [filling_update hthreads, hwin]
    constructor
    · rintro (⟨rfl, hw⟩ | ⟨-, hf⟩)
      · exact ⟨thr, hat, hw⟩
      · exact hf
    · intro hf
      by_cases hu : u = t
      · subst hu
        obtain ⟨thr', hat', hw⟩ := hf
        rw [hat, Option.some.injEq] at hat'
        exact Or.inl ⟨rfl, hat' ▸ hw⟩
      · exact Or.inr ⟨hu, hf⟩
  have hnone : ∀ p, v.threads p = none → (v.setPc t pc).threads p = none := by
    intro p hp
    rw [hthreads, Function.update_of_ne, hp]
    rintro rfl
    rw [hat] at hp
    cases hp
  constructor
  · intro i ptr hi
    obtain ⟨hlt, k, hk, hinit⟩ := h.slot i ptr hi
    refine ⟨hlt, k, hk, ?_⟩
    simpa only [hfill] using hinit
  · exact h.inj
  · exact fun p hp => hnone p (h.fresh p hp)
  · intro u pid ptr forked hf
    obtain ⟨hlt, hslot, hthread, hpre⟩ := h.filling u pid ptr forked ((hfill _ _ _ _).mp hf)
    exact ⟨hlt, hslot, hthread, fun hforked => hnone ptr (hpre hforked)⟩
  · intro u u' pid pid' ptr forked forked' hf hf'
    exact h.alone u u' pid pid' ptr forked forked' ((hfill _ _ _ _).mp hf) ((hfill _ _ _ _).mp hf')
  · intro u thr' pid hu
    rcases threads_setPc_eq_some hat hu with ⟨-, rfl⟩ | ⟨-, hu⟩
    · exact hfail pid
    · exact h.noFail u thr' pid hu

/-- INTERNAL: a new `PCB` is being filled from the moment it is in the table. -/
theorem TableInv.publish (h : TableInv v) {pc : Pc} {currentID garbage : ℤ}
    (hat : v.threads t = some ⟨self, pc⟩) (hwin : window pc = none)
    (hv' : v' = (v.publish t pid currentID garbage).setPc t (.execFork name pid v.next)) :
    TableInv v' := by
  have ht := h.lt_next hat
  have hthreads : v'.threads =
      Function.update v.threads t (some ⟨self, .execFork name pid v.next⟩) := by
    rw [hv']
    exact TableView.threads_setPc (v := v.publish t pid currentID garbage) hat _
  have hpcb : v'.pcb = Function.update v.pcb pid (some v.next) := by rw [hv']; rfl
  have hident : v'.ident = Function.update v.ident v.next (some ⟨none, garbage, currentID⟩) := by
    rw [hv']; rfl
  have hnext : v'.next = v.next + 1 := by rw [hv']; rfl
  have hfill : ∀ u pid' ptr forked, Filling v' u pid' ptr forked ↔
      (u = t ∧ pid' = pid ∧ ptr = v.next ∧ forked = false) ∨
        (u ≠ t ∧ Filling v u pid' ptr forked) := by
    intro u pid' ptr forked
    rw [filling_update hthreads]
    simp only [window, Option.some.injEq, Prod.mk.injEq, eq_comm]
  have hold : ∀ u pid' ptr forked, Filling v u pid' ptr forked → Filling v' u pid' ptr forked := by
    intro u pid' ptr forked hf
    refine (hfill u pid' ptr forked).mpr (Or.inr ⟨?_, hf⟩)
    rintro rfl
    exact not_filling_of_window hat hwin hf
  constructor
  · intro i ptr hi
    rw [hpcb] at hi
    rcases update_some_cases hi with ⟨rfl, rfl⟩ | ⟨-, hi⟩
    · refine ⟨by omega, _, by rw [hident, Function.update_self], Or.inr ⟨t, false, ?_⟩⟩
      exact (hfill t i v.next false).mpr (Or.inl ⟨rfl, rfl, rfl, rfl⟩)
    · obtain ⟨hlt, k, hk, hinit⟩ := h.slot i ptr hi
      refine ⟨by omega, k, by rw [hident, Function.update_of_ne (by omega), hk], ?_⟩
      exact hinit.imp id fun ⟨u, forked, hf⟩ => ⟨u, forked, hold u i ptr forked hf⟩
  · intro i j ptr hi hj
    rw [hpcb] at hi hj
    rcases update_some_cases hi with ⟨hip, hnew⟩ | ⟨-, hold⟩ <;>
      rcases update_some_cases hj with ⟨hjp, hnew'⟩ | ⟨-, hold'⟩
    · rw [hip, hjp]
    · exact absurd (h.slot j ptr hold').1 (by omega)
    · exact absurd (h.slot i ptr hold).1 (by omega)
    · exact h.inj i j ptr hold hold'
  · intro p hp
    have hne : p ≠ t := Nat.ne_of_gt (Nat.lt_of_lt_of_le ht (by omega))
    rw [hthreads, Function.update_of_ne hne]
    exact h.fresh p (by omega)
  · intro u pid' ptr forked hf
    rcases (hfill u pid' ptr forked).mp hf with ⟨rfl, rfl, rfl, rfl⟩ | ⟨-, hf⟩
    · refine ⟨by omega, fun i hi => ?_, fun k hk => ?_, fun _ => ?_⟩
      · by_contra hip
        rw [hpcb, Function.update_of_ne hip] at hi
        exact absurd (h.slot i v.next hi).1 (by omega)
      · rw [hident, Function.update_self, Option.some.injEq] at hk
        subst hk
        simp
      · rw [hthreads, Function.update_of_ne (Nat.ne_of_gt ht)]
        exact h.fresh v.next le_rfl
    · obtain ⟨hlt, hslot, hthread, hpre⟩ := h.filling u pid' ptr forked hf
      refine ⟨by omega, fun i hi => ?_, fun k hk => ?_, fun hforked => ?_⟩
      · rw [hpcb] at hi
        rcases update_some_cases hi with ⟨-, hnew⟩ | ⟨-, hi⟩
        · omega
        · exact hslot i hi
      · rw [hident, Function.update_of_ne (by omega)] at hk
        exact hthread k hk
      · rw [hthreads, Function.update_of_ne, hpre hforked]
        rintro rfl
        rw [hpre hforked] at hat
        cases hat
  · intro u u' p p' ptr f f' hf hf'
    rcases (hfill u p ptr f).mp hf with ⟨rfl, -, rfl, -⟩ | ⟨-, hf⟩ <;>
      rcases (hfill u' p' _ f').mp hf' with ⟨rfl, -, hq, -⟩ | ⟨-, hf'⟩
    · rfl
    · exact absurd (h.filling u' p' v.next f' hf').1 (by omega)
    · exact absurd (h.filling u p ptr f hf).1 (by omega)
    · exact h.alone u u' p p' ptr f f' hf hf'
  · intro u thr p hu
    rw [hthreads] at hu
    rcases update_some_cases hu with ⟨-, rfl⟩ | ⟨-, hu⟩
    · exact fun h => by cases h
    · exact h.noFail u thr p hu

/-- INTERNAL: `Fork` gives the `PCB` its thread; the slot is still being filled. -/
theorem TableInv.fork (h : TableInv v) (hat : v.threads t = some ⟨self, .execFork name pid ptr⟩)
    (hv' : v' = (v.fork name ptr k).setPc t (.execStore pid ptr)) : TableInv v' := by
  have hfilling : Filling v t pid ptr false := ⟨_, hat, rfl⟩
  obtain ⟨hlt, hslot, -, hpre⟩ := h.filling t pid ptr false hfilling
  have hptr := hpre rfl
  have htp : t ≠ ptr := by
    rintro rfl
    rw [hptr] at hat
    cases hat
  have ht := h.lt_next hat
  have hthreads : v'.threads = Function.update
      (Function.update v.threads ptr (some ⟨name, .user⟩)) t (some ⟨self, .execStore pid ptr⟩) := by
    rw [hv', TableView.threads_setPc (TableView.threads_fork_of_some hat hptr name k)]
    rfl
  have hident : v'.ident = Function.update v.ident ptr (some { k with thread := some ptr }) := by
    rw [hv']; rfl
  have hpcb : v'.pcb = v.pcb := by rw [hv']; rfl
  have hnext : v'.next = v.next := by rw [hv']; rfl
  have hfill : ∀ u pid' q forked, Filling v' u pid' q forked ↔
      (u = t ∧ pid' = pid ∧ q = ptr ∧ forked = true) ∨ (u ≠ t ∧ Filling v u pid' q forked) := by
    intro u pid' q forked
    rw [filling_update (v := v.fork name ptr k) hthreads, filling_fork hptr]
    simp only [window, Option.some.injEq, Prod.mk.injEq, eq_comm]
  constructor
  · intro i q hi
    rw [hpcb] at hi
    obtain ⟨hq, k', hk', hinit⟩ := h.slot i q hi
    refine ⟨by omega, ?_⟩
    by_cases hqp : q = ptr
    · subst hqp
      refine ⟨_, by rw [hident, Function.update_self], Or.inr ⟨t, true, ?_⟩⟩
      exact (hfill t i q true).mpr (Or.inl ⟨rfl, hslot i hi, rfl, rfl⟩)
    · refine ⟨k', by rw [hident, Function.update_of_ne hqp, hk'], ?_⟩
      refine hinit.imp id fun ⟨u, forked, hf⟩ => ⟨u, forked, ?_⟩
      refine (hfill u i q forked).mpr (Or.inr ⟨?_, hf⟩)
      rintro rfl
      exact hqp (hf.same hfilling)
  · rw [hpcb]
    exact h.inj
  · intro p hp
    have h1 : p ≠ t := Nat.ne_of_gt (Nat.lt_of_lt_of_le ht (by omega))
    have h2 : p ≠ ptr := Nat.ne_of_gt (Nat.lt_of_lt_of_le hlt (by omega))
    rw [hthreads, Function.update_of_ne h1, Function.update_of_ne h2]
    exact h.fresh p (by omega)
  · intro u pid' q forked hf
    rcases (hfill u pid' q forked).mp hf with ⟨rfl, rfl, rfl, rfl⟩ | ⟨hu, hf⟩
    · refine ⟨by omega, by rwa [hpcb], fun k' hk' => ?_, fun h => by cases h⟩
      rw [hident, Function.update_self, Option.some.injEq] at hk'
      subst hk'
      simp
    · have hqp : q ≠ ptr := by
        rintro rfl
        exact hu (h.alone u t pid' pid q forked false hf hfilling)
      obtain ⟨hq, hslot', hthread, hpre'⟩ := h.filling u pid' q forked hf
      refine ⟨by omega, by rwa [hpcb], fun k' hk' => ?_, fun hforked => ?_⟩
      · rw [hident, Function.update_of_ne hqp] at hk'
        exact hthread k' hk'
      · have hqt : q ≠ t := by
          rintro rfl
          rw [hpre' hforked] at hat
          cases hat
        rw [hthreads, Function.update_of_ne hqt, Function.update_of_ne hqp]
        exact hpre' hforked
  · have hback : ∀ u p q f, Filling v' u p q f → ∃ p' f', Filling v u p' q f' := by
      intro u p q f hf
      rcases (hfill u p q f).mp hf with ⟨rfl, -, rfl, -⟩ | ⟨-, hf⟩
      · exact ⟨pid, false, hfilling⟩
      · exact ⟨p, f, hf⟩
    intro u u' p p' q f f' hf hf'
    obtain ⟨_, _, hf⟩ := hback u p q f hf
    obtain ⟨_, _, hf'⟩ := hback u' p' q f' hf'
    exact h.alone u u' _ _ q _ _ hf hf'
  · intro u thr p hu
    rw [hthreads] at hu
    rcases update_some_cases hu with ⟨-, rfl⟩ | ⟨-, hu⟩
    · exact fun h => by cases h
    · rcases update_some_cases hu with ⟨-, rfl⟩ | ⟨-, hu⟩
      · exact fun h => by cases h
      · exact h.noFail u thr p hu

/-- INTERNAL: storing the `pid` ends the filling of the slot. -/
theorem TableInv.store (h : TableInv v)
    (hat : v.threads t = some ⟨self, .execStore pid ptr⟩)
    (hk : v.ident ptr = some k)
    (hv' : v' = { v with
      ident := Function.update v.ident ptr (some { k with pid := pid }) }.setPc t
        (.execRelease pid)) : TableInv v' := by
  have hfilling : Filling v t pid ptr true := ⟨_, hat, rfl⟩
  obtain ⟨hlt, hslot, hthread, -⟩ := h.filling t pid ptr true hfilling
  have hthreads : v'.threads = Function.update v.threads t (some ⟨self, .execRelease pid⟩) := by
    rw [hv']
    exact TableView.threads_setPc (v := { v with
      ident := Function.update v.ident ptr (some { k with pid := pid }) }) hat _
  have hident : v'.ident = Function.update v.ident ptr (some { k with pid := pid }) := by
    rw [hv']; rfl
  have hpcb : v'.pcb = v.pcb := by rw [hv']; rfl
  have hnext : v'.next = v.next := by rw [hv']; rfl
  have hfill : ∀ u pid' q forked, Filling v' u pid' q forked ↔
      u ≠ t ∧ Filling v u pid' q forked := by
    intro u pid' q forked
    rw [filling_update hthreads]
    simp only [window, reduceCtorEq, and_false, false_or]
  have hother : ∀ u pid' q forked, u ≠ t → Filling v u pid' q forked → q ≠ ptr := by
    rintro u pid' q forked hu hf rfl
    exact hu (h.alone u t pid' pid q forked true hf hfilling)
  have hnone : ∀ p, v.threads p = none → v'.threads p = none := by
    intro p hp
    rw [hthreads, Function.update_of_ne, hp]
    rintro rfl
    rw [hat] at hp
    cases hp
  constructor
  · intro i q hi
    rw [hpcb] at hi
    obtain ⟨hq, k', hk', hinit⟩ := h.slot i q hi
    refine ⟨by omega, ?_⟩
    by_cases hqp : q = ptr
    · subst hqp
      refine ⟨_, by rw [hident, Function.update_self], Or.inl ⟨?_, ?_⟩⟩
      · intro hnone
        have := (hthread k hk).mp hnone
        cases this
      · rw [hslot i hi]
    · refine ⟨k', by rw [hident, Function.update_of_ne hqp, hk'], ?_⟩
      refine hinit.imp id fun ⟨u, forked, hf⟩ => ⟨u, forked, (hfill u i q forked).mpr ⟨?_, hf⟩⟩
      rintro rfl
      exact hqp (hf.same hfilling)
  · rw [hpcb]
    exact h.inj
  · intro p hp
    exact hnone p (h.fresh p (hnext ▸ hp))
  · intro u pid' q forked hf
    obtain ⟨hu, hf⟩ := (hfill u pid' q forked).mp hf
    obtain ⟨hq, hslot', hthread', hpre'⟩ := h.filling u pid' q forked hf
    refine ⟨by omega, by rwa [hpcb], fun k' hk' => ?_, fun hforked => hnone q (hpre' hforked)⟩
    rw [hident, Function.update_of_ne (hother u pid' q forked hu hf)] at hk'
    exact hthread' k' hk'
  · intro u u' p p' q f f' hf hf'
    exact h.alone u u' p p' q f f' ((hfill u p q f).mp hf).2 ((hfill u' p' q f').mp hf').2
  · intro u thr p hu
    rw [hthreads] at hu
    rcases update_some_cases hu with ⟨-, rfl⟩ | ⟨-, hu⟩
    · exact fun h => by cases h
    · exact h.noFail u thr p hu

theorem TableInv.remove (h : TableInv v) {bm : BitMap} (hptr : v.pcb pid = some ptr) :
    TableInv (v.remove pid ptr bm) := by
  constructor
  · intro i q hi
    obtain ⟨hi, hq, -⟩ := h.pcb_remove hptr hi
    obtain ⟨hlt, k, hk, hinit⟩ := h.slot i q hi
    exact ⟨hlt, k, by simpa [TableView.remove, TableView.delete, hq] using hk, hinit⟩
  · intro i j q hi hj
    exact h.inj i j q (h.pcb_remove hptr hi).1 (h.pcb_remove hptr hj).1
  · exact h.fresh
  · intro u pid' q forked hf
    obtain ⟨hlt, hslot, hthread, hpre⟩ := h.filling u pid' q forked hf
    refine ⟨hlt, fun i hi => hslot i (h.pcb_remove hptr hi).1, fun k hk => ?_, hpre⟩
    by_cases hq : q = ptr
    · simp [TableView.remove, TableView.delete, hq] at hk
    · exact hthread k (by simpa [TableView.remove, TableView.delete, hq] using hk)
  · exact h.alone
  · exact h.noFail

theorem pcb_of_pcbAt {i : ℤ} (h : v.pcbAt i = some ptr) :
    0 ≤ i ∧ i < maxProcess ∧ v.pcb i.toNat = some ptr := by
  unfold TableView.pcbAt at h
  split at h
  · next hi => exact ⟨hi.1, hi.2, h⟩
  · cases h

theorem pcbAt_of_pcb {i : ℤ} (hi : 0 ≤ i ∧ i < maxProcess) (h : v.pcb i.toNat = some ptr) :
    v.pcbAt i = some ptr := by
  rw [TableView.pcbAt, if_pos hi, h]

theorem Tested.cases_pc {value value' : BitVec 32} {pc passed waiting : Pc}
    (h : Tested value value' pc passed waiting) : pc = passed ∨ pc = waiting :=
  h.imp (fun h => h.2.2) fun h => h.2.2

/-- INTERNAL: **every step keeps the table sound up to the slots being filled**, for all
programs and all interleavings.
SRCLINE: threads/ptable.cc:20-121 -/
theorem TableInv.step {e : ProcEvent} (h : TableInv v) (hstep : ViewStep v e v') : TableInv v' := by
  cases hstep with
  | refuse => exact h
  | plain pc hat hfrom hto hn hbm =>
    apply TableInv.setPc
    · exact h.congr rfl rfl rfl rfl
    · exact hat
    · rw [window_of_plain hto, window_of_plain hfrom]
    · exact ne_execFail_of_plain hto
  | publish hat hpid hfree hscan hid => exact h.publish hat rfl rfl
  | mutexTest hat hpc =>
    apply h.setPc hat
    · rcases hpc with rfl | rfl <;> rfl
    · rcases hpc with rfl | rfl <;> exact fun _ h => by cases h
  | fork hat hk hnone => exact h.fork hat rfl
  | forkFail hat hk hsome => exact absurd (h.thread_eq_none hat hk) hsome
  | store hat hk => exact h.store hat hk rfl
  | discard hat hptr hbm => exact absurd rfl (h.noFail _ _ _ hat)
  | join hat hid hscan hchild hkc hparent hptr hkm htest =>
    apply TableInv.setPc
    · exact h.congr rfl rfl rfl rfl
    · exact hat
    · rcases htest.cases_pc with rfl | rfl <;> rfl
    · rcases htest.cases_pc with rfl | rfl <;> exact fun _ h => by cases h
  | joinTest hat hkm htest =>
    apply TableInv.setPc
    · exact h.congr rfl rfl rfl rfl
    · exact hat
    · rcases htest.cases_pc with rfl | rfl <;> rfl
    · rcases htest.cases_pc with rfl | rfl <;> exact fun _ h => by cases h
  | joinRead hat hptr hkc =>
    apply TableInv.setPc
    · exact h.congr rfl rfl rfl rfl
    · exact hat
    · rfl
    · exact fun _ h => by cases h
  | exit hat hscan hptr hk hpid hparent hkp =>
    apply TableInv.setPc
    · exact h.congr rfl rfl rfl rfl
    · exact hat
    · rfl
    · exact fun _ h => by cases h
  | exitTest hat hfrom hk htest =>
    apply TableInv.setPc
    · exact h.congr rfl rfl rfl rfl
    · exact hat
    · rcases hfrom with rfl | ⟨index, rfl, -⟩ <;> rcases htest.cases_pc with rfl | rfl <;> rfl
    · rcases htest.cases_pc with rfl | rfl <;> exact fun _ h => by cases h
  | leave hat hnone => exact h.setPc hat rfl fun _ h => by cases h
  | remove hat hptr hfile hbm =>
    obtain ⟨-, -, hslot⟩ := pcb_of_pcbAt hptr
    apply TableInv.setPc
    · exact h.remove hslot
    · exact hat
    · rfl
    · exact fun _ h => by cases h

/-! ## Boot -/

theorem boot_spec {words : ℕ → BitVec 32} {s₀ : ProcState} (h : ProcState.boot words = some s₀) :
    s₀.pcb = (fun i => if i = 0 then some 0 else none) ∧
      s₀.heap = (fun p => if p = 0 then some (PCB.new (-1) 0 0) else none) ∧
      s₀.threads = (fun t => if t = 0 then some ⟨"main", .user⟩ else none) ∧ s₀.next = 1 ∧
      (s₀.exited = fun _ => none) ∧ s₀.bm.numBits = maxProcess ∧ isSet s₀.bm 0 = true := by
  obtain ⟨b, hb, hn, -⟩ := new_eq maxProcess words
  have hlt : 0 < b.numBits := by rw [hn]; decide
  have hmark : b.mark 0 = some (setBit b 0) := mark_eq hlt
  simp only [ProcState.boot, hb, Option.bind_eq_bind, Option.bind_some, hmark, Option.pure_def,
    Option.some.injEq] at h
  subst h
  exact ⟨rfl, rfl, rfl, rfl, rfl, hn, by simp⟩

theorem tableInv_boot {words : ℕ → BitVec 32} {s₀ : ProcState}
    (h : ProcState.boot words = some s₀) : TableInv (viewOf s₀.toProcTable) := by
  obtain ⟨hpcb, hheap, hthreads, hnext, -, -, -⟩ := boot_spec h
  have hnot : ∀ u pid ptr forked, ¬ Filling (viewOf s₀.toProcTable) u pid ptr forked := by
    rintro u pid ptr forked ⟨thr, hthr, hw⟩
    simp only [viewOf, hthreads, Option.ite_none_right_eq_some, Option.some.injEq] at hthr
    rw [← hthr.2] at hw
    cases hw
  have hslot : ∀ i ptr, (viewOf s₀.toProcTable).pcb i = some ptr → i = 0 ∧ ptr = 0 := by
    intro i ptr hi
    simp only [viewOf, hpcb, Option.ite_none_right_eq_some, Option.some.injEq] at hi
    exact ⟨hi.1, hi.2.symm⟩
  constructor
  · intro i ptr hi
    obtain ⟨rfl, rfl⟩ := hslot i ptr hi
    refine ⟨by simp [viewOf, hnext], _, ident_viewOf (by rw [hheap]; rfl), Or.inl ⟨?_, rfl⟩⟩
    simp [identOf, PCB.new]
  · intro i j ptr hi hj
    rw [(hslot i ptr hi).1, (hslot j ptr hj).1]
  · intro t ht
    simp only [viewOf, hnext, hthreads] at ht ⊢
    rw [if_neg (Nat.ne_of_gt ht)]
  · exact fun u pid ptr forked hf => absurd hf (hnot u pid ptr forked)
  · exact fun u _ pid _ ptr forked _ hf _ => absurd hf (hnot u pid ptr forked)
  · intro u thr pid hu
    simp only [viewOf, hthreads, Option.ite_none_right_eq_some, Option.some.injEq] at hu
    rw [← hu.2]
    exact fun h => by cases h

/-! ## Searches -/

/-- The step searches the table: a `Join` of a slot number, an `Exit`, or an `Exec` that goes on
after `bmsem->P()`. -/
def Scans (s : ProcTable) : ProcEvent → Prop
  | .exec _ _ _ => False
  | .join _ id => 0 ≤ id ∧ id < maxProcess
  | .exit _ _ => True
  | .resume t _ => ∃ thr name opens, s.threads t = some thr ∧ thr.pc = .execScan name opens

/-- Thread `u` is inside `PCB::Exec`, between the end of `mutex->P()` and the `mutex->V()` that
follows `this->pid = pid` (pcb.cc:41-57). -/
def InPcbExec (s : ProcTable) (u : ThreadId) : Prop :=
  ∃ thr, s.threads u = some thr ∧ (window thr.pc).isSome = true

/-- The step does not search the table while another thread is inside `PCB::Exec`. -/
def NoScanDuringPcbExec (s : ProcTable) (e : ProcEvent) : Prop :=
  Scans s e → ∀ u, u ≠ e.thread → ¬ InPcbExec s u

/-- If the step searches the table, every `PCB` in it has its thread pointer set and its `pid`
equal to its slot number. -/
def SeesInitialised (s : ProcTable) (e : ProcEvent) : Prop :=
  Scans s e → ∀ i ptr, s.pcb i = some ptr →
    ∃ c, s.heap ptr = some c ∧ c.thread ≠ none ∧ c.pid = i

/-- INTERNAL: a thread that searches the table comes from its user program or holds `bmsem`. -/
theorem plain_of_scans {s s' : ProcState} {e : ProcEvent} (h : s.step e = some s')
    (hscan : Scans s.toProcTable e) : ∃ thr, s.threads e.thread = some thr ∧ Plain thr.pc := by
  unfold ProcState.step at h
  split at h
  · simp only [Option.bind_eq_bind, Option.bind_eq_some_iff] at h
    obtain ⟨thr, hat, r, hact, -⟩ := h
    refine ⟨thr, hat, ?_⟩
    cases e with
    | exec t name opens => exact hscan.elim
    | join t id =>
      simp only [ProcState.act, Option.ite_none_right_eq_some] at hact
      rw [hact.1]
      trivial
    | exit t ec =>
      simp only [ProcState.act, Option.ite_none_right_eq_some] at hact
      rw [hact.1]
      trivial
    | resume t garbage =>
      obtain ⟨thr', name, opens, hat', hpc⟩ := hscan
      have heq : thr = thr' := Option.some.inj (hat.symm.trans hat')
      rw [heq, hpc]
      trivial
  · cases h

theorem not_scans_resume {s : ProcTable} {garbage : ℤ} (hat : s.threads t = some thr)
    (h : ∀ name opens, thr.pc ≠ .execScan name opens) : ¬ Scans s (.resume t garbage) := by
  rintro ⟨thr', name, opens, hat', hpc⟩
  rw [hat, Option.some.injEq] at hat'
  subst hat'
  exact h name opens hpc

theorem noScan_resume {s : ProcTable} {garbage : ℤ} (hat : s.threads t = some thr)
    (h : ∀ name opens, thr.pc ≠ .execScan name opens) : NoScanDuringPcbExec s (.resume t garbage) :=
  fun hscan => absurd hscan (not_scans_resume hat h)

/-- SOURCE: threads/ptable.cc:46-74, threads/pcb.cc:40-59, threads/thread.cc:87-99 — in every run
from boot in which no search is made while another thread is inside `PCB::Exec`, every search
finds all `PCB`s of the table with their thread and their slot number. -/
theorem scans_see_initialised {words : ℕ → BitVec 32} {s₀ : ProcState}
    (hboot : ProcState.boot words = some s₀) {es : List ProcEvent}
    (hes : Meets ProcState.step (fun s e => NoScanDuringPcbExec s.toProcTable e) s₀ es) :
    Meets ProcState.step (fun s e => SeesInitialised s.toProcTable e) s₀ es := by
  refine meets_of_meets (I := fun s => TableInv (viewOf s.toProcTable)) ?_ ?_ (tableInv_boot hboot)
    hes
  · intro s e s' hI hcond hstep hscan i ptr hi
    obtain ⟨thr, hat, hplain⟩ := plain_of_scans hstep hscan
    obtain ⟨-, k, hk, hinit⟩ := hI.slot i ptr hi
    obtain ⟨c, hc, rfl⟩ := exists_heap_of_ident hk
    rcases hinit with ⟨hthread, hpid⟩ | ⟨u, forked, hfill⟩
    · exact ⟨c, hc, hthread, hpid⟩
    · exfalso
      by_cases hu : u = e.thread
      · rw [hu] at hfill
        exact not_filling_of_window hat (window_of_plain hplain) hfill
      · obtain ⟨thr', hat', hw⟩ := hfill
        exact hcond hscan u hu ⟨thr', hat', by rw [hw]; rfl⟩
  · intro s e s' hI _ hstep
    exact hI.step (viewStep_of_step hstep)

/-- SOURCE: threads/ptable.cc:20-103 — the boot process executes `A` without losing the processor
inside `PCB::Exec`, the child exits, and the boot process joins it. -/
theorem scans_see_initialised_exec_exit_join :
    ∃ s₀, ProcState.boot (fun _ => 0#32) = some s₀ ∧
      Meets ProcState.step (fun s e => SeesInitialised s.toProcTable e) s₀
        [.exec 0 (some "A") true, .resume 0 7, .resume 0 0, .resume 0 0, .resume 0 0, .resume 0 0,
          .exit 1 5, .join 0 1] := by
  refine ⟨_, rfl, scans_see_initialised rfl ?_⟩
  refine .cons rfl (fun h => h.elim) ?_
  refine .cons rfl ?_ ?_
  · rintro - (_ | u) hu ⟨thr, hthr, hw⟩
    · exact absurd rfl hu
    · cases hthr
  refine .cons rfl (noScan_resume rfl (by simp)) ?_
  refine .cons rfl (noScan_resume rfl (by simp)) ?_
  refine .cons rfl (noScan_resume rfl (by simp)) ?_
  refine .cons rfl (noScan_resume rfl (by simp)) ?_
  refine .cons rfl ?_ ?_
  · rintro - (_ | _ | u) hu ⟨thr, hthr, hw⟩
    · cases hthr
      cases hw
    · exact absurd rfl hu
    · cases hthr
  refine .cons rfl ?_ trivial
  rintro - (_ | _ | u) hu ⟨thr, hthr, hw⟩
  · exact absurd rfl hu
  · cases hthr
    cases hw
  · cases hthr

/-- SOURCE: threads/pcb.cc:54-56 — the boot process executes `A` and loses the processor at the
end of `Fork`, before `this->pid = pid`; the child exits at once and finds itself in slot `1`
with whatever `pid` the memory held, here `7`. -/
theorem child_finds_unset_pid :
    ∃ s₀, ProcState.boot (fun _ => 0#32) = some s₀ ∧
      ¬ Meets ProcState.step (fun s e => SeesInitialised s.toProcTable e) s₀
        [.exec 0 (some "A") true, .resume 0 7, .resume 0 0, .exit 1 5] := by
  refine ⟨_, rfl, fun h => ?_⟩
  have h₁ := (h _ rfl).2
  have h₂ := (h₁ _ rfl).2
  have h₃ := (h₂ _ rfl).2
  obtain ⟨c, hc, -, hpid⟩ := (h₃ _ rfl).1 trivial 1 1 rfl
  cases hc
  revert hpid
  decide

end Nachos.Analysis
