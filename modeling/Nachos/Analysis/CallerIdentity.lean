import Nachos.Analysis.PcbInitialisation

/-!
# When a process finds itself in the table

The three calls take the last slot whose program has the name of the current thread to be
the caller's. This is right as long as no two live processes have the same name, and
`ExecUpdate` compares the new name with the name of its direct caller only.

`OwnInv` is what holds while every `Exec` brings a new name: every live thread has its
own `PCB` in the table, no two live threads have the same name, and a thread inside a call
holds its own slot number. Two facts about a search follow (`OwnInv.selected`,
`pid_of_stored`): if it comes to the end of the table it has found the caller, and
the number it reads there is the number of that slot, unless the caller was created by an
`Exec` that has not stored it yet.
-/

set_option autoImplicit false

namespace Nachos.Analysis

open Nachos.Library Nachos.Model

variable {v : TableView} {t : ThreadId} {i pid ptr : ℕ} {name self : String} {thr : Thread}
  {pc : Pc} {index : Option ℕ} {k : Ident} {s : ProcTable} {e : ProcEvent}

/-! ## What a thread inside a call holds -/

/-- Thread `t` in slot `currentID` has called `Join(id)` and found `child` in slot `id`. -/
structure Joining (v : TableView) (t : ThreadId) (id currentID : ℤ) (child : ℕ) : Prop where
  caller : ∃ j : ℕ, currentID = j ∧ v.pcb j = some t
  slot : 0 ≤ id ∧ id < maxProcess
  lt_next : child < v.next
  stays : ∀ i : ℕ, v.pcb i = some child → (i : ℤ) = id
  parent : ∀ k, v.ident child = some k → k.parentID = currentID

/-- INTERNAL: what a thread at `pc` holds is its own, or the slot it is filling with a name that
no live thread has.
SRCLINE: threads/ptable.cc:54-66, 74-86, 97-102 -/
def OwnPc (v : TableView) (t : ThreadId) : Pc → Prop
  | .execMutex name pid ptr | .execFork name pid ptr => v.pcb pid = some ptr ∧
      ∀ q a, v.threads q = some a → a.pc ≠ .finished → a.name ≠ name
  | .execStore pid ptr => v.pcb pid = some ptr ∧ ∃ a, v.threads ptr = some a ∧ Plain a.pc
  | .joinP id currentID ptr child => ptr = t ∧ Joining v t id currentID child
  | .joinRead id currentID child => Joining v t id currentID child
  | .exitWait index pid => pid = index ∧ v.pcb index = some t
  | .exitP pid ptr => ptr = t ∧ ∃ i : ℕ, pid = i ∧ v.pcb i = some t
  | .exitRemove pid => ∃ i : ℕ, pid = i ∧ v.pcb i = some t
  | _ => True

theorem ownPc_of_plain (h : Plain pc) : OwnPc v t pc := by
  cases pc <;> trivial

/-- INTERNAL: a thread keeps what it holds when the table changes elsewhere. -/
theorem OwnPc.transfer {v w : TableView} (h : OwnPc v t pc)
    (hown : ∀ i, v.pcb i = some t → w.pcb i = some t)
    (hfill : ∀ i p forked, window pc = some (i, p, forked) → v.pcb i = some p → w.pcb i = some p)
    (hback : ∀ i p, p < v.next → w.pcb i = some p → v.pcb i = some p)
    (hnext : v.next ≤ w.next)
    (hparent : ∀ p k, p < v.next → w.ident p = some k →
      ∃ k₀, v.ident p = some k₀ ∧ k.parentID = k₀.parentID)
    (hnames : ∀ i p, window pc = some (i, p, false) → ∀ q a, w.threads q = some a →
      a.pc ≠ .finished → ∃ a₀, v.threads q = some a₀ ∧ a₀.pc ≠ .finished ∧ a₀.name = a.name)
    (hplain : ∀ i p, window pc = some (i, p, true) → ∀ a, v.threads p = some a → Plain a.pc →
      ∃ b, w.threads p = some b ∧ Plain b.pc) : OwnPc w t pc := by
  have hjoin : ∀ id currentID child, Joining v t id currentID child →
      Joining w t id currentID child := by
    rintro id currentID child ⟨⟨j, hj, hslot⟩, hid, hlt, hstays, hpar⟩
    refine ⟨⟨j, hj, hown j hslot⟩, hid, by omega, fun i hi => hstays i (hback i child hlt hi), ?_⟩
    intro k hk
    obtain ⟨k₀, hk₀, heq⟩ := hparent child k hlt hk
    rw [heq]
    exact hpar k₀ hk₀
  have hnew : ∀ name i p, window pc = some (i, p, false) →
      (∀ q a, v.threads q = some a → a.pc ≠ .finished → a.name ≠ name) →
      ∀ q a, w.threads q = some a → a.pc ≠ .finished → a.name ≠ name := by
    intro name i p hw hold q a hq hfin
    obtain ⟨a₀, hq₀, hfin₀, hname⟩ := hnames i p hw q a hq hfin
    rw [← hname]
    exact hold q a₀ hq₀ hfin₀
  cases pc with
  | execMutex name pid ptr => exact ⟨hfill _ _ _ rfl h.1, hnew name pid ptr rfl h.2⟩
  | execFork name pid ptr => exact ⟨hfill _ _ _ rfl h.1, hnew name pid ptr rfl h.2⟩
  | execStore pid ptr =>
    obtain ⟨a, ha, hp⟩ := h.2
    exact ⟨hfill _ _ _ rfl h.1, hplain pid ptr rfl a ha hp⟩
  | joinP id currentID ptr child => exact ⟨h.1, hjoin _ _ _ h.2⟩
  | joinRead id currentID child => exact hjoin _ _ _ h
  | exitWait index pid => exact ⟨h.1, hown _ h.2⟩
  | exitP pid ptr =>
    obtain ⟨hptr, i, hi, hslot⟩ := h
    exact ⟨hptr, i, hi, hown i hslot⟩
  | exitRemove pid =>
    obtain ⟨i, hi, hslot⟩ := h
    exact ⟨i, hi, hown i hslot⟩
  | _ => trivial

/-! ## Everyone has a slot of their own -/

/-- INTERNAL: every live thread has its `PCB` in the table, under a name of its own.
SRCLINE: threads/ptable.cc:20-121 -/
structure OwnInv (v : TableView) : Prop where
  own : ∀ t thr, v.threads t = some thr → thr.pc ≠ .finished → ∃ i, v.pcb i = some t
  alive : ∀ i ptr k u, v.pcb i = some ptr → v.ident ptr = some k → k.thread = some u →
    u = ptr ∧ ∃ thr, v.threads ptr = some thr ∧ thr.pc ≠ .finished
  names : ∀ p q a b, v.threads p = some a → a.pc ≠ .finished → v.threads q = some b →
    b.pc ≠ .finished → a.name = b.name → p = q
  size : v.bm.numBits = maxProcess
  bits : ∀ i ptr, v.pcb i = some ptr → i < maxProcess ∧ isSet v.bm i = true
  single : ∀ u u' pid pid' ptr ptr', Filling v u pid ptr false → Filling v u' pid' ptr' false →
    u = u'
  pcs : ∀ t thr, v.threads t = some thr → OwnPc v t thr.pc

theorem OwnInv.fileName_eq (h : OwnInv v) {file : String} (hslot : v.pcb i = some t)
    (hfile : v.fileName t = some file) :
    ∃ thr k, v.threads t = some thr ∧ thr.pc ≠ .finished ∧ thr.name = file ∧
      v.ident t = some k ∧ k.thread = some t := by
  simp only [TableView.fileName, Option.bind_eq_bind, Option.bind_eq_some_iff,
    Option.ite_none_left_eq_some, Option.some.injEq] at hfile
  obtain ⟨k, hk, u, hu, thr, hthr, hfin, hname⟩ := hfile
  obtain ⟨rfl, -⟩ := h.alive i t k u hslot hk hu
  exact ⟨thr, k, hthr, hfin, hname, hk, hu⟩

/-- INTERNAL: **a search that comes to its end has found the caller's own slot.**
SRCLINE: threads/ptable.cc:47, 70, 92 -/
theorem OwnInv.selected (h : OwnInv v) (hat : v.threads t = some thr) (hlive : thr.pc ≠ .finished)
    (hscan : Scanned v thr.name index) :
    ∃ i k, index = some i ∧ v.pcb i = some t ∧ v.ident t = some k ∧ k.thread = some t := by
  obtain ⟨i, hi⟩ := h.own t thr hat hlive
  have hlt := (h.bits i t hi).1
  obtain ⟨file, hfile⟩ := hscan.named i hlt t hi
  obtain ⟨thr', k, hat', -, hname, hk, hthread⟩ := h.fileName_eq hi hfile
  have heq : thr' = thr := Option.some.inj (hat'.symm.trans hat)
  subst heq
  cases index with
  | none =>
    rw [← hname] at hfile
    exact absurd hfile (hscan.missed rfl i hlt t hi)
  | some j =>
    obtain ⟨-, p, hp, hpfile⟩ := hscan.found j rfl
    obtain ⟨b, -, hb, hbfin, hbname, -, -⟩ := h.fileName_eq hp hpfile
    obtain rfl : p = t := h.names p t b thr' hb hbfin hat hlive hbname
    exact ⟨j, k, rfl, hp, hk, hthread⟩

theorem pid_of_stored (hT : TableInv v) (hslot : v.pcb i = some t) (hk : v.ident t = some k)
    (hthread : k.thread = some t) (hstored : ∀ u pid ptr, ¬ Filling v u pid ptr true) :
    k.pid = i := by
  obtain ⟨-, k', hk', hinit⟩ := hT.slot i t hslot
  have heq : k' = k := Option.some.inj (hk'.symm.trans hk)
  subst heq
  rcases hinit with ⟨-, hpid⟩ | ⟨u, forked, hfill⟩
  · exact hpid
  · exfalso
    have hforked := (hT.filling u i t forked hfill).2.2.1 k' hk
    rw [hthread] at hforked
    cases forked with
    | false => simp at hforked
    | true => exact hstored u i t hfill

theorem currentID_of_slot (hlt : i < maxProcess) (hslot : v.pcb i = some t)
    (hk : v.ident t = some k) : v.currentID (some i) = k.pid := by
  have hbind : (v.pcbAt i).bind v.ident = some k := by
    simp [TableView.pcbAt, hlt, hslot, hk]
  unfold TableView.currentID
  dsimp only
  rw [hbind]

theorem pcbAt_natCast (hlt : i < maxProcess) : v.pcbAt i = some ptr ↔ v.pcb i = some ptr := by
  simp [TableView.pcbAt, hlt]

/-! ## Steps -/

theorem live_of_setPc {t q : ThreadId} {thr a : Thread} (hat : v.threads t = some thr)
    (hlive : thr.pc ≠ .finished) (hq : (v.setPc t pc).threads q = some a) (hfin : a.pc ≠ .finished) :
    ∃ a₀, v.threads q = some a₀ ∧ a₀.pc ≠ .finished ∧ a₀.name = a.name := by
  rcases threads_setPc_eq_some hat hq with ⟨rfl, rfl⟩ | ⟨-, hq⟩
  · exact ⟨thr, hat, hlive, rfl⟩
  · exact ⟨a, hq, hfin, rfl⟩

theorem OwnInv.congr {v w : TableView} (h : OwnInv v) (hpcb : w.pcb = v.pcb)
    (hident : w.ident = v.ident) (hnext : w.next = v.next) (hthreads : w.threads = v.threads)
    (hn : w.bm.numBits = v.bm.numBits) (hbm : ∀ i, isSet v.bm i = true → isSet w.bm i = true) :
    OwnInv w := by
  constructor
  · rw [hpcb, hthreads]
    exact h.own
  · rw [hpcb, hident, hthreads]
    exact h.alive
  · rw [hthreads]
    exact h.names
  · rw [hn, h.size]
  · intro i ptr hi
    obtain ⟨hlt, hset⟩ := h.bits i ptr (hpcb ▸ hi)
    exact ⟨hlt, hbm i hset⟩
  · unfold Filling
    rw [hthreads]
    exact h.single
  · intro t thr ht
    rw [hthreads] at ht
    apply (h.pcs t thr ht).transfer
    · rw [hpcb]
      exact fun _ h => h
    · rw [hpcb]
      exact fun _ _ _ _ h => h
    · rw [hpcb]
      exact fun _ _ _ h => h
    · exact hnext.ge
    · rw [hident]
      exact fun _ k _ hk => ⟨k, hk, rfl⟩
    · rw [hthreads]
      exact fun _ _ _ q a hq hfin => ⟨a, hq, hfin, rfl⟩
    · rw [hthreads]
      exact fun _ _ _ a ha hp => ⟨a, ha, hp⟩

/-- INTERNAL: a thread moves inside its call. If its own `PCB` is still being filled it must
stay where it holds nothing. -/
theorem OwnInv.setPc (h : OwnInv v) (hat : v.threads t = some thr) (hlive : thr.pc ≠ .finished)
    (hlive' : pc ≠ .finished) (hwin : ∀ x, window pc = some x → window thr.pc = some x)
    (hfill : ∀ u pid, Filling v u pid t true → Plain pc) (hpc : OwnPc v t pc) :
    OwnInv (v.setPc t pc) := by
  have hsame : ∀ u a, v.threads u = some a → a.pc ≠ .finished →
      ∃ b, (v.setPc t pc).threads u = some b ∧ b.pc ≠ .finished := by
    intro u a ha hfin
    by_cases hu : u = t
    · subst hu
      exact ⟨_, threads_setPc_self pc hat, hlive'⟩
    · exact ⟨a, by rw [threads_setPc_of_ne pc hu, ha], hfin⟩
  have hpcs : ∀ u a, (v.setPc t pc).threads u = some a → OwnPc v u a.pc →
      OwnPc (v.setPc t pc) u a.pc := by
    intro u a hu hown
    apply hown.transfer
    · exact fun _ h => h
    · exact fun _ _ _ _ h => h
    · exact fun _ _ _ h => h
    · exact le_rfl
    · exact fun _ k _ hk => ⟨k, hk, rfl⟩
    · exact fun _ _ _ q b hq hfin => live_of_setPc hat hlive hq hfin
    · intro i p hw b hb hplain
      by_cases hp : p = t
      · subst hp
        refine ⟨_, threads_setPc_self pc hat, hfill u i ?_⟩
        rcases threads_setPc_eq_some hat hu with ⟨rfl, rfl⟩ | ⟨-, hu⟩
        · exact ⟨thr, hat, hwin _ hw⟩
        · exact ⟨a, hu, hw⟩
      · exact ⟨b, by rw [threads_setPc_of_ne pc hp, hb], hplain⟩
  constructor
  · intro u a hu hfin
    obtain ⟨a₀, hu₀, hfin₀, -⟩ := live_of_setPc hat hlive hu hfin
    exact h.own u a₀ hu₀ hfin₀
  · intro i ptr k u hi hk hu
    obtain ⟨heq, a, ha, hfin⟩ := h.alive i ptr k u hi hk hu
    exact ⟨heq, hsame ptr a ha hfin⟩
  · intro p q a b hp hpfin hq hqfin hname
    obtain ⟨a₀, hp₀, hpfin₀, hpname⟩ := live_of_setPc hat hlive hp hpfin
    obtain ⟨b₀, hq₀, hqfin₀, hqname⟩ := live_of_setPc hat hlive hq hqfin
    exact h.names p q a₀ b₀ hp₀ hpfin₀ hq₀ hqfin₀ (by rw [hpname, hqname, hname])
  · exact h.size
  · exact h.bits
  · have hback : ∀ u pid ptr, Filling (v.setPc t pc) u pid ptr false → Filling v u pid ptr false := by
      rintro u pid ptr ⟨a, hu, hw⟩
      rcases threads_setPc_eq_some hat hu with ⟨rfl, rfl⟩ | ⟨-, hu⟩
      · exact ⟨thr, hat, hwin _ hw⟩
      · exact ⟨a, hu, hw⟩
    exact fun u u' pid pid' ptr ptr' hf hf' =>
      h.single u u' pid pid' ptr ptr' (hback u pid ptr hf) (hback u' pid' ptr' hf')
  · intro u a hu
    rcases threads_setPc_eq_some hat hu with ⟨rfl, rfl⟩ | ⟨-, hu'⟩
    · exact hpcs u _ hu hpc
    · exact hpcs u a hu (h.pcs u a hu')

theorem OwnInv.not_filling_of_scanned (hT : TableInv v) (h : OwnInv v)
    (hscan : Scanned v name index) (u : ThreadId) (pid ptr : ℕ) : ¬ Filling v u pid ptr false := by
  intro hf
  obtain ⟨thr, hu, hw⟩ := hf
  have hslot : v.pcb pid = some ptr := by
    have hown := h.pcs u thr hu
    cases hpc : thr.pc <;> rw [hpc] at hw hown <;>
      simp only [window, reduceCtorEq, Option.some.injEq, Prod.mk.injEq] at hw
    · obtain ⟨rfl, rfl, -⟩ := hw
      exact hown.1
    · obtain ⟨rfl, rfl, -⟩ := hw
      exact hown.1
    · exact absurd hw.2.2 (by decide)
  obtain ⟨file, hfile⟩ := hscan.named pid (h.bits pid ptr hslot).1 ptr hslot
  obtain ⟨-, k, -, -, -, hk, hthread⟩ := h.fileName_eq hslot hfile
  have hnone := ((hT.filling u pid ptr false ⟨thr, hu, hw⟩).2.2.1 k hk).mpr rfl
  rw [hthread] at hnone
  cases hnone

theorem OwnInv.pcb_of_free (h : OwnInv v) (hfree : isSet v.bm pid = false) : v.pcb pid = none := by
  by_contra hsome
  obtain ⟨ptr, hptr⟩ := Option.ne_none_iff_exists'.mp hsome
  rw [(h.bits pid ptr hptr).2] at hfree
  cases hfree

/-- INTERNAL: a new `PCB` under a name that no process in the table has. -/
theorem OwnInv.publish (hT : TableInv v) (h : OwnInv v) {opens : Bool} {currentID garbage : ℤ}
    (hat : v.threads t = some ⟨self, .execScan (some name) opens⟩) (hpid : pid < v.bm.numBits)
    (hfree : isSet v.bm pid = false) (hscan : Scanned v self index)
    (hstored : ∀ u pid ptr, ¬ Filling v u pid ptr true)
    (hfresh : ∀ i ptr, v.pcb i = some ptr → v.fileName ptr ≠ some name) :
    OwnInv ((v.publish t pid currentID garbage).setPc t (.execFork name pid v.next)) := by
  have hnone := h.pcb_of_free hfree
  have hlt : ∀ i p, v.pcb i = some p → p < v.next := fun i p hi => (hT.slot i p hi).1
  -- a live thread has its file name in the table, so the new name is none of theirs
  have hnew : ∀ q a, v.threads q = some a → a.pc ≠ .finished → a.name ≠ name := by
    rintro q a hq hfin rfl
    obtain ⟨i, hi⟩ := h.own q a hq hfin
    obtain ⟨file, hfile⟩ := hscan.named i (h.bits i q hi).1 q hi
    obtain ⟨thr, -, hq', -, hname, -⟩ := h.fileName_eq hi hfile
    rw [hq, Option.some.injEq] at hq'
    subst hq'
    rw [← hname] at hfile
    exact hfresh i q hi hfile
  have hat' : (v.publish t pid currentID garbage).threads t =
      some ⟨self, .execScan (some name) opens⟩ := hat
  have hlive : Pc.execScan (some name) opens ≠ .finished := fun h => by cases h
  constructor
  · intro u a hu hfin
    obtain ⟨a₀, hu₀, hfin₀, -⟩ := live_of_setPc hat' hlive hu hfin
    obtain ⟨i, hi⟩ := h.own u a₀ hu₀ hfin₀
    exact ⟨i, update_some_of_some v.next hnone hi⟩
  · intro i ptr k u hi hk hu
    change Function.update v.ident v.next (some ⟨none, garbage, currentID⟩) ptr = some k at hk
    rcases update_some_cases hi with ⟨rfl, rfl⟩ | ⟨-, hi⟩
    · rw [Function.update_self, Option.some.injEq] at hk
      rw [← hk] at hu
      cases hu
    · rw [Function.update_of_ne (hlt i ptr hi).ne] at hk
      obtain ⟨heq, a, ha, hfin⟩ := h.alive i ptr k u hi hk hu
      refine ⟨heq, ?_⟩
      by_cases hp : ptr = t
      · rw [hp]
        exact ⟨_, threads_setPc_self _ hat', fun h => by cases h⟩
      · exact ⟨a, by rw [threads_setPc_of_ne _ hp]; exact ha, hfin⟩
  · intro p q a b hp hpfin hq hqfin hname
    obtain ⟨a₀, hp₀, hpfin₀, hpname⟩ := live_of_setPc hat' hlive hp hpfin
    obtain ⟨b₀, hq₀, hqfin₀, hqname⟩ := live_of_setPc hat' hlive hq hqfin
    exact h.names p q a₀ b₀ hp₀ hpfin₀ hq₀ hqfin₀ (by rw [hpname, hqname, hname])
  · exact h.size
  · intro i ptr hi
    show i < maxProcess ∧ isSet (setBit v.bm pid) i = true
    rw [isSet_setBit]
    rcases update_some_cases hi with ⟨rfl, -⟩ | ⟨-, hi⟩
    · rw [h.size] at hpid
      exact ⟨hpid, by simp⟩
    · obtain ⟨hlt, hset⟩ := h.bits i ptr hi
      exact ⟨hlt, by rw [hset, Bool.or_true]⟩
  · have hself : ∀ u pid' ptr, Filling ((v.publish t pid currentID garbage).setPc t
        (.execFork name pid v.next)) u pid' ptr false → u = t := by
      rintro u pid' ptr ⟨a, hu, hw⟩
      rcases threads_setPc_eq_some hat' hu with ⟨rfl, -⟩ | ⟨-, hu⟩
      · rfl
      · exact absurd ⟨a, hu, hw⟩ (h.not_filling_of_scanned hT hscan u pid' ptr)
    intro u u' p p' ptr ptr' hf hf'
    rw [hself u p ptr hf, hself u' p' ptr' hf']
  · intro u a hu
    rcases threads_setPc_eq_some hat' hu with ⟨rfl, rfl⟩ | ⟨-, hu'⟩
    · refine ⟨Function.update_self pid _ v.pcb, fun q b hq hfin => ?_⟩
      obtain ⟨b₀, hq₀, hfin₀, hname⟩ := live_of_setPc hat' hlive hq hfin
      rw [← hname]
      exact hnew q b₀ hq₀ hfin₀
    · apply (h.pcs u a hu').transfer
      · exact fun i hi => update_some_of_some v.next hnone hi
      · exact fun i p _ _ hi => update_some_of_some v.next hnone hi
      · intro i p hp hi
        rcases update_some_cases hi with ⟨-, rfl⟩ | ⟨-, hi⟩
        · omega
        · exact hi
      · exact Nat.le_succ v.next
      · intro p k hp hk
        change Function.update v.ident v.next (some ⟨none, garbage, currentID⟩) p = some k at hk
        rw [Function.update_of_ne hp.ne] at hk
        exact ⟨k, hk, rfl⟩
      · exact fun i p hw => absurd ⟨a, hu', hw⟩ (h.not_filling_of_scanned hT hscan u i p)
      · exact fun i p hw => absurd ⟨a, hu', hw⟩ (hstored u i p)

section Forked

variable {u : ThreadId} {a : Thread}

theorem threads_forked_cases (hat : v.threads t = some thr) (hptr : v.threads ptr = none)
    (hu : ((v.fork name ptr k).setPc t pc).threads u = some a) :
    (u = t ∧ a = ⟨thr.name, pc⟩) ∨ (u = ptr ∧ a = ⟨name, .user⟩) ∨ (u ≠ t ∧ v.threads u = some a) := by
  rcases threads_setPc_eq_some (TableView.threads_fork_of_some hat hptr name k) hu with hu | ⟨hne, hu⟩
  · exact Or.inl hu
  · exact Or.inr ((threads_fork_cases hu).imp id fun hu => ⟨hne, hu⟩)

theorem threads_forked_child (hat : v.threads t = some thr) (hptr : v.threads ptr = none) :
    ((v.fork name ptr k).setPc t pc).threads ptr = some ⟨name, .user⟩ := by
  have hne : ptr ≠ t := by
    rintro rfl
    rw [hptr] at hat
    cases hat
  rw [threads_setPc_of_ne _ hne]
  simp only [TableView.fork, Function.update_self]

theorem threads_forked_of_ne (hptr : v.threads ptr = none) (hne : u ≠ t) (hu : v.threads u = some a) :
    ((v.fork name ptr k).setPc t pc).threads u = some a := by
  rw [threads_setPc_of_ne _ hne]
  exact TableView.threads_fork_of_some hu hptr name k

end Forked

/-- INTERNAL: the new thread has the slot that was filled for it and a name of its own. -/
theorem OwnInv.fork (hT : TableInv v) (h : OwnInv v)
    (hat : v.threads t = some ⟨self, .execFork name pid ptr⟩) (hk : v.ident ptr = some k) :
    OwnInv ((v.fork name ptr k).setPc t (.execStore pid ptr)) := by
  have hfilling : Filling v t pid ptr false := ⟨_, hat, rfl⟩
  obtain ⟨-, -, -, hpre⟩ := hT.filling t pid ptr false hfilling
  have hptr := hpre rfl
  obtain ⟨hslot, hnew⟩ := h.pcs t _ hat
  have hat' := TableView.threads_fork_of_some hat hptr name k
  have hthread : ∀ u a, ((v.fork name ptr k).setPc t (.execStore pid ptr)).threads u = some a →
      (u = t ∧ a = ⟨self, .execStore pid ptr⟩) ∨ (u = ptr ∧ a = ⟨name, .user⟩) ∨
        (u ≠ t ∧ v.threads u = some a) := fun u a hu => threads_forked_cases hat hptr hu
  have hlive : Pc.execFork name pid ptr ≠ .finished := fun h => by cases h
  constructor
  · intro u a hu hfin
    rcases hthread u a hu with ⟨rfl, -⟩ | ⟨rfl, -⟩ | ⟨-, hu⟩
    · exact h.own u _ hat hlive
    · exact ⟨pid, hslot⟩
    · exact h.own u a hu hfin
  · intro i q k' u hi hk' hu
    change Function.update v.ident ptr (some { k with thread := some ptr }) q = some k' at hk'
    by_cases hq : q = ptr
    · subst hq
      rw [Function.update_self, Option.some.injEq] at hk'
      rw [← hk', Option.some.injEq] at hu
      exact ⟨hu.symm, _, threads_forked_child hat hptr, fun h => by cases h⟩
    · rw [Function.update_of_ne hq] at hk'
      obtain ⟨heq, a, ha, hfin⟩ := h.alive i q k' u hi hk' hu
      refine ⟨heq, ?_⟩
      by_cases hqt : q = t
      · rw [hqt]
        exact ⟨_, threads_setPc_self _ hat', fun h => by cases h⟩
      · exact ⟨a, threads_forked_of_ne hptr hqt ha, hfin⟩
  · have hname : ∀ u a, ((v.fork name ptr k).setPc t (.execStore pid ptr)).threads u = some a →
        a.pc ≠ .finished → (u = ptr ∧ a.name = name) ∨
          ∃ b, v.threads u = some b ∧ b.pc ≠ .finished ∧ b.name = a.name := by
      intro u a hu hfin
      rcases hthread u a hu with ⟨rfl, rfl⟩ | ⟨rfl, rfl⟩ | ⟨-, hu⟩
      · exact Or.inr ⟨_, hat, hlive, rfl⟩
      · exact Or.inl ⟨rfl, rfl⟩
      · exact Or.inr ⟨a, hu, hfin, rfl⟩
    intro p q a b hp hpfin hq hqfin heq
    rcases hname p a hp hpfin with ⟨rfl, ha⟩ | ⟨a₀, hp₀, hpfin₀, ha⟩ <;>
      rcases hname q b hq hqfin with ⟨rfl, hb⟩ | ⟨b₀, hq₀, hqfin₀, hb⟩
    · rfl
    · exact absurd (by rw [hb, ← heq, ha]) (hnew q b₀ hq₀ hqfin₀)
    · exact absurd (by rw [ha, heq, hb]) (hnew p a₀ hp₀ hpfin₀)
    · exact h.names p q a₀ b₀ hp₀ hpfin₀ hq₀ hqfin₀ (by rw [ha, hb, heq])
  · exact h.size
  · exact h.bits
  · have hnot : ∀ u pid' ptr', ¬ Filling ((v.fork name ptr k).setPc t (.execStore pid ptr)) u pid'
        ptr' false := by
      rintro u pid' ptr' ⟨a, hu, hw⟩
      rcases hthread u a hu with ⟨rfl, rfl⟩ | ⟨rfl, rfl⟩ | ⟨hne, hu⟩
      · simp [window] at hw
      · simp [window] at hw
      · exact hne (h.single u t pid' pid ptr' ptr ⟨a, hu, hw⟩ hfilling)
    exact fun u _ p _ q _ hf _ => absurd hf (hnot u p q)
  · intro u a hu
    rcases hthread u a hu with ⟨rfl, rfl⟩ | ⟨rfl, rfl⟩ | ⟨hne, hu'⟩
    · exact ⟨hslot, _, threads_forked_child hat hptr, trivial⟩
    · trivial
    · apply (h.pcs u a hu').transfer
      · exact fun _ h => h
      · exact fun _ _ _ _ h => h
      · exact fun _ _ _ h => h
      · exact le_rfl
      · intro p k' hp hk'
        change Function.update v.ident ptr (some { k with thread := some ptr }) p = some k' at hk'
        by_cases hpp : p = ptr
        · subst hpp
          rw [Function.update_self, Option.some.injEq] at hk'
          exact ⟨k, hk, by rw [← hk']⟩
        · rw [Function.update_of_ne hpp] at hk'
          exact ⟨k', hk', rfl⟩
      · exact fun i p hw => absurd (h.single u t i pid p ptr ⟨a, hu', hw⟩ hfilling) hne
      · intro i p hw b hb hplain
        refine ⟨b, threads_forked_of_ne hptr ?_ hb, hplain⟩
        rintro rfl
        rw [hat, Option.some.injEq] at hb
        rw [← hb] at hplain
        exact hplain

theorem ident_storePid {pid : ℤ} {ptr p : ℕ} {k k' : Ident} (hk : v.ident ptr = some k)
    (hk' : Function.update v.ident ptr (some { k with pid := pid }) p = some k') :
    ∃ k₀, v.ident p = some k₀ ∧ k'.thread = k₀.thread ∧ k'.parentID = k₀.parentID := by
  by_cases hp : p = ptr
  · subst hp
    rw [Function.update_self, Option.some.injEq] at hk'
    exact ⟨k, hk, by rw [← hk'], by rw [← hk']⟩
  · rw [Function.update_of_ne hp] at hk'
    exact ⟨k', hk', rfl, rfl⟩

theorem OwnInv.storePid (h : OwnInv v) (hk : v.ident ptr = some k) :
    OwnInv { v with ident := Function.update v.ident ptr (some { k with pid := pid }) } := by
  refine ⟨h.own, ?_, h.names, h.size, h.bits, h.single, ?_⟩
  · intro i p k' u hi hk' hu
    obtain ⟨k₀, hk₀, hthread, -⟩ := ident_storePid hk hk'
    exact h.alive i p k₀ u hi hk₀ (hthread ▸ hu)
  · intro t thr ht
    apply (h.pcs t thr ht).transfer
    · exact fun _ h => h
    · exact fun _ _ _ _ h => h
    · exact fun _ _ _ h => h
    · exact le_rfl
    · intro p k' _ hk'
      obtain ⟨k₀, hk₀, -, hparent⟩ := ident_storePid hk hk'
      exact ⟨k₀, hk₀, hparent⟩
    · exact fun _ _ _ q a hq hfin => ⟨a, hq, hfin, rfl⟩
    · exact fun _ _ _ a ha hp => ⟨a, ha, hp⟩

/-- INTERNAL: a process that leaves takes its own `PCB` with it and no other. -/
theorem OwnInv.remove (hT : TableInv v) (h : OwnInv v)
    (hat : v.threads t = some ⟨self, .exitRemove i⟩) (hslot : v.pcb i = some t) :
    OwnInv ((v.remove i t (clearBit v.bm i)).setPc t .finished) := by
  have hat' : (v.remove i t (clearBit v.bm i)).threads t = some ⟨self, .exitRemove i⟩ := hat
  have hthread : ∀ u a, ((v.remove i t (clearBit v.bm i)).setPc t .finished).threads u = some a →
      a.pc ≠ .finished → u ≠ t ∧ v.threads u = some a := by
    intro u a hu hfin
    rcases threads_setPc_eq_some hat' hu with ⟨-, rfl⟩ | hu
    · exact absurd rfl hfin
    · exact hu
  constructor
  · intro u a hu hfin
    obtain ⟨hne, hu⟩ := hthread u a hu hfin
    obtain ⟨j, hj⟩ := h.own u a hu hfin
    exact ⟨j, update_none_of_ne hslot hne hj⟩
  · intro j p k u hj hk hu
    obtain ⟨hj, hp, -⟩ := hT.pcb_remove hslot hj
    obtain ⟨-, hk⟩ := update_none_cases hk
    obtain ⟨heq, a, ha, hfin⟩ := h.alive j p k u hj hk hu
    exact ⟨heq, a, by rw [threads_setPc_of_ne _ hp]; exact ha, hfin⟩
  · intro p q a b hp hpfin hq hqfin hname
    exact h.names p q a b (hthread p a hp hpfin).2 hpfin (hthread q b hq hqfin).2 hqfin hname
  · exact h.size
  · intro j p hj
    obtain ⟨hj, -, hji⟩ := hT.pcb_remove hslot hj
    obtain ⟨hlt, hset⟩ := h.bits j p hj
    refine ⟨hlt, ?_⟩
    show isSet (clearBit v.bm i) j = true
    rw [isSet_clearBit, hset]
    simp [hji]
  · have hback' : ∀ u pid ptr,
        Filling ((v.remove i t (clearBit v.bm i)).setPc t .finished) u pid ptr false →
        Filling v u pid ptr false := by
      rintro u pid ptr ⟨a, hu, hw⟩
      rcases threads_setPc_eq_some hat' hu with ⟨-, rfl⟩ | ⟨-, hu⟩
      · simp [window] at hw
      · exact ⟨a, hu, hw⟩
    exact fun u u' p p' q q' hf hf' =>
      h.single u u' p p' q q' (hback' u p q hf) (hback' u' p' q' hf')
  · intro u a hu
    rcases threads_setPc_eq_some hat' hu with ⟨rfl, rfl⟩ | ⟨hne, hu'⟩
    · trivial
    · have hown := h.pcs u a hu'
      -- nobody fills the slot of a process that is leaving
      have hleaving : ∀ j p forked, window a.pc = some (j, p, forked) → p ≠ t := by
        rintro j p forked hw rfl
        cases forked with
        | false =>
          have hnone := (hT.filling u j p false ⟨a, hu', hw⟩).2.2.2 rfl
          rw [hat] at hnone
          cases hnone
        | true =>
          cases hpc : a.pc <;> rw [hpc] at hw hown <;>
            simp only [window, reduceCtorEq, Option.some.injEq, Prod.mk.injEq, and_false] at hw
          obtain ⟨-, b, hb, hplain⟩ := hown
          rw [hw.2.1, hat, Option.some.injEq] at hb
          rw [← hb] at hplain
          exact hplain
      apply hown.transfer
      · exact fun j hj => update_none_of_ne hslot hne hj
      · exact fun j p forked hw hj => update_none_of_ne hslot (hleaving j p forked hw) hj
      · exact fun j p _ hj => (hT.pcb_remove hslot hj).1
      · exact le_rfl
      · exact fun p k _ hk => ⟨k, (update_none_cases hk).2, rfl⟩
      · exact fun _ _ _ q b hq hfin => ⟨b, (hthread q b hq hfin).2, hfin, rfl⟩
      · intro j p hw b hb hplain
        exact ⟨b, by rw [threads_setPc_of_ne _ (hleaving j p true hw)]; exact hb, hplain⟩

/-! ## The conditions on a step -/

/-- The step does not search the table while another thread has forked a child whose `pid` it
has not stored yet (pcb.cc:54-56). -/
def PidsStored (s : ProcTable) (e : ProcEvent) : Prop :=
  Scans s e → ∀ u, u ≠ e.thread → ∀ thr, s.threads u = some thr →
    ∀ pid ptr, thr.pc ≠ .execStore pid ptr

/-- An `Exec` that goes on after `bmsem->P()` names a program that no process in the table
has. -/
def NewName (s : ProcTable) : ProcEvent → Prop
  | .resume t _ => ∀ thr name opens, s.threads t = some thr → thr.pc = .execScan (some name) opens →
      ∀ i ptr, s.pcb i = some ptr → s.getFileName ptr ≠ some name
  | _ => True

theorem pidsStored_of_noScan (h : NoScanDuringPcbExec s e) : PidsStored s e := by
  intro hscan u hu thr hthr pid ptr hpc
  refine h hscan u hu ⟨thr, hthr, ?_⟩
  rw [hpc]
  rfl

theorem not_filling_of_stored (h : PidsStored s e) (hscan : Scans s e)
    (hat : s.threads e.thread = some thr) (hplain : Plain thr.pc) (u : ThreadId) (pid ptr : ℕ) :
    ¬ Filling (viewOf s) u pid ptr true := by
  intro hf
  by_cases hu : u = e.thread
  · rw [hu] at hf
    exact not_filling_of_window hat (window_of_plain hplain) hf
  · obtain ⟨a, ha, hw⟩ := hf
    refine h hscan u hu a ha pid ptr ?_
    cases hpc : a.pc <;> rw [hpc] at hw <;>
      simp only [window, reduceCtorEq, Option.some.injEq, Prod.mk.injEq, and_false, and_true] at hw
    rw [hw.1, hw.2]

theorem OwnInv.plain_of_filling (h : OwnInv v) {u t : ThreadId} (hf : Filling v u pid t true)
    (hat : v.threads t = some thr) : Plain thr.pc := by
  obtain ⟨a, ha, hw⟩ := hf
  have hown := h.pcs u a ha
  cases hpc : a.pc <;> rw [hpc] at hw hown <;>
    simp only [window, reduceCtorEq, Option.some.injEq, Prod.mk.injEq, and_false, and_true] at hw
  obtain ⟨-, b, hb, hplain⟩ := hown
  rw [hw.2, hat, Option.some.injEq] at hb
  rwa [← hb] at hplain

theorem OwnInv.selected_pid (hT : TableInv v) (h : OwnInv v) (hat : v.threads t = some thr)
    (hplain : Plain thr.pc) (hscan : Scanned v thr.name index)
    (hstored : ∀ u pid ptr, ¬ Filling v u pid ptr true) :
    ∃ i k, index = some i ∧ i < maxProcess ∧ v.pcb i = some t ∧ v.ident t = some k ∧
      k.pid = i ∧ v.currentID index = i := by
  obtain ⟨i, k, rfl, hslot, hk, hthread⟩ := h.selected hat (ne_finished_of_plain hplain) hscan
  have hlt := (h.bits i t hslot).1
  have hpid := pid_of_stored hT hslot hk hthread hstored
  exact ⟨i, k, rfl, hlt, hslot, hk, hpid, by rw [currentID_of_slot hlt hslot hk, hpid]⟩

theorem OwnInv.joining (hT : TableInv v) (h : OwnInv v) {id : ℤ} {child ptr : ℕ} {kc : Ident}
    (hat : v.threads t = some ⟨self, .user⟩) (hid : 0 ≤ id ∧ id < maxProcess)
    (hscan : Scanned v self index) (hchild : v.pcb id.toNat = some child)
    (hkc : v.ident child = some kc) (hparent : kc.parentID = v.currentID index)
    (hptr : v.pcbAt (v.currentID index) = some ptr)
    (hstored : ∀ u pid ptr, ¬ Filling v u pid ptr true) :
    ptr = t ∧ Joining v t id (v.currentID index) child := by
  obtain ⟨i, k, rfl, hlt, hslot, -, -, hcur⟩ := h.selected_pid hT hat trivial hscan hstored
  rw [hcur, pcbAt_natCast hlt, hslot, Option.some.injEq] at hptr
  refine ⟨hptr.symm, ⟨i, hcur, hslot⟩, hid, (hT.slot _ _ hchild).1, fun j hj => ?_,
    fun k' hk' => ?_⟩
  · have hj := hT.inj j id.toNat child hj hchild
    omega
  · rw [hkc, Option.some.injEq] at hk'
    rw [← hk', hparent]

theorem OwnInv.exiting (hT : TableInv v) (h : OwnInv v) {index ptr : ℕ}
    (hat : v.threads t = some ⟨self, .user⟩) (hscan : Scanned v self (some index))
    (hptr : v.pcb index = some ptr) (hk : v.ident ptr = some k)
    (hstored : ∀ u pid ptr, ¬ Filling v u pid ptr true) :
    ptr = t ∧ k.pid = index ∧ v.pcb index = some t := by
  obtain ⟨i, k', hi, -, hslot, hk', hpid, -⟩ := h.selected_pid hT hat trivial hscan hstored
  obtain rfl := Option.some.inj hi
  rw [hslot, Option.some.injEq] at hptr
  subst hptr
  rw [hk', Option.some.injEq] at hk
  exact ⟨rfl, hk ▸ hpid, hslot⟩

theorem OwnInv.exitWaiting (h : OwnInv v)
    {pid : ℤ} {from_ : Pc} (hat : v.threads t = some ⟨self, from_⟩)
    (hfrom : from_ = .exitP pid ptr ∨
      ∃ index : ℕ, from_ = .exitWait index pid ∧ v.pcbAt index = some ptr) :
    ptr = t ∧ ∃ i : ℕ, pid = i ∧ v.pcb i = some t := by
  have hown := h.pcs t _ hat
  rcases hfrom with rfl | ⟨index, rfl, hptr⟩
  · exact hown
  · obtain ⟨hpid, hslot⟩ := hown
    rw [pcbAt_natCast (h.bits index t hslot).1, hslot, Option.some.injEq] at hptr
    exact ⟨hptr.symm, index, hpid, hslot⟩

theorem OwnInv.leaving (h : OwnInv v) {pid : ℤ} (hat : v.threads t = some ⟨self, .exitRemove pid⟩) :
    ∃ i : ℕ, pid = i ∧ i < maxProcess ∧ v.pcb i = some t ∧ v.pcbAt pid = some t := by
  obtain ⟨i, rfl, hslot⟩ := h.pcs _ _ hat
  have hlt := (h.bits i t hslot).1
  exact ⟨i, rfl, hlt, hslot, (pcbAt_natCast hlt).mpr hslot⟩

theorem OwnInv.joinTested (h : OwnInv v) {id cur : ℤ} {child : ℕ} {value w : BitVec 32}
    (hat : v.threads t = some thr) (hlive : thr.pc ≠ .finished)
    (hno : ∀ u pid, ¬ Filling v u pid t true)
    (htest : Tested value w pc (.joinRead id cur child) (.joinP id cur t child))
    (hjoin : Joining v t id cur child) : OwnInv ((v.setSem t .joinsem w).setPc t pc) := by
  refine (h.setPc hat hlive ?_ ?_ ?_ ?_).congr rfl rfl rfl rfl rfl fun _ h => h
  · rcases htest.cases_pc with rfl | rfl <;> exact nofun
  · rcases htest.cases_pc with rfl | rfl <;> exact nofun
  · exact fun u pid hf => absurd hf (hno u pid)
  · rcases htest.cases_pc with rfl | rfl
    · exact hjoin
    · exact ⟨rfl, hjoin⟩

/-- INTERNAL: **every step under a new name, made when all `pid`s are stored, leaves every live
process its own slot and name.** -/
theorem OwnInv.step {v' : TableView} (hT : TableInv (viewOf s)) (h : OwnInv (viewOf s))
    (hstep : ViewStep (viewOf s) e v') (hstored : PidsStored s e) (hname : NewName s e) :
    OwnInv v' := by
  have hother : ∀ {t u : ThreadId} {thr : Thread} {pid : ℕ} {pc : Pc}, s.threads t = some thr →
      ¬ Plain thr.pc → Filling (viewOf s) u pid t true → Plain pc :=
    fun hat hp hf => absurd (h.plain_of_filling hf hat) hp
  cases hstep with
  | refuse => exact h
  | plain pc hat hfrom hto hn hbm =>
    refine (h.setPc hat ?_ ?_ ?_ ?_ ?_).congr rfl rfl rfl rfl hn hbm
    · exact ne_finished_of_plain hfrom
    · exact ne_finished_of_plain hto
    · exact fun _ hw => by rw [window_of_plain hto] at hw; cases hw
    · exact fun _ _ _ => hto
    · exact ownPc_of_plain hto
  | publish hat hpid hfree hscan hid =>
    refine h.publish hT hat hpid hfree hscan ?_ fun i ptr hi => ?_
    · exact not_filling_of_stored hstored ⟨_, _, _, hat, rfl⟩ hat trivial
    · rw [← getFileName_eq]
      exact hname _ _ _ hat rfl i ptr hi
  | mutexTest hat hpc =>
    apply h.setPc hat
    · exact fun h => by cases h
    · rcases hpc with rfl | rfl <;> exact fun h => by cases h
    · rcases hpc with rfl | rfl <;> exact fun _ hw => hw
    · exact fun u pid => hother hat fun h => h
    · rcases hpc with rfl | rfl <;> exact h.pcs _ _ hat
  | fork hat hk hnone => exact h.fork hT hat hk
  | forkFail hat hk hsome => exact absurd (hT.thread_eq_none hat hk) hsome
  | store hat hk =>
    apply OwnInv.setPc
    · exact h.storePid hk
    · exact hat
    · exact fun h => by cases h
    · exact fun h => by cases h
    · exact fun _ hw => by cases hw
    · exact fun _ _ _ => trivial
    · trivial
  | discard hat hptr hbm => exact absurd rfl (hT.noFail _ _ _ hat)
  | join hat hid hscan hchild hkc hparent hptr hkm htest =>
    have hno := not_filling_of_stored hstored hid hat trivial
    obtain ⟨rfl, hjoin⟩ := h.joining hT hat hid hscan hchild hkc hparent hptr hno
    exact h.joinTested hat nofun (fun u pid => hno u pid _) htest hjoin
  | joinTest hat hkm htest =>
    obtain ⟨rfl, hjoin⟩ := h.pcs _ _ hat
    exact h.joinTested hat nofun (fun u pid hf => h.plain_of_filling hf hat) htest hjoin
  | joinRead hat hptr hkc =>
    refine (h.setPc hat ?_ ?_ ?_ ?_ ?_).congr rfl rfl rfl rfl rfl fun _ h => h
    · exact fun h => by cases h
    · exact fun h => by cases h
    · exact fun _ hw => by cases hw
    · exact fun _ _ _ => trivial
    · trivial
  | exit hat hscan hptr hk hpid hparent hkp =>
    have hno := not_filling_of_stored hstored trivial hat trivial
    obtain ⟨rfl, hown⟩ := h.exiting hT hat hscan hptr hk hno
    refine (h.setPc hat ?_ ?_ ?_ ?_ ?_).congr rfl rfl rfl rfl rfl fun _ h => h
    · exact fun h => by cases h
    · exact fun h => by cases h
    · exact fun _ hw => by cases hw
    · exact fun u pid hf => absurd hf (hno u pid _)
    · exact hown
  | exitTest hat hfrom hk htest =>
    obtain ⟨rfl, i, rfl, hslot⟩ := h.exitWaiting hat hfrom
    refine (h.setPc hat ?_ ?_ ?_ ?_ ?_).congr rfl rfl rfl rfl rfl fun _ h => h
    · rcases hfrom with rfl | ⟨index, rfl, -⟩ <;> exact fun h => by cases h
    · rcases htest.cases_pc with rfl | rfl <;> exact fun h => by cases h
    · rcases htest.cases_pc with rfl | rfl <;> exact fun _ hw => by cases hw
    · rcases hfrom with rfl | ⟨index, rfl, -⟩ <;> exact fun u pid => hother hat fun h => h
    · rcases htest.cases_pc with rfl | rfl
      · exact ⟨i, rfl, hslot⟩
      · exact ⟨rfl, i, rfl, hslot⟩
  | leave hat hnone =>
    obtain ⟨i, -, -, -, hself⟩ := h.leaving hat
    rw [hself] at hnone
    cases hnone
  | remove hat hptr hfile hbm =>
    obtain ⟨i, rfl, hlt, hslot, hself⟩ := h.leaving hat
    obtain rfl := Option.some.inj (hself.symm.trans hptr)
    rw [clear_eq (by rw [show (viewOf s).bm.numBits = _ from h.size]; exact hlt),
      Option.some.injEq] at hbm
    subst hbm
    exact h.remove hT hat hslot

theorem ownInv_boot {words : ℕ → BitVec 32} {s₀ : ProcState} (h : ProcState.boot words = some s₀) :
    OwnInv (viewOf s₀.toProcTable) := by
  obtain ⟨hpcb, hheap, hthreads, hnext, -, hsize, hset⟩ := boot_spec h
  have hthread : ∀ t thr, (viewOf s₀.toProcTable).threads t = some thr →
      t = 0 ∧ thr = ⟨"main", .user⟩ := by
    intro t thr ht
    simp only [viewOf, hthreads, Option.ite_none_right_eq_some, Option.some.injEq] at ht
    exact ⟨ht.1, ht.2.symm⟩
  have hslot : ∀ i ptr, (viewOf s₀.toProcTable).pcb i = some ptr → i = 0 ∧ ptr = 0 := by
    intro i ptr hi
    simp only [viewOf, hpcb, Option.ite_none_right_eq_some, Option.some.injEq] at hi
    exact ⟨hi.1, hi.2.symm⟩
  constructor
  · intro t thr ht _
    obtain ⟨rfl, -⟩ := hthread t thr ht
    exact ⟨0, by simp [viewOf, hpcb]⟩
  · intro i ptr k u hi hk hu
    obtain ⟨rfl, rfl⟩ := hslot i ptr hi
    have hheap0 : s₀.heap 0 = some (PCB.new (-1) 0 0) := by rw [hheap]; rfl
    rw [ident_viewOf hheap0, Option.some.injEq] at hk
    rw [← hk] at hu
    refine ⟨(Option.some.inj hu).symm, ⟨"main", .user⟩, by simp [viewOf, hthreads], ?_⟩
    exact fun h => by cases h
  · intro p q a b hp _ hq _ _
    rw [(hthread p a hp).1, (hthread q b hq).1]
  · exact hsize
  · intro i ptr hi
    obtain ⟨rfl, -⟩ := hslot i ptr hi
    exact ⟨by decide, hset⟩
  · rintro u u' pid pid' ptr ptr' ⟨a, ha, hw⟩ -
    rw [(hthread u a ha).2] at hw
    cases hw
  · intro t thr ht
    rw [(hthread t thr ht).2]
    trivial

/-! ## The caller -/

/-- If the step searches the table it selects the caller's own `PCB`, with its thread and the
number of its slot; and if it ends an `Exit`, the slot it empties is the caller's own, so that
the address space it destroys is the caller's too. -/
def SelectsCaller (s : ProcTable) (e : ProcEvent) : Prop :=
  (Scans s e → ∀ thr, s.threads e.thread = some thr →
    ∃ i c, s.scan thr.name = some (some i) ∧ s.pcb i = some e.thread ∧
      s.heap e.thread = some c ∧ c.pid = i ∧ c.thread = some e.thread) ∧
  (∀ t garbage self pid, e = .resume t garbage → s.threads t = some ⟨self, .exitRemove pid⟩ →
    s.pcbAt pid = some t ∧ ∃ c, s.heap t = some c ∧ c.thread = some t)

theorem exists_getFileName (hT : TableInv (viewOf s)) (h : OwnInv (viewOf s))
    (hno : ∀ u pid ptr forked, ¬ Filling (viewOf s) u pid ptr forked) (hi : s.pcb i = some ptr) :
    ∃ file, s.getFileName ptr = some file := by
  obtain ⟨-, k, hk, hinit⟩ := hT.slot i ptr hi
  rcases hinit with ⟨hthread, -⟩ | ⟨u, forked, hf⟩
  · obtain ⟨u, hu⟩ := Option.ne_none_iff_exists'.mp hthread
    obtain ⟨rfl, thr, hthr, hfin⟩ := h.alive i ptr k u hi hk hu
    exact ⟨thr.name, by simp [getFileName_eq, TableView.fileName, hk, hu, hthr, hfin]⟩
  · exact absurd hf (hno u i ptr forked)

theorem OwnInv.thread_of_leaving (hT : TableInv v) (h : OwnInv v) (hat : v.threads t = some thr)
    (hplain : ¬ Plain thr.pc) (hslot : v.pcb i = some t) :
    ∃ k, v.ident t = some k ∧ k.thread = some t := by
  obtain ⟨-, k, hk, hinit⟩ := hT.slot i t hslot
  have hthread : k.thread ≠ none := by
    rcases hinit with ⟨hthread, -⟩ | ⟨u, forked, hf⟩
    · exact hthread
    · cases forked with
      | false =>
        have hnone := (hT.filling u i t false hf).2.2.2 rfl
        rw [hat] at hnone
        cases hnone
      | true => exact absurd (h.plain_of_filling hf hat) hplain
  obtain ⟨u, hu⟩ := Option.ne_none_iff_exists'.mp hthread
  obtain ⟨rfl, -⟩ := h.alive i t k u hslot hk hu
  exact ⟨k, hk, hu⟩

theorem newName_resume {garbage : ℤ} (hat : s.threads t = some thr)
    (h : ∀ name opens, thr.pc ≠ .execScan name opens) : NewName s (.resume t garbage) := by
  intro thr' name opens hat' hpc
  rw [hat, Option.some.injEq] at hat'
  subst hat'
  exact absurd hpc (h (some name) opens)

/-- SOURCE: threads/ptable.cc:20-103, threads/pcb.cc:18-23 — in every run from boot in which every
`Exec` names a program that no process in the table has, and in which no search is made while
another thread is inside `PCB::Exec`, every call selects the caller's own `PCB` and every `Exit`
empties the caller's own slot. -/
theorem calls_select_caller {words : ℕ → BitVec 32} {s₀ : ProcState}
    (hboot : ProcState.boot words = some s₀) {es : List ProcEvent}
    (hes : Meets ProcState.step
      (fun s e => NewName s.toProcTable e ∧ NoScanDuringPcbExec s.toProcTable e) s₀ es) :
    Meets ProcState.step (fun s e => SelectsCaller s.toProcTable e) s₀ es := by
  refine meets_of_meets (I := fun s => TableInv (viewOf s.toProcTable) ∧
    OwnInv (viewOf s.toProcTable)) ?_ ?_ ⟨tableInv_boot hboot, ownInv_boot hboot⟩ hes
  · rintro s e s' ⟨hT, hI⟩ ⟨-, hcond⟩ hstep
    refine ⟨fun hscan thr hat => ?_, fun t garbage self pid _ hat => ?_⟩
    · obtain ⟨thr', hat', hplain⟩ := plain_of_scans hstep hscan
      obtain rfl : thr' = thr := Option.some.inj (hat'.symm.trans hat)
      have hno : ∀ u pid ptr forked, ¬ Filling (viewOf s.toProcTable) u pid ptr forked := by
        intro u pid ptr forked hf
        by_cases hu : u = e.thread
        · rw [hu] at hf
          exact not_filling_of_window hat (window_of_plain hplain) hf
        · obtain ⟨a, ha, hw⟩ := hf
          exact hcond hscan u hu ⟨a, ha, by rw [hw]; rfl⟩
      obtain ⟨index, hindex⟩ := scan_total s.toProcTable thr'.name
        fun i ptr hi => exists_getFileName hT hI hno hi
      have hscanned := scanned_of_scan hindex
      obtain ⟨i, k, rfl, hslot, hk, hthread⟩ :=
        hI.selected hat (ne_finished_of_plain hplain) hscanned
      have hpid := pid_of_stored hT hslot hk hthread fun u pid ptr => hno u pid ptr true
      obtain ⟨c, hc, rfl⟩ := exists_heap_of_ident hk
      exact ⟨i, c, hindex, hslot, hc, hpid, hthread⟩
    · obtain ⟨i, rfl, -, hslot, hself⟩ := hI.leaving hat
      obtain ⟨k, hk, hthread⟩ := hI.thread_of_leaving hT hat (fun h => h) hslot
      obtain ⟨c, hc, rfl⟩ := exists_heap_of_ident hk
      exact ⟨hself, c, hc, hthread⟩
  · rintro s e s' ⟨hT, hI⟩ ⟨hname, hcond⟩ hstep
    have hview := viewStep_of_step hstep
    exact ⟨hT.step hview, hI.step hT hview (pidsStored_of_noScan hcond) hname⟩

/-- SOURCE: threads/ptable.cc:20-103 — the boot process executes `A`, the child exits, and the boot
process joins it. -/
theorem calls_select_caller_exec_exit_join :
    ∃ s₀, ProcState.boot (fun _ => 0#32) = some s₀ ∧
      Meets ProcState.step (fun s e => SelectsCaller s.toProcTable e) s₀
        [.exec 0 (some "A") true, .resume 0 7, .resume 0 0, .resume 0 0, .resume 0 0, .resume 0 0,
          .exit 1 5, .join 0 1] := by
  refine ⟨_, rfl, calls_select_caller rfl ?_⟩
  refine .cons rfl ⟨trivial, fun h => h.elim⟩ ?_
  refine .cons rfl ⟨?_, ?_⟩ ?_
  · rintro thr name opens hthr hpc (_ | i) ptr hi
    · cases hthr
      cases hpc
      cases hi
      decide
    · cases hi
  · rintro - (_ | u) hu ⟨thr, hthr, hw⟩
    · exact absurd rfl hu
    · cases hthr
  refine .cons rfl ⟨newName_resume rfl (by simp), noScan_resume rfl (by simp)⟩ ?_
  refine .cons rfl ⟨newName_resume rfl (by simp), noScan_resume rfl (by simp)⟩ ?_
  refine .cons rfl ⟨newName_resume rfl (by simp), noScan_resume rfl (by simp)⟩ ?_
  refine .cons rfl ⟨newName_resume rfl (by simp), noScan_resume rfl (by simp)⟩ ?_
  refine .cons rfl ⟨trivial, ?_⟩ ?_
  · rintro - (_ | _ | u) hu ⟨thr, hthr, hw⟩
    · cases hthr
      cases hw
    · exact absurd rfl hu
    · cases hthr
  refine .cons rfl ⟨trivial, ?_⟩ trivial
  rintro - (_ | _ | u) hu ⟨thr, hthr, hw⟩
  · exact absurd rfl hu
  · cases hthr
    cases hw
  · cases hthr

/-- Thread `t` calls `Exec(name)` and runs to the end of the call without losing the processor. -/
def uninterruptedExec (t : ThreadId) (name : String) : List ProcEvent :=
  .exec t (some name) true :: List.replicate 5 (.resume t 0)

/-- SOURCE: threads/ptable.cc:36, 70-72 — the boot process executes `A` twice. The guard of
`ExecUpdate` compares `A` with `main` only, and when the first child exits it selects the slot
of the second. -/
theorem first_child_selects_second :
    ∃ s₀, ProcState.boot (fun _ => 0#32) = some s₀ ∧
      ¬ Meets ProcState.step (fun s e => SelectsCaller s.toProcTable e) s₀
        (uninterruptedExec 0 "A" ++ uninterruptedExec 0 "A" ++ [.exit 1 5]) := by
  refine ⟨_, rfl, fun h => ?_⟩
  have hexit := (h.of_append rfl).2
  obtain ⟨i, c, hscan, hslot, -⟩ := (hexit _ rfl).1.1 trivial _ rfl
  cases hscan
  cases hslot

end Nachos.Analysis
