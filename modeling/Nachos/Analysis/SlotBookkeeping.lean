import Nachos.Model.NamedProcesses
import Nachos.Analysis.SlotSteps

/-!
# The bitmap, the slots and the pids

An `ExecUpdate` that searches the table holds `bmsem`, so it meets no slot that is being filled:
all `PCB`s have their numbers. A caller that has its `PCB` then is found, since the `PCB` holds the
name by value, and `ExecUpdate` does not return between `Find` and the new `PCB`. Bits, slots and
numbers agree in every state, and the number `ExecUpdate` returns was free when it looked. A caller
that has lost its `PCB` while it slept in `bmsem` leaves the bit set that `Find` has marked.

The last section says when the model with names by value and the model of the source take the same
steps.
-/

set_option autoImplicit false

namespace Nachos.Analysis

open Nachos.Library Nachos.Model

variable {s s' : NamedState} {t : ThreadId} {self unset : String} {name : Option String}
  {opens : Bool} {garbage : ℤ}

/-! ## The search by value -/

/-- INTERNAL: the loop from slot `i` on keeps the index it has or finds a later one. -/
theorem named_scanFrom_spec {name : String} (n : ℕ) :
    ∀ {i : ℕ} {acc r : Option ℕ}, s.scanFrom name i n acc = some r →
      (r = acc ∧ ∀ j, i ≤ j → j < i + n → ∀ ptr, s.pcb j = some ptr → s.fileName ptr ≠ name) ∨
        ∃ j ptr, j < i + n ∧ r = some j ∧ s.pcb j = some ptr := by
  induction n with
  | zero =>
    intro i acc r h
    rw [NamedState.scanFrom, Option.some.injEq] at h
    exact Or.inl ⟨h.symm, fun j h1 h2 => by omega⟩
  | succ n ih =>
    intro i acc r h
    rw [NamedState.scanFrom] at h
    cases hp : s.pcb i with
    | none =>
      simp only [hp] at h
      obtain ⟨hr, hno⟩ | ⟨j, ptr, hlt, hr, hj⟩ := ih h
      · refine Or.inl ⟨hr, fun j h1 h2 ptr hj => ?_⟩
        obtain rfl | hlt := Nat.eq_or_lt_of_le h1
        · rw [hp] at hj
          cases hj
        · exact hno j hlt (by omega) ptr hj
      · exact Or.inr ⟨j, ptr, by omega, hr, hj⟩
    | some q =>
      simp only [hp, Option.bind_eq_bind, Option.bind_eq_some_iff] at h
      obtain ⟨c, -, h⟩ := h
      obtain ⟨hr, hno⟩ | ⟨j, ptr, hlt, hr, hj⟩ := ih h
      · by_cases hn : name = s.fileName q
        · rw [if_pos hn] at hr
          exact Or.inr ⟨i, q, by omega, hr, hp⟩
        · rw [if_neg hn] at hr
          refine Or.inl ⟨hr, fun j h1 h2 ptr hj => ?_⟩
          obtain rfl | hlt := Nat.eq_or_lt_of_le h1
          · rw [hp, Option.some.injEq] at hj
            exact fun heq => hn (hj ▸ heq.symm)
          · exact hno j hlt (by omega) ptr hj
      · exact Or.inr ⟨j, ptr, by omega, hr, hj⟩

/-! ## Bits, slots and numbers -/

/-- The thread is between the end of `bmsem->P()` and `bmsem->V()` of an `ExecUpdate`. -/
def InExecUpdate (s : ProcTable) (t : ThreadId) : Prop :=
  ∃ thr, s.threads t = some thr ∧ holdsBmsem thr.pc = true

/-- In the table `s`, slot `r` is free and no `PCB` has the number `r`. -/
structure FreeNumber (s : ProcTable) (r : ℤ) : Prop where
  range : 0 ≤ r ∧ r < maxProcess
  slot : s.pcb r.toNat = none
  bit : s.bm.test r = some false
  pids : ∀ i ptr c, s.pcb i = some ptr → s.heap ptr = some c → c.pid ≠ r

/-- Bits, slots and numbers agree while no thread is inside `ExecUpdate`, the boot process has slot
0, and an `ExecUpdate` returns a number that was free when it looked, `-1` if there was none. -/
structure BooksAgree (s : NamedState) : Prop where
  bit_iff : ∀ i < maxProcess, s.bm.test i = some true ↔ s.pcb i ≠ none
  pid_eq : (∀ t, ¬ InExecUpdate s.toProcTable t) → ∀ i ptr, s.pcb i = some ptr →
    ∃ c, s.heap ptr = some c ∧ c.pid = i
  boot : s.pcb 0 = some 0
  returned : ∀ t thr r, s.threads t = some thr → thr.pc = .execReturn r → r ≠ -1 →
    ∃ found, s.searched t = some found ∧ FreeNumber found r
  full : ∀ t thr r found, s.threads t = some thr → thr.pc = .execReturn r →
    s.searched t = some found → (∀ i < maxProcess, found.pcb i ≠ none) → r = -1

/-- A process has a `PCB` in the table when it calls `Exec`, `Join` or `Exit`. -/
def CalledWithPcb (s : NamedState) (e : NamedEvent) : Prop :=
  match e.event with
  | .resume _ _ => True
  | call => ∃ i < maxProcess, s.pcb i = some call.thread

/-- Whoever searches the table has a `PCB` in it at that moment. `Join` and `Exit` search when they
are called; `Exec` searches once `bmsem->P()` is over, which may be long after the call. -/
def CallerHasPcb (s : NamedState) (e : NamedEvent) : Prop :=
  Scans s.toProcTable e.event → ∃ i < maxProcess, s.pcb i = some e.event.thread

/-! ## Runs -/

/-- INTERNAL: the books agree, every thread's `PCB` has its name, and the numbers about to be
returned were free.
SRCLINE: threads/ptable.cc:20-66, threads/pcb.cc:40-59 -/
structure NamedInv (s : NamedState) : Prop where
  book : BookInv (viewOf s.toProcTable) s.bmsem.value
  named : ∀ t thr, s.threads t = some thr → s.fileName t = thr.name
  granted : ∀ t thr r, s.threads t = some thr → grantedPid thr.pc = some r →
    ∃ found, s.searched t = some found ∧ FreeNumber found r

theorem NamedInv.pid_of_scan (h : NamedInv s)
    (hat : s.threads t = some ⟨self, .execScan name opens⟩) {i ptr : ℕ} (hi : s.pcb i = some ptr) :
    ∃ c, s.heap ptr = some c ∧ c.pid = i := by
  have hidle : ∀ u, Holder (viewOf s.toProcTable) u →
      ∃ thr, (viewOf s.toProcTable).threads u = some thr ∧ window thr.pc = none := by
    intro u hu
    have hut : u = t := h.book.alone u t hu ⟨_, hat, rfl⟩
    exact ⟨_, hut ▸ hat, rfl⟩
  obtain ⟨k, hk, hpid⟩ := h.book.pid_eq hidle hi
  obtain ⟨c, hc, rfl⟩ := exists_heap_of_ident hk
  exact ⟨c, hc, hpid⟩

/-- INTERNAL: **a caller with a `PCB` is found.**
SRCLINE: threads/ptable.cc:46-49 -/
theorem NamedInv.found (h : NamedInv s) (hat : s.threads t = some ⟨self, .execScan name opens⟩)
    (hpcb : ∃ i < maxProcess, s.pcb i = some t) {index : Option ℕ}
    (hscan : s.scan self = some index) : s.currentID index ≠ -1 := by
  obtain ⟨i, hi, hslot⟩ := hpcb
  obtain ⟨-, hno⟩ | ⟨j, ptr, hlt, rfl, hj⟩ := named_scanFrom_spec maxProcess hscan
  · exact absurd (h.named t _ hat) (hno i (Nat.zero_le i) (by omega) t hslot)
  · obtain ⟨c, hc, hpid⟩ := h.pid_of_scan hat hj
    have hderef : s.deref j = some c := by
      have hlt' : (j : ℤ) < maxProcess := by omega
      simp [ProcTable.deref, ProcTable.pcbAt, hlt', hj, hc]
    have hid : s.currentID (some j) = c.pid := by
      unfold ProcTable.currentID
      dsimp only
      rw [hderef]
    rw [hid, hpid]
    omega

/-- INTERNAL: the slot that `Find` returns is free. -/
theorem NamedInv.freeNumber (h : NamedInv s) (hat : s.threads t = some ⟨self, .execScan name opens⟩)
    {pid : ℕ} (hpid : pid < s.bm.numBits) (hfree : isSet s.bm pid = false) :
    FreeNumber s.toProcTable pid := by
  have hlt : pid < maxProcess := h.book.bits ▸ hpid
  have hslot : s.pcb pid = none := by
    by_contra hne
    have hset : isSet s.bm pid = true := (h.book.agree pid hlt).mpr hne
    rw [hset] at hfree
    cases hfree
  refine ⟨⟨Int.natCast_nonneg pid, by exact_mod_cast hlt⟩, hslot, ?_, fun i ptr c hi hc hsame => ?_⟩
  · rw [test_eq hpid, hfree]
  · obtain ⟨c', hc', hpid'⟩ := h.pid_of_scan hat hi
    rw [hc, Option.some.injEq] at hc'
    subst hc'
    have hip : i = pid := by omega
    rw [hip, hslot] at hi
    cases hi

/-- INTERNAL: what a step has to do to the names and the histories. -/
theorem NamedInv.of_books (h : NamedInv s)
    (hbooks : Books s.toProcState s'.toProcState t)
    (hold : ∀ u b, s.threads u = some b → s'.fileName u = s.fileName u)
    (hnew : ∀ self name pid ptr, s.threads t = some ⟨self, .execFork name pid ptr⟩ →
      s'.fileName ptr = name)
    (hkept : ∀ u b, s.threads u = some b → grantedPid b.pc ≠ none → s'.searched u = s.searched u)
    (hfind : ∀ self name opens, s.threads t = some ⟨self, .execScan name opens⟩ →
      s'.searched t = some s.toProcTable) : NamedInv s' := by
  refine ⟨h.book.step hbooks, fun u a hu => ?_, fun u a r hu hr => ?_⟩
  · obtain ⟨b, hb, hname, -⟩ | ⟨self, pid, hat, -⟩ := hbooks.thread_cases h.book.table hu
    · rw [hold u b hb, h.named u b hb, hname]
    · exact hnew self a.name pid u hat
  · obtain ⟨b, hb, -, hgrant⟩ | ⟨self, pid, hat, hpc⟩ := hbooks.thread_cases h.book.table hu
    · obtain hsame | ⟨rfl, name, opens, hpc, pid, rfl, hlt, hfree⟩ := hgrant r hr
      · rw [hkept u b hb (by rw [hsame]; simp)]
        exact h.granted u b r hb hsame
      · have hat : s.threads u = some ⟨b.name, .execScan name opens⟩ := by
          rw [← hpc]
          exact hb
        exact ⟨_, hfind b.name name opens hat, h.freeNumber hat hlt hfree⟩
    · rw [hpc] at hr
      cases hr

theorem NamedInv.onState {s' : ProcState} {thr : Thread} (h : NamedInv s)
    (hat : s.threads t = some thr) (hfork : ∀ name pid ptr, thr.pc ≠ .execFork name pid ptr)
    (hscan : ∀ name opens, thr.pc ≠ .execScan name opens) (hbooks : Books s.toProcState s' t) :
    NamedInv (s.onState s') := by
  apply h.of_books hbooks
  · exact fun _ _ _ => rfl
  · intro self name pid ptr hat'
    rw [hat, Option.some.injEq] at hat'
    exact absurd (congrArg Thread.pc hat') (hfork name pid ptr)
  · exact fun _ _ _ _ => rfl
  · intro self name opens hat'
    rw [hat, Option.some.injEq] at hat'
    exact absurd (congrArg Thread.pc hat') (hscan name opens)

/-- INTERNAL: the search of `ExecUpdate` and what follows it. -/
theorem NamedInv.execScan (h : NamedInv s) (hat : s.threads t = some ⟨self, .execScan name opens⟩)
    (hpcb : ∃ i < maxProcess, s.pcb i = some t)
    (hrun : s.execScan t self name opens garbage unset = some s') : NamedInv s' := by
  obtain ⟨s₁, hwith, rfl⟩ := Option.map_eq_some_iff.mp hrun
  apply h.of_books (books_execScanWith hat (fun _ => h.found hat hpcb) hwith)
  · intro u b hb
    apply Function.update_of_ne
    exact Nat.ne_of_lt (h.book.table.lt_next hb)
  · intro self' name' pid ptr hat'
    rw [hat] at hat'
    cases hat'
  · intro u b hb hgrant
    apply Function.update_of_ne
    rintro rfl
    rw [hat, Option.some.injEq] at hb
    subst hb
    exact hgrant rfl
  · exact fun _ _ _ _ => Function.update_self _ _ _

/-- INTERNAL: `PCB::Exec` sets the name of the thread it makes. -/
theorem NamedInv.execFork (h : NamedInv s) {self name : String} {pid ptr : ℕ}
    (hat : s.threads t = some ⟨self, .execFork name pid ptr⟩)
    (hrun : s.execFork t name pid ptr = some s') : NamedInv s' := by
  simp only [NamedState.execFork, Option.bind_eq_bind, Option.bind_eq_some_iff, Option.pure_def,
    Option.some.injEq] at hrun
  obtain ⟨c, hc, s₁, hrun, rfl⟩ := hrun
  obtain ⟨-, -, -, hpre⟩ := h.book.table.filling t pid ptr false ⟨_, hat, rfl⟩
  have hthread : c.thread = none := h.book.table.thread_eq_none hat (ident_viewOf hc)
  have hresume : s.toProcState.resume t self 0 (.execFork name pid ptr) = some (some s₁) :=
    congrArg some hrun
  have hbooks := books_resume h.book.table hat (fun _ _ hpc => by cases hpc) hresume
  apply h.of_books hbooks
  · intro u b hb
    rw [hthread]
    apply Function.update_of_ne
    rintro rfl
    rw [show s.threads u = none from hpre rfl] at hb
    cases hb
  · intro self' name' pid' ptr' hat'
    rw [hat] at hat'
    cases hat'
    rw [hthread]
    exact Function.update_self _ _ _
  · exact fun _ _ _ _ => rfl
  · intro self' name' opens hat'
    rw [hat] at hat'
    cases hat'

theorem named_resume_of_ne {pc : Pc} (hscan : ∀ name opens, pc ≠ .execScan name opens)
    (hfork : ∀ name pid ptr, pc ≠ .execFork name pid ptr) :
    s.resume t self garbage unset pc =
      (s.toProcState.resume t self garbage pc).map fun r => r.map s.onState := by
  cases pc with
  | execScan name opens => exact absurd rfl (hscan name opens)
  | execFork name pid ptr => exact absurd rfl (hfork name pid ptr)
  | _ => rfl

/-- INTERNAL: **one step** keeps the invariant. -/
theorem NamedInv.step {e : NamedEvent} (h : NamedInv s) (hc : CallerHasPcb s e)
    (hstep : s.step e = some s') : NamedInv s' := by
  unfold NamedState.step at hstep
  obtain ⟨-, hstep⟩ := Option.ite_none_right_eq_some.mp hstep
  simp only [Option.bind_eq_bind, Option.bind_eq_some_iff, Option.pure_def,
    Option.some.injEq] at hstep
  obtain ⟨thr, hat, r, hact, rfl⟩ := hstep
  cases r with
  | none => exact ⟨h.book, h.named, h.granted⟩
  | some s' =>
    obtain ⟨self, pc⟩ := thr
    obtain ⟨event, unset⟩ := e
    cases event with
    | exec t name opens =>
      simp only [NamedState.act, Option.ite_none_right_eq_some, Option.some.injEq] at hact
      obtain ⟨rfl, rfl⟩ := hact
      exact h.onState hat (fun _ _ _ hpc => by cases hpc) (fun _ _ hpc => by cases hpc)
        (books_bmsemTest hat trivial rfl name opens)
    | join t id =>
      simp only [NamedState.act, Option.ite_none_right_eq_some, Option.some.injEq,
        Option.map_eq_some_iff] at hact
      obtain ⟨rfl, s₁, hrun, rfl⟩ := hact
      exact h.onState hat (fun _ _ _ hpc => by cases hpc) (fun _ _ hpc => by cases hpc)
        (books_joinCallWith hat hrun)
    | exit t ec =>
      simp only [NamedState.act, Option.ite_none_right_eq_some, Option.some.injEq,
        Option.map_eq_some_iff] at hact
      obtain ⟨rfl, s₁, hrun, rfl⟩ := hact
      exact h.onState hat (fun _ _ _ hpc => by cases hpc) (fun _ _ hpc => by cases hpc)
        (books_exitCallWith hat hrun)
    | resume t garbage =>
      by_cases hscan : ∃ name opens, pc = .execScan name opens
      · obtain ⟨name, opens, rfl⟩ := hscan
        exact h.execScan hat (hc ⟨_, name, opens, hat, rfl⟩) (Option.some.inj hact)
      by_cases hfork : ∃ name pid ptr, pc = .execFork name pid ptr
      · obtain ⟨name, pid, ptr, rfl⟩ := hfork
        exact h.execFork hat (Option.some.inj hact)
      have hact' : s.resume t self garbage unset pc = some (some s') := hact
      rw [named_resume_of_ne (fun name opens hpc => hscan ⟨name, opens, hpc⟩)
        fun name pid ptr hpc => hfork ⟨name, pid, ptr, hpc⟩] at hact'
      simp only [Option.map_eq_some_iff] at hact'
      obtain ⟨-, hrun, s₁, rfl, rfl⟩ := hact'
      exact h.onState hat (fun name pid ptr hpc => hfork ⟨name, pid, ptr, hpc⟩)
        (fun name opens hpc => hscan ⟨name, opens, hpc⟩)
        (books_resume h.book.table hat (fun name opens hpc => hscan ⟨name, opens, hpc⟩) hrun)

/-- INTERNAL: the table that the constructor makes. -/
theorem named_boot (words : ℕ → BitVec 32) : ∃ s₀, NamedState.boot words = some s₀ ∧ NamedInv s₀ := by
  obtain ⟨b, hb, hn, hclear⟩ := new_eq maxProcess words
  have hlt : 0 < b.numBits := by rw [hn]; decide
  have hmark : b.mark 0 = some (setBit b 0) := mark_eq hlt
  have hboot : ∃ s, ProcState.boot words = some s ∧ s.bm = setBit b 0 ∧ s.bmsem.value = 1#32 := by
    simp only [ProcState.boot, hb, Option.bind_eq_bind, Option.bind_some, hmark, Option.pure_def]
    exact ⟨_, rfl, rfl, rfl⟩
  obtain ⟨s, hboot, hbm, hsem⟩ := hboot
  obtain ⟨hpcb, -, hthreads, -, -, hbits, -⟩ := boot_spec hboot
  have hthread : ∀ u thr, s.threads u = some thr → thr = ⟨"main", .user⟩ := by
    intro u thr hu
    rw [hthreads, Option.ite_none_right_eq_some, Option.some.injEq] at hu
    exact hu.2.symm
  have hnone : ∀ u, ¬ Holder (viewOf s.toProcTable) u := by
    rintro u ⟨thr, hu, hheld⟩
    rw [hthread u thr hu] at hheld
    cases hheld
  refine ⟨⟨s, fun _ => "main", fun _ => none⟩, by rw [NamedState.boot, hboot]; rfl, ?_, ?_, ?_⟩
  · refine ⟨tableInv_boot hboot, hbits, fun i hi => ?_, fun i ptr hi => ?_, ?_,
      fun u _ hu => absurd hu (hnone u), fun u hu => absurd hu (hnone u), fun _ => hsem,
      fun u thr pid hu hexit => ?_⟩
    · show isSet s.bm i = true ↔ s.pcb i ≠ none
      rw [hbm, hpcb]
      by_cases h0 : i = 0
      · simp [h0]
      · simp [h0, hclear i hi]
    · have hi' : s.pcb i = some ptr := hi
      rw [hpcb, Option.ite_none_right_eq_some] at hi'
      rw [hi'.1]
      decide
    · show s.pcb 0 = some 0
      rw [hpcb]
      rfl
    · rw [hthread u thr hu] at hexit
      cases hexit
  · intro u thr hu
    rw [hthread u thr hu]
  · intro u thr r hu hr
    rw [hthread u thr hu] at hr
    cases hr

/-- INTERNAL: the invariant, in the terms of the table. -/
theorem NamedInv.agree (h : NamedInv s) : BooksAgree s := by
  have hreturned : ∀ t thr r, s.threads t = some thr → thr.pc = .execReturn r → r ≠ -1 →
      ∃ found, s.searched t = some found ∧ FreeNumber found r := by
    intro t thr r hat hpc hr
    apply h.granted t thr r hat
    rw [hpc]
    exact if_neg hr
  refine ⟨fun i hi => ?_, fun hidle i ptr hi => ?_, h.book.boot, hreturned, ?_⟩
  · have hlt : i < s.bm.numBits := h.book.bits.symm ▸ hi
    rw [test_eq hlt, Option.some.injEq]
    exact h.book.agree i hi
  · obtain ⟨k, hk, hpid⟩ := h.book.pid_eq (fun u hu => absurd hu (hidle u)) hi
    obtain ⟨c, hc, rfl⟩ := exists_heap_of_ident hk
    exact ⟨c, hc, hpid⟩
  · intro t thr r found hat hpc hfound hfull
    by_contra hr
    obtain ⟨found', hfound', hfree⟩ := hreturned t thr r hat hpc hr
    rw [hfound, Option.some.injEq] at hfound'
    subst hfound'
    obtain ⟨h0, hlt⟩ := hfree.range
    exact hfull r.toNat (by omega) hfree.slot

/-- SOURCE: threads/ptable.cc:4-121, threads/pcb.cc:4-59 — from boot, in every interleaving of
calls by processes that have a `PCB` when they search, with the names held by value: bits, slots
and numbers agree whenever no process is inside `ExecUpdate`, slot 0 is the boot process's, and
`ExecUpdate` returns a free number, or `-1` when there is none. -/
theorem books_agree (words : ℕ → BitVec 32) :
    ∃ s₀, NamedState.boot words = some s₀ ∧ ∀ es : List NamedEvent,
      Meets NamedState.step CallerHasPcb s₀ es → Always NamedState.step BooksAgree s₀ es := by
  obtain ⟨s₀, hboot, hinv⟩ := named_boot words
  refine ⟨s₀, hboot, fun es hes => ?_⟩
  exact always_of_meets (fun _ hs => hs.agree) (fun _ _ _ hs hc => hs.step hc) hinv hes

theorem callerHasPcb_resume {thr : Thread} (hat : s.threads t = some thr)
    (h : ∀ name opens, thr.pc ≠ .execScan name opens) : CallerHasPcb s ⟨.resume t garbage, unset⟩ :=
  fun hscan => absurd hscan (not_scans_resume hat h)

/-- The boot process executes `A`, the child exits, and the boot process joins it. -/
theorem books_agree_exec_exit_join :
    ∃ s₀, NamedState.boot (fun _ => 0#32) = some s₀ ∧ Always NamedState.step BooksAgree s₀
      [⟨.exec 0 (some "A") true, ""⟩, ⟨.resume 0 7, "?"⟩, ⟨.resume 0 0, ""⟩, ⟨.resume 0 0, ""⟩,
        ⟨.resume 0 0, ""⟩, ⟨.resume 0 0, ""⟩, ⟨.exit 1 5, ""⟩, ⟨.join 0 1, ""⟩] := by
  obtain ⟨s₀, hboot, hrun⟩ := books_agree fun _ => 0#32
  refine ⟨s₀, hboot, hrun _ ?_⟩
  cases hboot
  refine .cons rfl (fun h => h.elim) ?_
  refine .cons rfl (fun _ => ⟨0, by decide, rfl⟩) ?_
  refine .cons rfl (callerHasPcb_resume rfl (by simp)) ?_
  refine .cons rfl (callerHasPcb_resume rfl (by simp)) ?_
  refine .cons rfl (callerHasPcb_resume rfl (by simp)) ?_
  refine .cons rfl (callerHasPcb_resume rfl (by simp)) ?_
  refine .cons rfl (fun _ => ⟨1, by decide, rfl⟩) ?_
  exact .cons rfl (fun _ => ⟨0, by decide, rfl⟩) trivial

/-- The boot process executes `A`. While it executes `B`, with `1` in the unset `pid`, `B` exits and
`A` calls `Exec`, which sleeps in `bmsem`. `B` is joined and removes slot `1`, the slot of `A`; then
`A` goes on. -/
def removedCaller : List NamedEvent :=
  [⟨.exec 0 (some "A") true, ""⟩, ⟨.resume 0 7, ""⟩, ⟨.resume 0 0, ""⟩, ⟨.resume 0 0, ""⟩,
    ⟨.resume 0 0, ""⟩, ⟨.resume 0 0, ""⟩,
    ⟨.exec 0 (some "B") true, ""⟩, ⟨.resume 0 1, ""⟩, ⟨.resume 0 0, ""⟩,
    ⟨.exit 2 7, ""⟩, ⟨.resume 2 0, ""⟩, ⟨.exec 1 (some "C") true, ""⟩,
    ⟨.resume 0 0, ""⟩, ⟨.resume 0 0, ""⟩, ⟨.resume 0 0, ""⟩,
    ⟨.join 0 2, ""⟩, ⟨.resume 0 0, ""⟩, ⟨.resume 2 0, ""⟩, ⟨.resume 2 0, ""⟩, ⟨.resume 0 0, ""⟩,
    ⟨.resume 1 0, ""⟩, ⟨.resume 1 0, ""⟩, ⟨.resume 1 0, ""⟩]

/-- SOURCE: threads/ptable.cc:41-53, 82-83, threads/pcb.cc:54-56 — every call is made by a process
with a `PCB`, and in the end no process is inside `ExecUpdate`, bit 1 is set and `pcb[1]` is
`NULL`. -/
theorem removed_caller_leaves_bit :
    ∃ s₀, NamedState.boot (fun _ => 0#32) = some s₀ ∧
      Meets NamedState.step CalledWithPcb s₀ removedCaller ∧
      ∃ s, run NamedState.step s₀ removedCaller = some s ∧
        (∀ t, ¬ InExecUpdate s.toProcTable t) ∧ s.bm.test 1 = some true ∧ s.pcb 1 = none := by
  refine ⟨_, rfl, ?_⟩
  -- `A` starts
  refine meets_run_cons rfl ⟨0, by decide, rfl⟩ ?_
  iterate 5 refine meets_run_cons rfl trivial ?_
  -- `B` is forked and has not been given its number
  refine meets_run_cons rfl ⟨0, by decide, rfl⟩ ?_
  iterate 2 refine meets_run_cons rfl trivial ?_
  refine meets_run_cons rfl ⟨2, by decide, rfl⟩ ?_
  refine meets_run_cons rfl trivial ?_
  refine meets_run_cons rfl ⟨1, by decide, rfl⟩ ?_
  iterate 3 refine meets_run_cons rfl trivial ?_
  refine meets_run_cons rfl ⟨0, by decide, rfl⟩ ?_
  iterate 7 refine meets_run_cons rfl trivial ?_
  refine ⟨trivial, _, rfl, ?_, by decide +kernel, rfl⟩
  rintro t ⟨thr, hthr, hheld⟩
  rcases t with _ | _ | _ | t
  · have h : some (⟨"main", .user⟩ : Thread) = some thr := hthr
    cases h
    cases hheld
  · have h : some (⟨"A", .user⟩ : Thread) = some thr := hthr
    cases h
    cases hheld
  · have h : some (⟨"B", .finished⟩ : Thread) = some thr := hthr
    cases h
    cases hheld
  · have h : none = some thr := hthr
    cases h

/-! ## The source's searches -/

/-- INTERNAL: when every `PCB` of the table has a thread with the name it holds, the search by
value is the search of the source. -/
theorem named_scanFrom_eq (name : String)
    (h : ∀ i ptr, s.pcb i = some ptr → s.getFileName ptr = some (s.fileName ptr)) (n : ℕ) :
    ∀ (i : ℕ) (acc : Option ℕ),
      s.scanFrom name i n acc = s.toProcTable.scanFrom name i n acc := by
  induction n with
  | zero => exact fun _ _ => rfl
  | succ n ih =>
    intro i acc
    rw [NamedState.scanFrom, ProcTable.scanFrom]
    cases hp : s.pcb i with
    | none => exact ih (i + 1) acc
    | some ptr =>
      have hfile := h i ptr hp
      cases hc : s.heap ptr with
      | none =>
        rw [ProcTable.getFileName, hc] at hfile
        cases hfile
      | some c =>
        simp only [hc, hfile, Option.bind_eq_bind, Option.bind_some]
        exact ih (i + 1) _

/-- INTERNAL: **the two models take the same steps** from a state in which every `PCB` of the table
has a thread with the name it holds. -/
theorem named_step_eq (h : ∀ i ptr, s.pcb i = some ptr → s.getFileName ptr = some (s.fileName ptr))
    (e : NamedEvent) : (s.step e).map NamedState.toProcState = s.toProcState.step e.event := by
  have hscan : ∀ name, s.scan name = s.toProcTable.scan name := fun name =>
    named_scanFrom_eq name h maxProcess 0 none
  have hback : ∀ r : Option (Option ProcState),
      (r.map fun r => r.map s.onState).map (Option.map NamedState.toProcState) = r := by
    rintro (_ | _ | _) <;> rfl
  have hresume : ∀ t self garbage unset pc,
      (s.resume t self garbage unset pc).map (Option.map NamedState.toProcState) =
        s.toProcState.resume t self garbage pc := by
    intro t self garbage unset pc
    cases pc with
    | execScan name opens =>
      simp only [NamedState.resume, NamedState.execScan, ProcState.resume, hscan,
        ProcState.execScan]
      cases s.execScanWith (s.toProcTable.scan self) t self name opens garbage <;> rfl
    | execFork name pid ptr =>
      simp only [NamedState.resume, NamedState.execFork, ProcState.resume, Option.map_some]
      cases hc : s.heap ptr with
      | none => simp [ProcState.execFork, hc]
      | some c =>
        simp only [Option.bind_eq_bind, Option.bind_some]
        cases s.toProcState.execFork t name pid ptr <;> rfl
    | _ =>
      rw [named_resume_of_ne (by simp) (by simp)]
      exact hback _
  have hact : ∀ thr, (s.act thr e).map (Option.map NamedState.toProcState) =
      s.toProcState.act thr e.event := by
    intro thr
    obtain ⟨event, unset⟩ := e
    cases event with
    | exec t name opens =>
      simp only [NamedState.act, ProcState.act]
      split_ifs <;> rfl
    | join t id =>
      simp only [NamedState.act, ProcState.act, hscan, ProcState.joinCall]
      split_ifs
      · cases s.joinCallWith (s.toProcTable.scan thr.name) t id <;> rfl
      · rfl
    | exit t ec =>
      simp only [NamedState.act, ProcState.act, hscan, ProcState.exitCall]
      split_ifs
      · cases s.exitCallWith (s.toProcTable.scan thr.name) t ec <;> rfl
      · rfl
    | resume t garbage => exact hresume t thr.name garbage unset thr.pc
  unfold NamedState.step ProcState.step
  split_ifs
  · cases hat : s.threads e.event.thread with
    | none => rfl
    | some thr =>
      simp only [Option.bind_eq_bind, Option.bind_some]
      rw [← hact thr]
      cases s.act thr e with
      | none => rfl
      | some r => cases r <;> rfl
  · rfl

end Nachos.Analysis
