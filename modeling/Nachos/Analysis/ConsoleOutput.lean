import Nachos.Analysis.SemaphoreRuns
import Nachos.Library.Exclusion
import Nachos.Model.SynchConsole

/-!
# What reaches the display

`WLineBlock` starts at one, so at most one thread is past its `P` and before its `V`; that
thread alone calls `PutChar`. It does so with the device idle, because it took the unit of
`synchWriteAvail` that the interrupt of its previous byte had left there, and nobody else
takes such a unit.

The invariant names the three phases this leaves: nobody holds the line, the holder is at
its loop test with the device idle, or the holder waits for the byte it has just sent. In
each of them the bytes sent are those of the finished `Write`s and a prefix of the holder's
buffer. Calls of `Read`, and everything a thread does while it does not hold the line, leave
all of this alone (`SameOutput`).
-/

set_option autoImplicit false

namespace Nachos.Analysis

open Nachos.Library Nachos.Model

variable {s s' : ConsoleState} {t : ThreadId} {c : ConsoleCall} {loop : ℕ}

/-- Between `WLineBlock->P()` and `WLineBlock->V()`. -/
def holdsLine : ConsolePc → Bool
  | .putChar _ => true
  | .synchWriteAvail _ => true
  | _ => false

/-- Inside `SynchConsole::Write`. -/
def inWrite : ConsolePc → Bool
  | .wLineBlock => true
  | pc => holdsLine pc

/-- No `PutChar` has found the device busy, and the display has received the buffers of the
finished `Write`s, complete and in order, and after them a prefix of the buffer of at most
one `Write` that has not returned. -/
structure DisplayGood (s : ConsoleState) : Prop where
  alive : s.failed = false
  sent : ∃ rest, s.console.cons.display = s.written.flatten ++ rest ∧
    (rest = [] ∨ ∃ t c, s.calls t = some c ∧ inWrite c.pc = true ∧ rest <+: c.whole)

/-- The device has nothing to do and no completion is unclaimed. -/
structure DeviceIdle (s : ConsoleState) : Prop where
  free : s.console.cons.putBusy = false
  none : s.console.cons.scheduled = 0
  unclaimed : s.console.synchWriteAvail.value = 0#32

/-- The device is sending one byte, or has sent it and the completion is unclaimed. -/
inductive ByteUnderway (s : ConsoleState) : Prop
  | sending (hb : s.console.cons.putBusy = true) (hs : s.console.cons.scheduled = 1)
      (hv : s.console.synchWriteAvail.value = 0#32)
  | sent (hb : s.console.cons.putBusy = false) (hs : s.console.cons.scheduled = 0)
      (hv : s.console.synchWriteAvail.value = 1#32)

/-- Thread `t`, in call `c`, is the one that holds the line. -/
structure LineHolder (s : ConsoleState) (t : ThreadId) (c : ConsoleCall) : Prop where
  taken : s.console.wLineBlock.value = 0#32
  call : s.calls t = some c
  only : ∀ u d, s.calls u = some d → holdsLine d.pc = true → u = t

/-- The phases of the output side. -/
inductive OutputPhase (s : ConsoleState) : Prop
  | free (hv : s.console.wLineBlock.value = 1#32) (hd : DeviceIdle s)
      (hn : ∀ u d, s.calls u = some d → holdsLine d.pc = false)
      (hs : s.console.cons.display = s.written.flatten)
  | atLoop (t : ThreadId) (c : ConsoleCall) (loop : ℕ) (hl : LineHolder s t c)
      (hpc : c.pc = .putChar loop) (hd : DeviceIdle s) (hle : loop ≤ c.numBytes.toNat)
      (hs : s.console.cons.display = s.written.flatten ++ c.whole.take loop)
  | inWait (t : ThreadId) (c : ConsoleCall) (loop : ℕ) (hl : LineHolder s t c)
      (hpc : c.pc = .synchWriteAvail loop) (hd : ByteUnderway s) (hlt : loop < c.numBytes.toNat)
      (hs : s.console.cons.display = s.written.flatten ++ c.whole.take (loop + 1))

/-- What holds in every state. -/
structure OutputInv (s : ConsoleState) : Prop where
  alive : s.failed = false
  phase : OutputPhase s

theorem ConsoleCall.length_whole (c : ConsoleCall) : c.whole.length = c.numBytes.toNat := by
  simp [ConsoleCall.whole]

theorem ConsoleCall.take_succ_whole (c : ConsoleCall) (h : loop < c.numBytes.toNat) :
    c.whole.take (loop + 1) = c.whole.take loop ++ [c.buffer loop] := by
  have hlen : loop < c.whole.length := by rwa [ConsoleCall.length_whole]
  rw [List.take_succ_eq_append_getElem hlen]
  simp [ConsoleCall.whole]

theorem OutputInv.good (h : OutputInv s) : DisplayGood s := by
  refine ⟨h.alive, ?_⟩
  cases h.phase with
  | free hv hd hn hs =>
    refine ⟨[], ?_, Or.inl rfl⟩
    rw [hs, List.append_nil]
  | atLoop t c loop hl hpc hd hle hs =>
    refine ⟨_, hs, Or.inr ⟨t, c, hl.call, ?_, List.take_prefix _ _⟩⟩
    rw [hpc]
    rfl
  | inWait t c loop hl hpc hd hlt hs =>
    refine ⟨_, hs, Or.inr ⟨t, c, hl.call, ?_, List.take_prefix _ _⟩⟩
    rw [hpc]
    rfl

/-! ## What leaves the output alone -/

/-- The two states differ in nothing the output side depends on. -/
structure SameOutput (s s' : ConsoleState) : Prop where
  failed : s'.failed = s.failed
  putBusy : s'.console.cons.putBusy = s.console.cons.putBusy
  scheduled : s'.console.cons.scheduled = s.console.cons.scheduled
  display : s'.console.cons.display = s.console.cons.display
  avail : s'.console.synchWriteAvail.value = s.console.synchWriteAvail.value
  line : s'.console.wLineBlock.value = s.console.wLineBlock.value
  written : s'.written = s.written
  holders : ∀ u d, holdsLine d.pc = true → (s'.calls u = some d ↔ s.calls u = some d)

theorem DeviceIdle.same (h : DeviceIdle s) (hs : SameOutput s s') : DeviceIdle s' :=
  ⟨hs.putBusy.trans h.free, hs.scheduled.trans h.none, hs.avail.trans h.unclaimed⟩

theorem ByteUnderway.same (h : ByteUnderway s) (hs : SameOutput s s') : ByteUnderway s' := by
  cases h with
  | sending hb hn hv =>
    exact .sending (hs.putBusy.trans hb) (hs.scheduled.trans hn) (hs.avail.trans hv)
  | sent hb hn hv => exact .sent (hs.putBusy.trans hb) (hs.scheduled.trans hn) (hs.avail.trans hv)

theorem LineHolder.same (h : LineHolder s t c) (hc : holdsLine c.pc = true) (hs : SameOutput s s') :
    LineHolder s' t c := by
  refine ⟨hs.line.trans h.taken, (hs.holders t c hc).mpr h.call, ?_⟩
  intro u d hd hp
  exact h.only u d ((hs.holders u d hp).mp hd) hp

theorem OutputInv.same (h : OutputInv s) (hs : SameOutput s s') : OutputInv s' := by
  refine ⟨hs.failed.trans h.alive, ?_⟩
  have hd := hs.display
  have hw := hs.written
  cases h.phase with
  | free hv hdev hn hsent =>
    refine .free (hs.line.trans hv) (hdev.same hs) ?_ (by rw [hd, hw, hsent])
    intro u d hu
    by_contra hp
    have hp' : holdsLine d.pc = true := by simpa using hp
    rw [hn u d ((hs.holders u d hp').mp hu)] at hp'
    cases hp'
  | atLoop t c loop hl hpc hdev hle hsent =>
    have hc : holdsLine c.pc = true := by rw [hpc]; rfl
    exact .atLoop t c loop (hl.same hc hs) hpc (hdev.same hs) hle (by rw [hd, hw, hsent])
  | inWait t c loop hl hpc hdev hlt hsent =>
    have hc : holdsLine c.pc = true := by rw [hpc]; rfl
    exact .inWait t c loop (hl.same hc hs) hpc (hdev.same hs) hlt (by rw [hd, hw, hsent])

theorem sameOutput_goto (c : ConsoleCall) {pc : ConsolePc}
    (hbefore : ∀ c, s.calls t = some c → holdsLine c.pc = false) (hpc : holdsLine pc = false) :
    SameOutput s (s.goto t c pc) := by
  refine ⟨rfl, rfl, rfl, rfl, rfl, rfl, rfl, ?_⟩
  apply update_outside hbefore
  intro d hd
  cases hd
  exact hpc

theorem SameOutput.trans {s s' s'' : ConsoleState} (h : SameOutput s s') (h' : SameOutput s' s'') :
    SameOutput s s'' where
  failed := h'.failed.trans h.failed
  putBusy := h'.putBusy.trans h.putBusy
  scheduled := h'.scheduled.trans h.scheduled
  display := h'.display.trans h.display
  avail := h'.avail.trans h.avail
  line := h'.line.trans h.line
  written := h'.written.trans h.written
  holders := fun u d hd => (h'.holders u d hd).trans (h.holders u d hd)

theorem sameOutput_readNext (c : ConsoleCall) (loop : ℕ) (eolncond : Bool)
    (hbefore : ∀ c, s.calls t = some c → holdsLine c.pc = false) :
    SameOutput s (s.readNext t c loop eolncond) := by
  unfold ConsoleState.readNext
  split
  · exact sameOutput_goto c hbefore rfl
  · refine ⟨rfl, rfl, rfl, rfl, rfl, rfl, rfl, ?_⟩
    apply update_outside hbefore
    intro d hd
    cases hd

theorem sameOutput_storeChar (c : ConsoleCall) (loop : ℕ)
    (hbefore : ∀ c, s.calls t = some c → holdsLine c.pc = false) :
    SameOutput s (s.storeChar t c loop) := by
  unfold ConsoleState.storeChar
  split
  · exact sameOutput_goto c hbefore rfl
  · split
    · exact sameOutput_readNext c loop true hbefore
    · exact sameOutput_readNext _ (loop + 1) false hbefore

/-! ## The steps of the holder -/

theorem LineHolder.goto (h : LineHolder s t c) (pc : ConsolePc)
    (hv : s'.console.wLineBlock = s.console.wLineBlock)
    (hcalls : s'.calls = Function.update s.calls t (some { c with pc := pc })) :
    LineHolder s' t { c with pc := pc } := by
  refine ⟨hv ▸ h.taken, ?_, ?_⟩
  · rw [hcalls, Function.update_self]
  · intro u d hu hp
    by_contra hut
    rw [hcalls, Function.update_of_ne hut] at hu
    exact hut (h.only u d hu hp)

theorem LineHolder.unique {t u : ThreadId} {c d : ConsoleCall} (h : LineHolder s t c)
    (hu : s.calls u = some d) (hp : holdsLine d.pc = true) : u = t ∧ d = c := by
  obtain rfl := h.only u d hu hp
  rw [h.call, Option.some.injEq] at hu
  exact ⟨rfl, hu.symm⟩

/-- INTERNAL: a `P` on `WLineBlock` that gets through. -/
theorem OutputInv.takeLine (h : OutputInv s) (t : ThreadId) (c : ConsoleCall)
    (hv : s.console.wLineBlock.value ≠ 0#32) {sem : Semaphore}
    (hsem : sem.value = s.console.wLineBlock.value - 1#32) :
    OutputInv ({ s with console.wLineBlock := sem }.goto t c (.putChar 0)) := by
  refine ⟨h.alive, ?_⟩
  cases h.phase with
  | atLoop u d loop hl hpc hd hle hs => exact absurd hl.taken hv
  | inWait u d loop hl hpc hd hlt hs => exact absurd hl.taken hv
  | free hone hd hn hs =>
    refine .atLoop t { c with pc := .putChar 0 } 0 ⟨?_, Function.update_self _ _ _, ?_⟩ rfl
      ⟨hd.free, hd.none, hd.unclaimed⟩ (Nat.zero_le _) ?_
    · show sem.value = 0#32
      rw [hsem, hone]
      rfl
    · intro u d hu hp
      by_contra hut
      have hu' : s.calls u = some d := (Function.update_of_ne hut _ _).symm.trans hu
      rw [hn u d hu'] at hp
      cases hp
    · show s.console.cons.display = s.written.flatten ++ _
      rw [hs, List.take_zero, List.append_nil]

theorem OutputInv.putByte (halive : s.failed = false) (hl : LineHolder s t c) (hd : DeviceIdle s)
    (hlt : (loop : ℤ) < c.numBytes)
    (hs : s.console.cons.display = s.written.flatten ++ c.whole.take loop) :
    OutputInv (s.putNext t c loop) := by
  have hlt' : loop < c.numBytes.toNat := by omega
  simp only [ConsoleState.putNext, hlt, if_true, Console.putChar, hd.free, Bool.false_eq_true,
    if_false]
  refine ⟨halive, .inWait t { c with pc := .synchWriteAvail loop } loop (hl.goto _ rfl rfl) rfl
    (.sending rfl ?_ hd.unclaimed) hlt' ?_⟩
  · show s.console.cons.scheduled + 1 = 1
    rw [hd.none]
  · show s.console.cons.display ++ [c.buffer loop] = s.written.flatten ++ c.whole.take (loop + 1)
    rw [ConsoleCall.take_succ_whole c hlt', hs, List.append_assoc]

/-- INTERNAL: the holder has sent its whole buffer and gives the line back. -/
theorem OutputInv.finishWrite (halive : s.failed = false) (hl : LineHolder s t c)
    (hd : DeviceIdle s) (hge : ¬ (loop : ℤ) < c.numBytes) (hle : loop ≤ c.numBytes.toNat)
    (hs : s.console.cons.display = s.written.flatten ++ c.whole.take loop) :
    OutputInv (s.putNext t c loop) := by
  have hall : loop = c.whole.length := by rw [ConsoleCall.length_whole]; omega
  simp only [ConsoleState.putNext, hge, if_false]
  refine ⟨halive, .free ?_ ⟨hd.free, hd.none, hd.unclaimed⟩ ?_ ?_⟩
  · show s.console.wLineBlock.v.1.value = 1#32
    rw [Semaphore.value_v, hl.taken]
    rfl
  · intro u e hu
    change Function.update s.calls t none u = some e at hu
    by_cases hut : u = t
    · rw [hut, Function.update_self] at hu
      cases hu
    · rw [Function.update_of_ne hut] at hu
      by_contra hp
      exact hut (hl.only u e hu (by simpa using hp))
  · show s.console.cons.display = (s.written ++ [c.whole]).flatten
    rw [hs, hall, List.take_length, List.flatten_append, List.flatten_singleton]

theorem OutputInv.putNext (h : OutputInv s) (hc : s.calls t = some c) (hpc : c.pc = .putChar loop) :
    OutputInv (s.putNext t c loop) := by
  have hholds : holdsLine c.pc = true := by rw [hpc]; rfl
  cases h.phase with
  | free hone hd hn hs =>
    rw [hn t c hc] at hholds
    cases hholds
  | inWait u d loop' hl hpc' hd hlt hs =>
    obtain ⟨-, rfl⟩ := hl.unique hc hholds
    rw [hpc'] at hpc
    cases hpc
  | atLoop u d loop' hl hpc' hd hle hs =>
    obtain ⟨rfl, rfl⟩ := hl.unique hc hholds
    rw [hpc', ConsolePc.putChar.injEq] at hpc
    subst hpc
    by_cases hlt : (loop' : ℤ) < c.numBytes
    · exact .putByte h.alive hl hd hlt hs
    · exact .finishWrite h.alive hl hd hlt hle hs

/-- INTERNAL: a `P` on `synchWriteAvail` that gets through uses up the completion of the
holder's own byte. -/
theorem OutputInv.useCompletion (h : OutputInv s) (hc : s.calls t = some c)
    (hpc : c.pc = .synchWriteAvail loop) (hv : s.console.synchWriteAvail.value ≠ 0#32)
    {sem : Semaphore} (hsem : sem.value = s.console.synchWriteAvail.value - 1#32) :
    OutputInv ({ s with console.synchWriteAvail := sem }.goto t c (.putChar (loop + 1))) := by
  have hholds : holdsLine c.pc = true := by rw [hpc]; rfl
  cases h.phase with
  | free hone hd hn hs => exact absurd hd.unclaimed hv
  | atLoop u d loop' hl hpc' hd hle hs => exact absurd hd.unclaimed hv
  | inWait u d loop' hl hpc' hd hlt hs =>
    obtain ⟨rfl, rfl⟩ := hl.unique hc hholds
    rw [hpc', ConsolePc.synchWriteAvail.injEq] at hpc
    subst hpc
    cases hd with
    | sending hb hn hz => exact absurd hz hv
    | sent hb hn hone =>
      refine ⟨h.alive, .atLoop t { c with pc := .putChar (loop' + 1) } (loop' + 1)
        (hl.goto _ rfl rfl) rfl ⟨hb, hn, ?_⟩ hlt hs⟩
      show sem.value = 0#32
      rw [hsem, hone]
      rfl

theorem OutputInv.writeDone (h : OutputInv s) (hs : s.console.cons.scheduled ≠ 0) :
    OutputInv { s with
      console.cons := s.console.cons.writeDone
      console.synchWriteAvail := s.console.synchWriteAvail.v.1 } := by
  cases h.phase with
  | free hone hd hn hsent => exact absurd hd.none hs
  | atLoop u d loop hl hpc hd hle hsent => exact absurd hd.none hs
  | inWait u d loop hl hpc hd hlt hsent =>
    cases hd with
    | sent hb hn hv => exact absurd hn hs
    | sending hb hn hv =>
      refine ⟨h.alive, .inWait u d loop ⟨hl.taken, hl.call, hl.only⟩ hpc (.sent rfl ?_ ?_) hlt hsent⟩
      · show s.console.cons.scheduled - 1 = 0
        rw [hn]
      · show s.console.synchWriteAvail.v.1.value = 1#32
        rw [Semaphore.value_v, hv]
        rfl

/-! ## Runs -/

theorem Semaphore.p_cases (sem : Semaphore) (t : ThreadId) :
    (sem.value = 0#32 ∧ sem.p t = ({ sem with queue := sem.queue ++ [t] }, false)) ∨
    (sem.value ≠ 0#32 ∧ sem.p t = ({ sem with value := sem.value - 1#32 }, true)) := by
  by_cases h : sem.value = 0#32
  · exact Or.inl ⟨h, Semaphore.p_of_zero t h⟩
  · exact Or.inr ⟨h, Semaphore.p_of_ne_zero t h⟩

/-- INTERNAL: whatever a thread inside a call does next keeps the invariant. -/
theorem OutputInv.resume (h : OutputInv s) (hc : s.calls t = some c) :
    OutputInv (s.resume t c) := by
  have hself : ∀ d, s.calls t = some d → d = c := by
    intro d hd
    rw [hc, Option.some.injEq] at hd
    exact hd.symm
  unfold ConsoleState.resume
  split
  next hpc =>
    rcases Semaphore.p_cases s.console.wLineBlock t with ⟨-, hp⟩ | ⟨hv, hp⟩
    · rw [hp]
      exact h.same ⟨rfl, rfl, rfl, rfl, rfl, rfl, rfl, fun _ _ _ => Iff.rfl⟩
    · rw [hp]
      exact h.takeLine t c hv rfl
  next loop hpc => exact h.putNext hc hpc
  next loop hpc =>
    rcases Semaphore.p_cases s.console.synchWriteAvail t with ⟨-, hp⟩ | ⟨hv, hp⟩
    · rw [hp]
      exact h.same ⟨rfl, rfl, rfl, rfl, rfl, rfl, rfl, fun _ _ _ => Iff.rfl⟩
    · rw [hp]
      exact h.useCompletion hc hpc hv rfl
  all_goals
    rename_i hpc
    have hout : ∀ d, s.calls t = some d → holdsLine d.pc = false := by
      intro d hd
      rw [hself d hd, hpc]
      rfl
  · rcases Semaphore.p_cases s.console.rLineBlock t with ⟨-, hp⟩ | ⟨-, hp⟩
    · rw [hp]
      exact h.same ⟨rfl, rfl, rfl, rfl, rfl, rfl, rfl, fun _ _ _ => Iff.rfl⟩
    · rw [hp]
      apply h.same
      refine SameOutput.trans ?_ (sameOutput_readNext c 0 false hout)
      exact ⟨rfl, rfl, rfl, rfl, rfl, rfl, rfl, fun _ _ _ => Iff.rfl⟩
  · rcases Semaphore.p_cases s.console.synchReadAvail t with ⟨-, hp⟩ | ⟨-, hp⟩
    · rw [hp]
      exact h.same ⟨rfl, rfl, rfl, rfl, rfl, rfl, rfl, fun _ _ _ => Iff.rfl⟩
    · rw [hp]
      apply h.same
      refine SameOutput.trans ?_ (sameOutput_goto c hout rfl)
      exact ⟨rfl, rfl, rfl, rfl, rfl, rfl, rfl, fun _ _ _ => Iff.rfl⟩
  · apply h.same
    refine SameOutput.trans ?_ (sameOutput_storeChar _ _ hout)
    exact ⟨rfl, rfl, rfl, rfl, rfl, rfl, rfl, fun _ _ _ => Iff.rfl⟩

/-- INTERNAL: the invariant over one event. -/
theorem OutputInv.step {e : ConsoleEvent} (h : OutputInv s) (hs : s.step e = some s') :
    OutputInv s' := by
  unfold ConsoleState.step at hs
  rw [if_neg (by simp [h.alive])] at hs
  cases e with
  | write t buffer numBytes =>
    simp only at hs
    split at hs
    · cases hs
    · rename_i hn
      cases hs
      apply h.same
      refine sameOutput_goto _ (fun d hd => ?_) rfl
      rw [hd] at hn
      exact absurd rfl hn
  | read t into numBytes ch =>
    simp only at hs
    split at hs
    · cases hs
    · rename_i hn
      cases hs
      apply h.same
      refine sameOutput_goto _ (fun d hd => ?_) rfl
      rw [hd] at hn
      exact absurd rfl hn
  | run t =>
    simp only at hs
    split at hs
    · cases hs
    · obtain ⟨c, hc, rfl⟩ := Option.map_eq_some_iff.mp hs
      exact h.resume hc
  | writeDone =>
    simp only at hs
    split at hs
    · cases hs
    · rename_i hne
      cases hs
      exact h.writeDone hne
  | poll key =>
    have hcons : (s.console.cons.checkCharAvail key).1.putBusy = s.console.cons.putBusy ∧
        (s.console.cons.checkCharAvail key).1.scheduled = s.console.cons.scheduled ∧
        (s.console.cons.checkCharAvail key).1.display = s.console.cons.display := by
      unfold Console.checkCharAvail
      split
      · exact ⟨rfl, rfl, rfl⟩
      · split <;> exact ⟨rfl, rfl, rfl⟩
    obtain ⟨hb, hsch, hdis⟩ := hcons
    simp only at hs
    split at hs
    all_goals
      rename_i heq
      rw [heq] at hb hsch hdis
      cases hs
      exact h.same ⟨rfl, hb, hsch, hdis, rfl, rfl, rfl, fun _ _ _ => Iff.rfl⟩

/-- SOURCE: threads/synchcons.cc:19-35, 71-87, machine/console.cc:113-150 — for any number of
threads inside `SynchConsole::Write` (and `Read`), with any buffers and any interleaving with
the console interrupts, the display has at every moment received the complete buffers of the
finished `Write`s followed by a prefix of the buffer of at most one unfinished one, and the
assertion `putBusy == FALSE` of `PutChar` has not failed. -/
theorem display_receives_whole_buffers (es : List ConsoleEvent) :
    Always ConsoleState.step DisplayGood ConsoleState.init es := by
  have hinit : OutputInv ConsoleState.init := by
    refine ⟨rfl, .free rfl ⟨rfl, rfl, rfl⟩ (fun u d hd => ?_) rfl⟩
    cases hd
  have hmeets : Meets ConsoleState.step (fun _ _ => True) ConsoleState.init es :=
    meets_of_forall (fun _ _ _ => trivial) _
  exact always_of_meets (fun s h => h.good) (fun s e s' h _ hs => h.step hs) hinit hmeets

end Nachos.Analysis
