import Nachos.Analysis.ListSequence
import Nachos.Library.Agenda
import Nachos.Library.Commands
import Nachos.Model.Interrupt

/-!
# Interrupts fire in the order of their times

The interrupts of a run are an agenda (`Nachos.Library.Ordered`): the list `pending` has those that
wait, `fired` those whose handlers were called. `CheckIfDue` takes the first one off the list and
either puts it back, which may change the order among interrupts for one time, or calls its handler. A
handler that is called at `totalTicks` schedules for later than that, so it does not add to what is due, and the
loops around `CheckIfDue` end.

Idle time is the exception to nothing being left over: in `IdleMode` the timer is put back
although it is due, if it is the only interrupt there is. `OneTick` is not called in `IdleMode`.
-/

set_option autoImplicit false

namespace Nachos.Analysis

open Nachos.Library Nachos.Model

/-! ## The list of pending interrupts -/

def keyed (p : PendingInterrupt) : PendingInterrupt × ℤ := (p, p.when)

/-- The list `pending` has the interrupts `ws`, each with its time as the key. -/
def Waits (s : Interrupt) (ws : List PendingInterrupt) : Prop :=
  ∃ chain, Linked s.heap s.pending chain (ws.map keyed)

def InTimeOrder (ws : List PendingInterrupt) : Prop := ws.Pairwise fun a b => a.when ≤ b.when

variable {A : Allocator} {H : Handlers} {s s' : Interrupt} {ws ws' : List PendingInterrupt}
  {p : PendingInterrupt} {E : InterruptStop → Interrupt → Prop}

theorem insertByKey_keyed (p : PendingInterrupt) (hsorted : InTimeOrder ws) :
    ∃ ws', insertByKey p p.when (ws.map keyed) = ws'.map keyed ∧ ws'.Perm (p :: ws) ∧
      InTimeOrder ws' := by
  have hmap := List.map_orderedInsert (fun a b : PendingInterrupt => a.when < b.when)
    (fun a b : PendingInterrupt × ℤ => a.2 < b.2) keyed ws p (fun _ _ => Iff.rfl) (fun _ _ => Iff.rfl)
  refine ⟨ws.orderedInsert (fun a b => a.when < b.when) p, hmap.symm,
    List.perm_orderedInsert _ p ws, ?_⟩
  have hold : (ws.map keyed).Pairwise fun a b => a.2 ≤ b.2 := by
    rw [List.pairwise_map]
    exact hsorted
  have hnew := insertByKey_sorted p p.when hold
  rw [insertByKey, ← keyed, ← hmap, List.pairwise_map] at hnew
  exact hnew

theorem sortedInsert_ends (hwaits : Waits s ws) (hsorted : InTimeOrder ws) (p : PendingInterrupt) :
    Ends (Interrupt.sortedInsert A p p.when) s (fun _ s' => ∃ l h ws',
      s' = { s with pending := l, heap := h } ∧ Waits s' ws' ∧ ws'.Perm (p :: ws) ∧
        InTimeOrder ws') E := by
  obtain ⟨chain, hl⟩ := hwaits
  obtain ⟨l, h, hinsert, chain', hl', -⟩ := sortedInsert_spec A hl p p.when
  obtain ⟨ws', hview, hperm, hsorted'⟩ := insertByKey_keyed p hsorted
  rw [hview] at hl'
  refine ends_get_bind ?_
  rw [hinsert]
  exact ends_set ⟨l, h, ws', rfl, ⟨chain', hl'⟩, hperm, hsorted'⟩

theorem sortedRemove_ends (hwaits : Waits s ws) :
    Ends Interrupt.sortedRemove s (fun r s' => ∃ l h, s' = { s with pending := l, heap := h } ∧
      r = ws.head?.map keyed ∧ Waits s' ws.tail) E := by
  obtain ⟨chain, hl⟩ := hwaits
  obtain ⟨l, h, hremove, chain', hl', -⟩ := sortedRemove_spec hl
  rw [List.head?_map] at hremove
  rw [← List.map_tail] at hl'
  refine ends_get_bind ?_
  rw [hremove]
  exact ends_set_bind (ends_pure ⟨l, h, rfl, rfl, chain', hl'⟩)

/-! ## Sums and assertions -/

theorem plus_ends (stop : InterruptStop) (a b : ℤ) :
    Ends (Interrupt.plus stop a b) s
      (fun c s' => c = a + b ∧ s' = s ∧ a + b ≤ 2147483647) (fun e _ => e = stop) := by
  unfold Interrupt.plus
  split
  · rename_i hrange
    exact ends_pure ⟨rfl, rfl, hrange.2⟩
  · exact ends_throw rfl

theorem plus_ok {stop : InterruptStop} {a b : ℤ} (ha : 0 ≤ a) (hb : 0 ≤ b)
    (hsum : a + b ≤ 2147483647) :
    Ends (Interrupt.plus stop a b) s (fun c s' => c = a + b ∧ s' = s) E := by
  rw [Interrupt.plus, if_pos ⟨by omega, hsum⟩]
  exact ends_pure ⟨rfl, rfl⟩

theorem assert_ok {condition : Bool} (h : condition = true) :
    Ends (Interrupt.assert condition) s (fun _ s' => s' = s) E := by
  rw [Interrupt.assert, if_pos h]
  exact ends_pure rfl

/-! ## The invariant -/

/-- The times add up. -/
structure AddUp (stats : Statistics) : Prop where
  idle : 0 ≤ stats.idleTicks
  system : 0 ≤ stats.systemTicks
  user : 0 ≤ stats.userTicks
  total : stats.totalTicks = stats.idleTicks + stats.systemTicks + stats.userTicks

section Times

variable {stats : Statistics} (h : AddUp stats)

include h

theorem AddUp.idle_le : stats.idleTicks ≤ stats.totalTicks := by
  obtain ⟨-, hsystem, huser, htotal⟩ := h
  omega

theorem AddUp.wait {when : ℤ} (hlate : stats.totalTicks < when) :
    AddUp { stats with
      idleTicks := stats.idleTicks + (when - stats.totalTicks)
      totalTicks := when } := by
  obtain ⟨hidle, hsystem, huser, htotal⟩ := h
  refine ⟨?_, hsystem, huser, ?_⟩
  · change 0 ≤ stats.idleTicks + (when - stats.totalTicks)
    omega
  · change when = stats.idleTicks + (when - stats.totalTicks) + stats.systemTicks + stats.userTicks
    omega

theorem AddUp.tickSystem {n : ℤ} (hn : 0 ≤ n) :
    AddUp { stats with
      totalTicks := stats.totalTicks + n
      systemTicks := stats.systemTicks + n } := by
  obtain ⟨hidle, hsystem, huser, htotal⟩ := h
  refine ⟨hidle, Int.add_nonneg hsystem hn, huser, ?_⟩
  change stats.totalTicks + n = stats.idleTicks + (stats.systemTicks + n) + stats.userTicks
  omega

theorem AddUp.tickUser {n : ℤ} (hn : 0 ≤ n) :
    AddUp { stats with
      totalTicks := stats.totalTicks + n
      userTicks := stats.userTicks + n } := by
  obtain ⟨hidle, hsystem, huser, htotal⟩ := h
  refine ⟨hidle, hsystem, Int.add_nonneg huser hn, ?_⟩
  change stats.totalTicks + n = stats.idleTicks + stats.systemTicks + (stats.userTicks + n)
  omega

end Times

/-- The interrupts of the run are an agenda, with those of `ws` waiting. -/
structure OnAgenda (s : Interrupt) (ws : List PendingInterrupt) : Prop where
  waits : Waits s ws
  ordered : Ordered PendingInterrupt.when PendingInterrupt.serial s.stats.totalTicks ws s.fired
    s.scheduled
  addUp : AddUp s.stats
  fits : ∀ p ∈ ws, p.when ≤ 2147483647

/-- Scheduling changes neither the time nor the modes nor what is due. -/
structure Calm (s : Interrupt) (ws : List PendingInterrupt) (s' : Interrupt)
    (ws' : List PendingInterrupt) : Prop where
  agenda : OnAgenda s' ws'
  stats : s'.stats = s.stats
  level : s'.level = s.level
  inHandler : s'.inHandler = s.inHandler
  status : s'.status = s.status
  due : due PendingInterrupt.when s.stats.totalTicks ws' = due PendingInterrupt.when s.stats.totalTicks ws

theorem Calm.refl (h : OnAgenda s ws) : Calm s ws s ws := ⟨h, rfl, rfl, rfl, rfl, rfl⟩

theorem Calm.trans {s'' : Interrupt} {ws'' : List PendingInterrupt} (h : Calm s ws s' ws')
    (h' : Calm s' ws' s'' ws'') : Calm s ws s'' ws'' where
  agenda := h'.agenda
  stats := h'.stats.trans h.stats
  level := h'.level.trans h.level
  inHandler := h'.inHandler.trans h.inHandler
  status := h'.status.trans h.status
  due := by rw [← h.due, ← h.stats, h'.due]

/-! ## Handlers -/

/-- INTERNAL: `Schedule`, for a time to come. -/
theorem schedule_ends (hagenda : OnAgenda s ws) (handler : ℕ) (arg : ℤ) {fromNow : ℤ}
    (hfuture : 0 < fromNow) (type : IntType) :
    Ends (Interrupt.schedule A handler arg fromNow type) s
      (fun _ s' => ∃ ws', Calm s ws s' ws') (fun e _ => e = .clock) := by
  refine ends_get_bind ((plus_ends .clock _ _).bind ?_)
  rintro when s₁ ⟨rfl, rfl, hfits⟩
  obtain ⟨p, hp⟩ : ∃ p : PendingInterrupt,
      p = ⟨handler, arg, s₁.stats.totalTicks + fromNow, type, s₁.scheduled⟩ := ⟨_, rfl⟩
  have hwhen : s₁.stats.totalTicks + fromNow = p.when := by rw [hp]
  refine (assert_ok (by simpa using hfuture)).bind ?_
  rintro - s₂ rfl
  rw [← hp, hwhen]
  refine (sortedInsert_ends hagenda.waits hagenda.ordered.sorted p).bind ?_
  rintro - s₃ ⟨l, h, ws', rfl, hwaits, hperm, hsorted⟩
  refine ends_modify ⟨ws', ⟨hwaits, ?_, hagenda.addUp, fun q hq => ?_⟩, rfl, rfl, rfl, rfl, ?_⟩
  · exact hagenda.ordered.post hsorted hperm (by omega) (by rw [hp])
  · rcases List.mem_cons.mp (hperm.mem_iff.mp hq) with rfl | hq
    · omega
    · exact hagenda.fits q hq
  · rw [due_perm hperm, due_cons_of_lt (by omega)]

/-- Every interrupt is scheduled for a time to come. -/
def Later : HandlerAction → Prop
  | .schedule _ _ fromNow _ => 0 < fromNow
  | _ => True

theorem switchLevel_ends (hoff : s.level = .intOff) :
    Ends (Interrupt.switchLevel .intOff) s (fun old s' => old = .intOff ∧ s' = s) E := by
  refine ends_get_bind ((assert_ok rfl).bind ?_)
  rintro - s₁ rfl
  refine ends_modify_bind (ends_pure ⟨hoff, ?_⟩)
  rw [← hoff]

theorem act_ends (hagenda : OnAgenda s ws) (hoff : s.level = .intOff) (hin : s.inHandler = true)
    {a : HandlerAction} (ha : Later a) :
    Ends (Interrupt.act A a) s (fun _ s' => ∃ ws', Calm s ws s' ws') (fun e _ => e = .clock) := by
  cases a with
  | schedule handler arg fromNow type => exact schedule_ends hagenda handler arg ha type
  | yieldOnReturn =>
    refine ends_get_bind ((assert_ok hin).bind ?_)
    rintro - s₁ rfl
    exact ends_set ⟨ws, ⟨hagenda.waits, hagenda.ordered, hagenda.addUp, hagenda.fits⟩, rfl, rfl, rfl,
      rfl, rfl⟩
  | v =>
    refine (switchLevel_ends hoff).bind ?_
    rintro old s₁ ⟨rfl, rfl⟩
    refine (switchLevel_ends hoff).bind ?_
    rintro old s₂ ⟨rfl, rfl⟩
    exact ends_pure ⟨ws, Calm.refl hagenda⟩

theorem handler_ends (hagenda : OnAgenda s ws) (hoff : s.level = .intOff) (hin : s.inHandler = true)
    {acts : List HandlerAction} (hacts : ∀ a ∈ acts, Later a) :
    Ends (acts.forM (Interrupt.act A)) s (fun _ s' => ∃ ws', Calm s ws s' ws')
      (fun e _ => e = .clock) := by
  refine Ends.forM (I := fun s' => ∃ ws', Calm s ws s' ws') ⟨ws, Calm.refl hagenda⟩ ?_
  rintro a ha s₁ ⟨ws₁, hcalm⟩
  have hact := act_ends (A := A) hcalm.agenda (hcalm.level.trans hoff) (hcalm.inHandler.trans hin)
    (hacts a ha)
  exact hact.imp_ok fun _ s₂ ⟨ws₂, hcalm₂⟩ => ⟨ws₂, hcalm.trans hcalm₂⟩

/-! ## `CheckIfDue` -/

/-- Outside of handlers, with the interrupts off, in the mode `status`. -/
structure Quiet (s : Interrupt) (ws : List PendingInterrupt) (status : MachineStatus) : Prop where
  agenda : OnAgenda s ws
  level : s.level = .intOff
  inHandler : s.inHandler = false
  status : s.status = status

/-- INTERNAL: the first interrupt, whose time has come, is off the list. The timer is put back if it is the only
one in `IdleMode`; otherwise the handler is called. -/
theorem invoke_ends (hH : ∀ n p, ∀ a ∈ H n p, Later a) (hwaits : Waits s ws)
    (hordered : Ordered PendingInterrupt.when PendingInterrupt.serial s.stats.totalTicks (p :: ws)
      s.fired s.scheduled)
    (haddUp : AddUp s.stats) (hfits : ∀ q ∈ p :: ws, q.when ≤ 2147483647)
    (hoff : s.level = .intOff) (hin : s.inHandler = false) {old : MachineStatus}
    (hstatus : s.status = old) (hdue : p.when ≤ s.stats.totalTicks) :
    Ends (Interrupt.invoke A H old p p.when) s
      (fun again s' => ∃ ws', Quiet s' ws' old ∧ s'.stats = s.stats ∧
        (again = true → due PendingInterrupt.when s.stats.totalTicks ws' =
          due PendingInterrupt.when s.stats.totalTicks ws) ∧
        (again = false → old = .idleMode))
      (fun e _ => e = .clock) := by
  refine ends_get_bind ?_
  split
  · rename_i hidle
    refine (sortedInsert_ends hwaits (List.pairwise_cons.mp hordered.sorted).2 p).bind ?_
    rintro - s₁ ⟨l, h, ws', rfl, hwaits', hperm, hsorted⟩
    refine ends_pure ⟨ws', ⟨⟨hwaits', hordered.reorder hsorted hperm, haddUp, fun q hq => ?_⟩, hoff,
      hin, hstatus⟩, rfl, by simp, fun _ => hstatus.symm.trans hidle.1⟩
    exact hfits q (hperm.mem_iff.mp hq)
  · have hagenda : OnAgenda { s with
        inHandler := true
        status := .systemMode
        fired := s.fired ++ [(p, s.stats.totalTicks)] } ws :=
      ⟨hwaits, hordered.carryOut hdue, haddUp, fun q hq => hfits q (List.mem_cons_of_mem p hq)⟩
    refine ends_set_bind ((handler_ends hagenda hoff rfl (hH _ p)).bind ?_)
    rintro - s₁ ⟨ws', hcalm⟩
    have hagenda' := hcalm.agenda
    refine ends_modify_bind (ends_pure ⟨ws', ⟨⟨hagenda'.waits, hagenda'.ordered, hagenda'.addUp,
      hagenda'.fits⟩, hcalm.level.trans hoff, rfl, rfl⟩, hcalm.stats, fun _ => hcalm.due, by simp⟩)

/-- INTERNAL: `CheckIfDue`. Without `advanceClock` it leaves the time as it is; each handler it calls makes what is
due less, and when it calls none, nothing is due except in `IdleMode`. -/
theorem checkIfDue_ends (hH : ∀ n p, ∀ a ∈ H n p, Later a) {status : MachineStatus}
    (hquiet : Quiet s ws status) (advanceClock : Bool) :
    Ends (Interrupt.checkIfDue A H advanceClock) s
      (fun again s' => ∃ ws', Quiet s' ws' status ∧ (advanceClock = false →
        s'.stats = s.stats ∧
        (again = true → due PendingInterrupt.when s.stats.totalTicks ws' <
          due PendingInterrupt.when s.stats.totalTicks ws) ∧
        (again = false → status = .idleMode ∨ ∀ p ∈ ws', s.stats.totalTicks < p.when)))
      (fun e _ => e = .clock) := by
  obtain ⟨hagenda, hoff, hin, rfl⟩ := hquiet
  refine ends_get_bind ((assert_ok (by simp [hoff])).bind ?_)
  rintro - s rfl
  refine (sortedRemove_ends hagenda.waits).bind ?_
  rintro r s₁ ⟨l, h, rfl, rfl, hwaits⟩
  cases ws with
  | nil =>
    exact ends_pure ⟨[], ⟨⟨hwaits, hagenda.ordered, hagenda.addUp, hagenda.fits⟩, hoff, hin, rfl⟩,
      fun _ => ⟨rfl, by simp, by simp⟩⟩
  | cons p ws =>
    have hrest : InTimeOrder ws := (List.pairwise_cons.mp hagenda.ordered.sorted).2
    refine ends_get_bind ?_
    split
    · -- the clock is moved to the time of the interrupt
      rename_i hadvance
      have hlate : s.stats.totalTicks < p.when := hadvance.2
      have hfits : p.when ≤ 2147483647 := hagenda.fits p List.mem_cons_self
      have hidle := hagenda.addUp.idle
      have hsum := hagenda.addUp.idle_le
      refine (plus_ok hidle (b := p.when - s.stats.totalTicks) (by omega) (by omega)).bind ?_
      rintro idleTicks s₂ ⟨rfl, rfl⟩
      have hinvoke := invoke_ends (A := A) (s := { s with
          pending := l
          heap := h
          stats := { s.stats with
            idleTicks := s.stats.idleTicks + (p.when - s.stats.totalTicks)
            totalTicks := p.when } })
        hH hwaits (hagenda.ordered.advance (le_of_lt hlate)) (hagenda.addUp.wait hlate) hagenda.fits hoff
        hin rfl le_rfl
      refine ends_modify_bind (hinvoke.imp_ok ?_)
      rintro again s₃ ⟨ws', hquiet, -, -, -⟩
      exact ⟨ws', hquiet, fun hno => absurd hadvance.1 (by simp [hno])⟩
    · split
      · -- not time yet, put it back
        rename_i hnot hlate
        refine (sortedInsert_ends hwaits hrest p).bind ?_
        rintro - s₁ ⟨l, h, ws', rfl, hwaits', hperm, hsorted⟩
        have hfits : ∀ q ∈ ws', q.when ≤ 2147483647 := fun q hq => hagenda.fits q (hperm.mem_iff.mp hq)
        refine ends_pure ⟨ws', ⟨⟨hwaits', hagenda.ordered.reorder hsorted hperm, hagenda.addUp, hfits⟩,
          hoff, hin, rfl⟩, fun _ => ⟨rfl, by simp, fun _ => Or.inr fun q hq => ?_⟩⟩
        exact hagenda.ordered.none_due hlate q (hperm.mem_iff.mp hq)
      · rename_i hnot hdue
        have hdue' : p.when ≤ s.stats.totalTicks := not_lt.mp hdue
        refine (invoke_ends hH hwaits hagenda.ordered hagenda.addUp hagenda.fits hoff hin rfl
          hdue').imp_ok ?_
        rintro again s₂ ⟨ws', hquiet, hstats, hfewer, hnone⟩
        refine ⟨ws', hquiet, fun _ => ⟨hstats, fun hagain => ?_, fun hagain => Or.inl (hnone hagain)⟩⟩
        have hsame := hfewer hagain
        rw [due_cons_of_le hdue']
        exact Nat.lt_succ_of_le (le_of_eq hsame)

/-- INTERNAL: `while (CheckIfDue(FALSE))` comes to an end, and in no mode but `IdleMode` something is left that is due. -/
theorem whileDue_ends (hH : ∀ n p, ∀ a ∈ H n p, Later a) {status : MachineStatus} {n : ℕ}
    (hquiet : Quiet s ws status) (hn : due PendingInterrupt.when s.stats.totalTicks ws < n) :
    Ends (Interrupt.whileDue A H n) s
      (fun _ s' => ∃ ws', Quiet s' ws' status ∧ s'.stats = s.stats ∧
        (status = .idleMode ∨ ∀ p ∈ ws', s.stats.totalTicks < p.when))
      (fun e _ => e = .clock) := by
  induction n generalizing s ws with
  | zero => exact absurd hn (Nat.not_lt_zero _)
  | succ n ih =>
    refine (checkIfDue_ends hH hquiet false).bind ?_
    rintro again s₁ ⟨ws₁, hquiet₁, hcheck⟩
    obtain ⟨hstats, hfewer, hnone⟩ := hcheck rfl
    cases again with
    | true =>
      have hlt : due PendingInterrupt.when s₁.stats.totalTicks ws₁ < n := by
        rw [hstats]
        exact (hfewer rfl).trans_le (Nat.le_of_lt_succ hn)
      refine (ih hquiet₁ hlt).imp_ok ?_
      rintro - s₂ ⟨ws₂, hquiet₂, hstats₂, hleft⟩
      rw [hstats] at hstats₂ hleft
      exact ⟨ws₂, hquiet₂, hstats₂, hleft⟩
    | false => exact ends_pure ⟨ws₁, hquiet₁, hstats, hnone rfl⟩

theorem Waits.length_le (h : Waits s ws) : ws.length ≤ s.heap.live.length := by
  obtain ⟨chain, hl⟩ := h
  have hlength : chain.length = ws.length := by
    have hview := congrArg List.length hl.view
    simpa using hview
  rw [← hlength]
  exact hl.length_le

theorem Quiet.due_lt {status : MachineStatus} (h : Quiet s ws status) :
    due PendingInterrupt.when s.stats.totalTicks ws < s.heap.live.length + 1 :=
  Nat.lt_succ_of_le (due_le_length.trans h.agenda.waits.length_le)

/-! ## Calls -/

/-- Between two calls. -/
def Resting (s : Interrupt) : Prop :=
  ∃ ws, OnAgenda s ws ∧ s.inHandler = false ∧ s.status ≠ .idleMode

/-- INTERNAL: the clock is advanced. -/
theorem advanceTime_ends (hagenda : OnAgenda s ws) :
    Ends Interrupt.advanceTime s
      (fun _ s' => OnAgenda s' ws ∧ s'.inHandler = s.inHandler ∧ s'.status = s.status)
      (fun e _ => e = .clock) := by
  obtain ⟨hidle, hsystem, huser, htotal⟩ := hagenda.addUp
  refine ends_get_bind ?_
  split
  · refine (plus_ends .clock _ _).bind ?_
    rintro totalTicks s ⟨rfl, rfl, hfits⟩
    have htick : 0 ≤ systemTick := by decide
    refine (plus_ok hsystem htick (by omega)).bind ?_
    rintro systemTicks s ⟨rfl, rfl⟩
    refine ends_set ⟨⟨hagenda.waits, hagenda.ordered.advance ?_, hagenda.addUp.tickSystem htick,
      hagenda.fits⟩, rfl, rfl⟩
    exact Int.le_add_of_nonneg_right htick
  · refine (plus_ends .clock _ _).bind ?_
    rintro totalTicks s ⟨rfl, rfl, hfits⟩
    have htick : 0 ≤ userTick := by decide
    refine (plus_ok huser htick (by omega)).bind ?_
    rintro userTicks s ⟨rfl, rfl⟩
    refine ends_set ⟨⟨hagenda.waits, hagenda.ordered.advance ?_, hagenda.addUp.tickUser htick,
      hagenda.fits⟩, rfl, rfl⟩
    exact Int.le_add_of_nonneg_right htick

/-- INTERNAL: `OneTick` leaves nothing that is due. -/
theorem oneTick_ends (hH : ∀ n p, ∀ a ∈ H n p, Later a) (hrest : Resting s) :
    Ends (Interrupt.oneTick A H) s
      (fun _ s' => Resting s' ∧ ∃ ws, OnAgenda s' ws ∧ ∀ p ∈ ws, s'.stats.totalTicks < p.when)
      (fun e _ => e = .clock) := by
  obtain ⟨ws, hagenda, hin, hstatus⟩ := hrest
  refine (advanceTime_ends hagenda).bind ?_
  rintro - s₁ ⟨hagenda₁, hin₁, hstatus₁⟩
  have hquiet : Quiet { s₁ with level := .intOff } ws s.status :=
    ⟨⟨hagenda₁.waits, hagenda₁.ordered, hagenda₁.addUp, hagenda₁.fits⟩, rfl, hin₁.trans hin, hstatus₁⟩
  refine ends_modify_bind (ends_get_bind ((whileDue_ends hH hquiet hquiet.due_lt).bind ?_))
  rintro - s₂ ⟨ws', ⟨hagenda₂, hlevel₂, hin₂, hstatus₂⟩, hstats, hleft⟩
  have hnone : ∀ p ∈ ws', s₂.stats.totalTicks < p.when := by
    rw [hstats]
    exact hleft.resolve_left hstatus
  refine ends_modify_bind (ends_get_bind ?_)
  split
  · have hagenda₃ : OnAgenda { s₂ with
        level := .intOn
        yieldOnReturn := false
        status := .systemMode } ws' :=
      ⟨hagenda₂.waits, hagenda₂.ordered, hagenda₂.addUp, hagenda₂.fits⟩
    exact ends_set ⟨⟨ws', hagenda₃, hin₂, by simp⟩, ws', hagenda₃, hnone⟩
  · have hagenda₃ : OnAgenda { s₂ with level := .intOn } ws' :=
      ⟨hagenda₂.waits, hagenda₂.ordered, hagenda₂.addUp, hagenda₂.fits⟩
    exact ends_pure ⟨⟨ws', hagenda₃, hin₂, fun he => hstatus (hstatus₂.symm.trans he)⟩, ws', hagenda₃,
      hnone⟩

/-- The clock is at its end, there is nothing to wait for, or `Idle` was called with interrupts on. -/
def MayStop (e : InterruptStop) (s : Interrupt) : Prop :=
  e = .clock ∨ e = .halt ∨ e = .assertion ∧ s.status = .idleMode ∧ s.level = .intOn

/-- INTERNAL: `Idle` waits for the next interrupt or halts. -/
theorem idle_ends (hH : ∀ n p, ∀ a ∈ H n p, Later a) (hrest : Resting s) :
    Ends (Interrupt.idle A H) s (fun _ s' => Resting s') MayStop := by
  obtain ⟨ws, hagenda, hin, hstatus⟩ := hrest
  have hclock : ∀ (e : InterruptStop) (s' : Interrupt), e = .clock → MayStop e s' :=
    fun _ _ he => Or.inl he
  refine ends_modify_bind ?_
  obtain hlevel | hlevel : s.level = .intOn ∨ s.level = .intOff := by
    cases s.level <;> simp
  · -- the assertion of `CheckIfDue`
    refine Ends.bind (Q := fun _ _ => False) ?_ fun _ _ hno => hno.elim
    refine ends_get_bind (Ends.bind (Q := fun _ _ => False) ?_ fun _ _ hno => hno.elim)
    rw [Interrupt.assert, if_neg (by simp [hlevel])]
    exact ends_throw (Or.inr (Or.inr ⟨rfl, rfl, hlevel⟩))
  · have hquiet : Quiet { s with status := .idleMode } ws .idleMode :=
      ⟨⟨hagenda.waits, hagenda.ordered, hagenda.addUp, hagenda.fits⟩, hlevel, hin, rfl⟩
    refine ((checkIfDue_ends hH hquiet true).imp_error hclock).bind ?_
    rintro found s₁ ⟨ws₁, hquiet₁, -⟩
    cases found with
    | true =>
      refine ends_get_bind (((whileDue_ends hH hquiet₁ hquiet₁.due_lt).imp_error hclock).bind ?_)
      rintro - s₂ ⟨ws₂, ⟨hagenda₂, hlevel₂, hin₂, hstatus₂⟩, -, -⟩
      exact ends_modify ⟨ws₂, ⟨hagenda₂.waits, hagenda₂.ordered, hagenda₂.addUp, hagenda₂.fits⟩, hin₂,
        by simp⟩
    | false => exact ends_throw (Or.inr (Or.inl rfl))

theorem setLevel_ends (hH : ∀ n p, ∀ a ∈ H n p, Later a) (hrest : Resting s) (now : IntStatus) :
    Ends (Interrupt.setLevel A H now) s (fun _ s' => Resting s') (fun e _ => e = .clock) := by
  obtain ⟨ws, hagenda, hin, hstatus⟩ := hrest
  have hrest' : Resting { s with level := now } :=
    ⟨ws, ⟨hagenda.waits, hagenda.ordered, hagenda.addUp, hagenda.fits⟩, hin, hstatus⟩
  have hswitch : Ends (Interrupt.switchLevel now) s
      (fun _ s' => s' = { s with level := now }) (fun e _ => e = .clock) := by
    refine ends_get_bind ((assert_ok (by simp [hin])).bind ?_)
    rintro - s rfl
    exact ends_modify_bind (ends_pure rfl)
  refine hswitch.bind ?_
  rintro old s₁ rfl
  split
  · exact (oneTick_ends hH hrest').imp_ok fun _ _ h => h.1
  · exact ends_pure hrest'

/-- Interrupts are scheduled for a time to come, and `IdleMode` is left to `Idle`. -/
def ForLater : InterruptCall → Prop
  | .schedule _ _ fromNow _ => 0 < fromNow
  | .setStatus status => status ≠ .idleMode
  | _ => True

theorem call_ends (hH : ∀ n p, ∀ a ∈ H n p, Later a) (hrest : Resting s) {c : InterruptCall}
    (hc : ForLater c) :
    Ends (Interrupt.call A H c) s (fun _ s' => Resting s') MayStop := by
  have hclock : ∀ (e : InterruptStop) (s' : Interrupt), e = .clock → MayStop e s' :=
    fun _ _ he => Or.inl he
  cases c with
  | schedule handler arg fromNow type =>
    obtain ⟨ws, hagenda, hin, hstatus⟩ := hrest
    refine (schedule_ends hagenda handler arg hc type).imp ?_ hclock
    rintro - s₁ ⟨ws', hcalm⟩
    exact ⟨ws', hcalm.agenda, hcalm.inHandler.trans hin, fun he => hstatus (hcalm.status.symm.trans he)⟩
  | oneTick => exact (oneTick_ends hH hrest).imp (fun _ _ h => h.1) hclock
  | idle => exact idle_ends hH hrest
  | setLevel now => exact (setLevel_ends hH hrest now).imp_error hclock
  | setStatus status =>
    obtain ⟨ws, hagenda, hin, -⟩ := hrest
    exact ends_modify ⟨ws, ⟨hagenda.waits, hagenda.ordered, hagenda.addUp, hagenda.fits⟩, hin, hc⟩

theorem resting_new (heap : ListHeap PendingInterrupt) : Resting (Interrupt.new heap) := by
  refine ⟨[], ⟨⟨[], linked_new heap⟩, ⟨List.Pairwise.nil, List.Pairwise.nil, ?_, ?_, ?_⟩,
    ⟨le_rfl, le_rfl, le_rfl, rfl⟩, by simp⟩, rfl, by simp [Interrupt.new]⟩
  · simp [Interrupt.new]
  · simp [Interrupt.new]
  · simp [Interrupt.new]

/-- SOURCE: machine/interrupt.cc:150-336 — any sequence of calls, with handlers that schedule interrupts
for a time to come, ask for a yield and do `V`s. While the clock does not overflow the pending
list is sorted by time, every interrupt that was scheduled is pending or has fired once, none fired
before its time, and they fired in the order of their times. The loop in `OneTick` ends, and what is then
pending is for later. -/
theorem interrupts_fire_in_order (A : Allocator) (H : Handlers) (hH : ∀ n p, ∀ a ∈ H n p, Later a)
    (heap : ListHeap PendingInterrupt) (cs : List InterruptCall) (hcs : ∀ c ∈ cs, ForLater c) :
    Ends (cs.forM (Interrupt.call A H)) (Interrupt.new heap)
      (fun _ s =>
        (∃ ws, Waits s ws ∧ Ordered PendingInterrupt.when PendingInterrupt.serial s.stats.totalTicks
          ws s.fired s.scheduled) ∧
        Ends (Interrupt.oneTick A H) s
          (fun _ s' => ∃ ws, Waits s' ws ∧
            Ordered PendingInterrupt.when PendingInterrupt.serial s'.stats.totalTicks ws s'.fired
              s'.scheduled ∧
            ∀ p ∈ ws, s'.stats.totalTicks < p.when)
          (fun e _ => e = .clock))
      MayStop := by
  have hrun := Ends.forM (resting_new heap) fun c hc s hrest =>
    call_ends (A := A) hH hrest (hcs c hc)
  refine hrun.imp_ok ?_
  rintro - s hrest
  refine ⟨?_, (oneTick_ends hH hrest).imp_ok ?_⟩
  · obtain ⟨ws, hagenda, -, -⟩ := hrest
    exact ⟨ws, hagenda.waits, hagenda.ordered⟩
  · rintro - s' ⟨-, ws, hagenda, hnone⟩
    exact ⟨ws, hagenda.waits, hagenda.ordered, hnone⟩

/-- The address behind all that are in use. -/
def nextAddress : Allocator where
  pick _ live := live.foldr max 0 + 1
  fresh := by
    intro _ live hmem
    have hle : ∀ l : List Addr, ∀ a ∈ l, a ≤ l.foldr max 0 := by
      intro l
      induction l with
      | nil => simp
      | cons b l ih =>
        intro a ha
        rcases List.mem_cons.mp ha with rfl | ha
        · exact le_max_left _ _
        · exact (ih a ha).trans (le_max_right _ _)
    exact absurd (hle live _ hmem) (Nat.not_succ_le_self _)

/-- A timer that schedules itself again and asks for a yield, and a disk that does a `V`. -/
def timerAndDisk : Handlers := fun _ p =>
  if p.type = .timerInt then [.schedule 0 p.arg 100 .timerInt, .yieldOnReturn] else [.v]

theorem timerAndDisk_later (n : ℕ) (p : PendingInterrupt) : ∀ a ∈ timerAndDisk n p, Later a := by
  unfold timerAndDisk
  split
  · simp [Later]
  · simp [Later]

/-- Two interrupts, ticks, and then nothing to run until the timer. -/
def timerAndDiskCalls : List InterruptCall :=
  [.schedule 0 0 100 .timerInt, .schedule 1 0 15 .diskInt, .setLevel .intOn, .oneTick,
    .setLevel .intOff, .schedule 1 0 500 .diskInt, .idle]

/-- The serials of what has fired, with the times, if the run has returned. -/
def firedIn : EStateM.Result InterruptStop Interrupt Unit → Option (List (ℕ × ℤ))
  | .ok _ s => some (s.fired.map fun d => (d.1.serial, d.2))
  | .error _ _ => none

def noElements : ListHeap PendingInterrupt := ⟨[], fun _ => ⟨none, 0, ⟨0, 0, 0, .diskInt, 0⟩⟩, 0⟩

theorem interrupts_fire_in_order_timerAndDisk :
    firedIn (timerAndDiskCalls.forM (Interrupt.call nextAddress timerAndDisk)
      (Interrupt.new noElements)) = some [(1, 20), (0, 100)] ∧
    Ends (timerAndDiskCalls.forM (Interrupt.call nextAddress timerAndDisk)) (Interrupt.new noElements)
      (fun _ s => ∃ ws, Waits s ws ∧
        Ordered PendingInterrupt.when PendingInterrupt.serial s.stats.totalTicks ws s.fired s.scheduled)
      MayStop :=
  ⟨by decide +kernel,
    (interrupts_fire_in_order nextAddress timerAndDisk timerAndDisk_later noElements
      timerAndDiskCalls (by simp [timerAndDiskCalls, ForLater])).imp_ok fun _ _ h => h.1⟩

end Nachos.Analysis
