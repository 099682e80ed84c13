import Nachos.Library.Exclusion
import Nachos.Analysis.ConsoleOutput

/-!
# What becomes of the typed bytes

The device has a buffer of one byte and takes the next byte from the keyboard when the buffer is
empty, that is, when it holds `EOF`. `RLineBlock` lets one `Read` at a time take bytes out of the
buffer. So the bytes that have left the device are, in their order, those of the finished `Read`s
and after them those of the one that holds the line; a `Read` that ends early has swallowed a
newline.

All of this goes through for every byte but one. A typed `0xFF` is the `char` `EOF`: the device
takes its full buffer for an empty one, and the reader takes the byte for no byte. What the
`Read`s return is therefore the typed stream without the bytes `0xFF` (`InputInv`), and it is the
typed stream itself exactly when there is none.
-/

set_option autoImplicit false

namespace Nachos.Analysis

open Nachos.Library Nachos.Model

variable {s s' : ConsoleState} {t : ThreadId} {c : ConsoleCall} {loop : ℕ}

/-- The typed bytes that the device no longer holds. -/
def taken (c : Console) : List Byte := if c.incoming = eof then c.typed else c.typed.dropLast

/-- The first `loop` bytes of a buffer. -/
def got (buffer : Buffer) (loop : ℕ) : List Byte := (List.range loop).map buffer

/-- The bytes of a `Read` that has returned, with the newline if it has returned fewer than it was
asked for. -/
def readBytes (r : ConsoleRead) : List Byte :=
  got r.into r.result.toNat ++ if r.result < r.numBytes then [0x0A#8] else []

/-- The loop counter of a `Read` between `RLineBlock->P()` and `RLineBlock->V()`. -/
def readLoop : ConsolePc → Option ℕ
  | .synchReadAvail loop => some loop
  | .getChar loop => some loop
  | _ => none

/-- The call is a `Read` that holds the line. -/
def reading (c : ConsoleCall) : Bool := (readLoop c.pc).isSome

/-- The call is a `Read`. -/
def isRead (c : ConsoleCall) : Bool :=
  match c.pc with
  | .rLineBlock => true
  | _ => reading c

/-- The `Read`s hold the line one after the other, and the bytes that have left the device are
those of the finished ones and those that the one at the line has so far. -/
structure InputKept (s : ConsoleState) : Prop where
  alone : ∀ t u c d, s.calls t = some c → reading c = true → s.calls u = some d →
    reading d = true → t = u
  bytes : ∃ rest, taken s.console.cons = (s.reads.map readBytes).flatten ++ rest ∧
    ((Nobody reading s.calls ∧ rest = []) ∨
      ∃ t c loop, s.calls t = some c ∧ readLoop c.pc = some loop ∧ rest = got c.buffer loop)

/-- The bytes that have left the device, without those that look like `EOF`. -/
def kept (s : ConsoleState) : List Byte := (taken s.console.cons).filter (· ≠ eof)

/-- The phases of the input side. -/
inductive InputPhase (s : ConsoleState) : Prop
  | free (hv : s.console.rLineBlock.value = 1#32) (hn : Nobody reading s.calls)
      (hs : kept s = (s.reads.map readBytes).flatten)
  | held (t : ThreadId) (c : ConsoleCall) (loop : ℕ) (hv : s.console.rLineBlock.value = 0#32)
      (hl : Only reading s.calls t c) (hpc : readLoop c.pc = some loop)
      (hlt : (loop : ℤ) < c.numBytes)
      (hs : kept s = (s.reads.map readBytes).flatten ++ got c.buffer loop)

/-- What holds in every state: the phase, the last typed byte is the one in the buffer, nobody
asks for nothing, and Ctrl-A has not been typed. -/
structure InputInv (s : ConsoleState) : Prop where
  phase : InputPhase s
  buffered : s.console.cons.incoming ≠ eof →
    ∃ before, s.console.cons.typed = before ++ [s.console.cons.incoming]
  positive : ∀ t c, s.calls t = some c → isRead c = true → 0 < c.numBytes
  plain : 0x01#8 ∉ s.console.cons.typed

theorem isRead_of_reading (h : reading c = true) : isRead c = true := by
  unfold isRead
  split
  · rfl
  · exact h

theorem got_succ (buffer : Buffer) (loop : ℕ) :
    got buffer (loop + 1) = got buffer loop ++ [buffer loop] := by
  simp [got, List.range_succ]

theorem got_update (buffer : Buffer) (ch : Byte) (loop : ℕ) :
    got (Function.update buffer loop ch) loop = got buffer loop := by
  refine List.map_congr_left fun k hk => ?_
  exact Function.update_of_ne (Nat.ne_of_lt (List.mem_range.mp hk)) _ _

/-! ## What leaves the input alone -/

/-- The two states differ in nothing the input side depends on. -/
structure SameInput (s s' : ConsoleState) : Prop where
  incoming : s'.console.cons.incoming = s.console.cons.incoming
  typed : s'.console.cons.typed = s.console.cons.typed
  line : s'.console.rLineBlock.value = s.console.rLineBlock.value
  reads : s'.reads = s.reads
  readers : ∀ u d, isRead d = true → (s'.calls u = some d ↔ s.calls u = some d)

theorem kept_congr (hincoming : s'.console.cons.incoming = s.console.cons.incoming)
    (htyped : s'.console.cons.typed = s.console.cons.typed) : kept s' = kept s := by
  unfold kept taken
  rw [hincoming, htyped]

theorem InputPhase.same (h : InputPhase s) (hkept : kept s' = kept s)
    (hline : s'.console.rLineBlock.value = s.console.rLineBlock.value) (hreads : s'.reads = s.reads)
    (hreaders : ∀ u d, reading d = true → (s'.calls u = some d ↔ s.calls u = some d)) :
    InputPhase s' := by
  cases h with
  | free hv hn hs => exact .free (hline.trans hv) (hn.congr hreaders) (by rw [hkept, hreads, hs])
  | held t c loop hv hl hpc hlt hs =>
    exact .held t c loop (hline.trans hv) (hl.congr hreaders) hpc hlt (by rw [hkept, hreads, hs])

theorem InputInv.same (h : InputInv s) (hs : SameInput s s') : InputInv s' := by
  refine ⟨h.phase.same (kept_congr hs.incoming hs.typed) hs.line hs.reads
    (fun u d hd => hs.readers u d (isRead_of_reading hd)), ?_, ?_, ?_⟩
  · rw [hs.incoming, hs.typed]
    exact h.buffered
  · intro t c hc hread
    exact h.positive t c ((hs.readers t c hread).mp hc) hread
  · rw [hs.typed]
    exact h.plain

theorem sameInput_goto (c : ConsoleCall) {pc : ConsolePc}
    (hbefore : ∀ d, s.calls t = some d → isRead d = false)
    (hpc : isRead { c with pc := pc } = false) : SameInput s (s.goto t c pc) := by
  refine ⟨rfl, rfl, rfl, rfl, update_outside hbefore fun d hd => ?_⟩
  cases hd
  exact hpc

theorem SameInput.trans {s s' s'' : ConsoleState} (h : SameInput s s') (h' : SameInput s' s'') :
    SameInput s s'' where
  incoming := h'.incoming.trans h.incoming
  typed := h'.typed.trans h.typed
  line := h'.line.trans h.line
  reads := h'.reads.trans h.reads
  readers := fun u d hd => (h'.readers u d hd).trans (h.readers u d hd)

theorem sameInput_putNext (c : ConsoleCall) (loop : ℕ)
    (hbefore : ∀ d, s.calls t = some d → isRead d = false) : SameInput s (s.putNext t c loop) := by
  unfold ConsoleState.putNext
  split
  · split
    · exact ⟨rfl, rfl, rfl, rfl, fun _ _ _ => Iff.rfl⟩
    · next cons hput =>
      have hcons : cons.incoming = s.console.cons.incoming ∧
          cons.typed = s.console.cons.typed := by
        simp only [Console.putChar, Option.ite_none_left_eq_some, Option.some.injEq] at hput
        rw [← hput.2]
        exact ⟨rfl, rfl⟩
      have hput : SameInput s { s with console.cons := cons } :=
        ⟨hcons.1, hcons.2, rfl, rfl, fun _ _ _ => Iff.rfl⟩
      exact hput.trans (sameInput_goto c hbefore rfl)
  · refine ⟨rfl, rfl, rfl, rfl, update_outside hbefore fun d hd => ?_⟩
    cases hd

/-! ## The steps of the readers -/

theorem positive_update {calls : ThreadId → Option ConsoleCall} {x : Option ConsoleCall}
    (h : ∀ u d, calls u = some d → isRead d = true → 0 < d.numBytes)
    (hx : ∀ d, x = some d → 0 < d.numBytes) (u : ThreadId) (d : ConsoleCall)
    (hu : Function.update calls t x u = some d) (hread : isRead d = true) : 0 < d.numBytes := by
  by_cases hut : u = t
  · rw [hut, Function.update_self] at hu
    exact hx d hu
  · rw [Function.update_of_ne hut] at hu
    exact h u d hu hread

/-- INTERNAL: a `P` on `RLineBlock` that gets through. -/
theorem InputInv.takeLine (h : InputInv s) (hpos : 0 < c.numBytes)
    (hv : s.console.rLineBlock.value ≠ 0#32) {sem : Semaphore}
    (hsem : sem.value = s.console.rLineBlock.value - 1#32) :
    InputInv ({ s with console.rLineBlock := sem }.readNext t c 0 false) := by
  have hnext : ({ s with console.rLineBlock := sem } : ConsoleState).readNext t c 0 false =
      { s with console.rLineBlock := sem }.goto t c (.synchReadAvail 0) :=
    if_pos ⟨hpos, rfl⟩
  rw [hnext]
  refine ⟨?_, h.buffered, ?_, h.plain⟩
  · cases h.phase with
    | held u d loop hz hl hpc' hlt hs => exact absurd hz hv
    | free hone hn hs =>
      refine .held t { c with pc := .synchReadAvail 0 } 0 ?_ (hn.enter t rfl) rfl hpos ?_
      · show sem.value = 0#32
        rw [hsem, hone]
        rfl
      · show kept s = (s.reads.map readBytes).flatten ++ []
        rw [hs, List.append_nil]
  · refine positive_update h.positive fun d hd => ?_
    cases hd
    exact hpos

theorem InputInv.holder (h : InputInv s) (hc : s.calls t = some c) (hpc : readLoop c.pc = some loop) :
    s.console.rLineBlock.value = 0#32 ∧ Only reading s.calls t c ∧ (loop : ℤ) < c.numBytes ∧
      kept s = (s.reads.map readBytes).flatten ++ got c.buffer loop := by
  have hreading : reading c = true := by unfold reading; rw [hpc]; rfl
  cases h.phase with
  | free hv hn hs => exact hn.elim hc hreading
  | held u d loop' hv hl hpc' hlt hs =>
    obtain ⟨rfl, rfl⟩ := hl.unique hc hreading
    obtain rfl : loop = loop' := Option.some.inj (hpc.symm.trans hpc')
    exact ⟨hv, hl, hlt, hs⟩

theorem InputInv.goOn (h : InputInv s) (hc : s.calls t = some c) (hpc : readLoop c.pc = some loop)
    {c' : ConsoleCall} (hpc' : readLoop c'.pc = some loop) (hbuffer : c'.buffer = c.buffer)
    (hnum : c'.numBytes = c.numBytes) (hcons : s'.console.cons = s.console.cons)
    (hline : s'.console.rLineBlock = s.console.rLineBlock) (hreads : s'.reads = s.reads)
    (hcalls : s'.calls = Function.update s.calls t (some c')) : InputInv s' := by
  obtain ⟨hv, hl, hlt, hs⟩ := h.holder hc hpc
  have hreading : reading c' = true := by unfold reading; rw [hpc']; rfl
  refine ⟨.held t c' loop (hline ▸ hv) (hcalls ▸ hl.move hreading) hpc' (hnum ▸ hlt) ?_,
    hcons ▸ h.buffered, ?_, hcons ▸ h.plain⟩
  · rw [kept_congr (congrArg Console.incoming hcons) (congrArg Console.typed hcons), hs, hreads,
      hbuffer]
  · rw [hcalls]
    refine positive_update h.positive fun d hd => ?_
    cases hd
    omega

theorem taken_getChar {c : Console} (hne : c.incoming ≠ eof)
    (hbuffered : ∃ before, c.typed = before ++ [c.incoming]) :
    taken c.getChar.2 = taken c ++ [c.incoming] := by
  obtain ⟨before, htyped⟩ := hbuffered
  unfold taken
  rw [if_neg hne, htyped, List.dropLast_concat]
  exact (if_pos rfl).trans htyped

theorem kept_getChar (h : InputInv s) (hne : s.console.cons.incoming ≠ eof) :
    kept { s with console.cons := s.console.cons.getChar.2 } =
      kept s ++ [s.console.cons.incoming] := by
  show (taken s.console.cons.getChar.2).filter (· ≠ eof) = _
  rw [taken_getChar hne (h.buffered hne), List.filter_append]
  simp [kept, hne]

/-- The `Read` of thread `t` at the line has taken the byte `c.ch` and not dealt with it. -/
structure ByteInHand (s : ConsoleState) (t : ThreadId) (c : ConsoleCall) (loop : ℕ) : Prop where
  line : s.console.rLineBlock.value = 0#32
  only : ∃ c₀, Only reading s.calls t c₀
  room : (loop : ℤ) < c.numBytes
  positive : ∀ u d, s.calls u = some d → isRead d = true → 0 < d.numBytes
  empty : s.console.cons.incoming = eof
  plain : 0x01#8 ∉ s.console.cons.typed
  fresh : c.ch ≠ 0x01#8
  bytes : kept s = (s.reads.map readBytes).flatten ++ (got c.buffer loop ++ [c.ch])

theorem ByteInHand.finish (h : ByteInHand s t c loop) {r : ConsoleRead}
    (hr : readBytes r = got c.buffer loop ++ [c.ch]) :
    InputInv { s with
      console.rLineBlock := s.console.rLineBlock.v.1
      calls := Function.update s.calls t none
      reads := s.reads ++ [r] } := by
  obtain ⟨c₀, honly⟩ := h.only
  refine ⟨.free ?_ honly.leave ?_, fun hne => absurd h.empty hne, ?_, h.plain⟩
  · show s.console.rLineBlock.v.1.value = 1#32
    rw [Semaphore.value_v, h.line]
    rfl
  · show kept s = ((s.reads ++ [r]).map readBytes).flatten
    rw [h.bytes, List.map_append, List.flatten_append, List.map_singleton, List.flatten_singleton,
      hr]
  · exact positive_update h.positive fun d hd => by cases hd

/-- INTERNAL: the `Read` stores the byte and goes on, or has what it was asked for. -/
theorem ByteInHand.store (h : ByteInHand s t c loop) :
    InputInv (s.readNext t { c with buffer := Function.update c.buffer loop c.ch } (loop + 1)
      false) := by
  have hgot : got (Function.update c.buffer loop c.ch) (loop + 1) = got c.buffer loop ++ [c.ch] := by
    rw [got_succ, got_update, Function.update_self]
  obtain ⟨c₀, honly⟩ := h.only
  have hroom := h.room
  unfold ConsoleState.readNext
  split
  · next hmore =>
    refine ⟨.held t _ (loop + 1) h.line (honly.move rfl) rfl hmore.1 ?_,
      fun hne => absurd h.empty hne, ?_, h.plain⟩
    · show kept s = (s.reads.map readBytes).flatten ++
        got (Function.update c.buffer loop c.ch) (loop + 1)
      rw [hgot, h.bytes]
    · refine positive_update h.positive fun d hd => ?_
      cases hd
      show 0 < c.numBytes
      omega
  · next hend =>
    have hall : ((loop + 1 : ℕ) : ℤ) = c.numBytes := by
      have : ¬ ((loop + 1 : ℕ) : ℤ) < c.numBytes := fun h => hend ⟨h, rfl⟩
      omega
    dsimp only
    rw [if_neg h.fresh, hall]
    refine h.finish ?_
    unfold readBytes
    rw [if_neg (lt_irrefl _), List.append_nil, ← hgot, ← hall]
    rfl

theorem ByteInHand.newline (h : ByteInHand s t c loop) (hch : c.ch = 0x0A#8) :
    InputInv (s.readNext t c loop true) := by
  unfold ConsoleState.readNext
  rw [if_neg (fun h => by cases h.2), if_neg h.fresh]
  refine h.finish ?_
  unfold readBytes
  rw [if_pos h.room, hch]
  rfl

/-- INTERNAL: what the `Read` at the line does with the content of the buffer. -/
theorem InputInv.getChar (h : InputInv s) (hc : s.calls t = some c) (hpc : c.pc = .getChar loop) :
    InputInv ({ s with console.cons := s.console.cons.getChar.2 }.storeChar t
      { c with ch := s.console.cons.getChar.1 } loop) := by
  have hloop : readLoop c.pc = some loop := by rw [hpc]; rfl
  obtain ⟨hv, hl, hlt, hs⟩ := h.holder hc hloop
  by_cases hnone : s.console.cons.incoming = eof
  · -- no byte, or a byte that looks like none
    have hcons : s.console.cons.getChar.2 = s.console.cons := by
      unfold Console.getChar
      rw [← hnone]
    rw [hcons]
    have hskip : ({ s with console.cons := s.console.cons } : ConsoleState).storeChar t
        { c with ch := s.console.cons.getChar.1 } loop =
          s.goto t { c with ch := s.console.cons.incoming } (.synchReadAvail loop) :=
      if_pos hnone
    rw [hskip]
    refine h.goOn hc hloop ?_ ?_ ?_ rfl rfl rfl rfl <;> rfl
  · have hone : s.console.cons.incoming ≠ 0x01#8 := by
      obtain ⟨before, htyped⟩ := h.buffered hnone
      intro hone
      refine h.plain ?_
      rw [htyped, ← hone]
      exact List.mem_append_right _ List.mem_cons_self
    have hhand : ByteInHand { s with console.cons := s.console.cons.getChar.2 } t
        { c with ch := s.console.cons.incoming } loop := by
      refine ⟨hv, ⟨c, hl⟩, hlt, h.positive, rfl, h.plain, hone, ?_⟩
      rw [kept_getChar h hnone, hs, List.append_assoc]
    unfold ConsoleState.storeChar
    split
    · next heof => exact absurd heof hnone
    · split
      · next hend =>
        exact hhand.newline (hend.resolve_right hone)
      · exact hhand.store

theorem taken_poll {c : Console} (hempty : c.incoming = eof) (ch : Byte) :
    (taken { c with incoming := ch, typed := c.typed ++ [ch] }).filter (· ≠ eof) =
      (taken c).filter (· ≠ eof) := by
  unfold taken
  rw [if_pos hempty]
  by_cases hch : ch = eof
  · rw [if_pos hch, hch, List.filter_append]
    simp
  · rw [if_neg hch, List.dropLast_concat]

theorem InputInv.arrive (h : InputInv s) (hempty : s.console.cons.incoming = eof) {ch : Byte}
    (hch : ch ≠ 0x01#8) (sem : Semaphore) :
    InputInv { s with
      console.cons := { s.console.cons with
        incoming := ch
        typed := s.console.cons.typed ++ [ch] }
      console.synchReadAvail := sem } := by
  refine ⟨h.phase.same (taken_poll hempty ch) rfl rfl (fun _ _ _ => Iff.rfl),
    fun _ => ⟨_, rfl⟩, h.positive, ?_⟩
  intro hmem
  rcases List.mem_append.mp hmem with hmem | hmem
  · exact h.plain hmem
  · exact hch (List.mem_singleton.mp hmem).symm

/-! ## Runs -/

/-- `Read` is asked for at least one byte, and Ctrl-A is not typed. -/
def Typing : ConsoleEvent → Prop
  | .read _ _ numBytes _ => 0 < numBytes
  | .poll key => key ≠ some 0x01#8
  | _ => True

instance : DecidablePred Typing
  | .read _ _ numBytes _ => inferInstanceAs (Decidable (0 < numBytes))
  | .poll key => inferInstanceAs (Decidable (key ≠ some 0x01#8))
  | .write _ _ _ | .run _ | .writeDone => .isTrue trivial

/-- INTERNAL: whatever a thread inside a call does next keeps the invariant. -/
theorem InputInv.resume (h : InputInv s) (hc : s.calls t = some c) : InputInv (s.resume t c) := by
  have hout : isRead c = false → ∀ d, s.calls t = some d → isRead d = false := by
    intro hread d hd
    rwa [← Option.some.inj (hc.symm.trans hd)]
  unfold ConsoleState.resume
  split
  next hpc =>
    have hread := hout (by unfold isRead reading; rw [hpc]; rfl)
    rcases Semaphore.p_cases s.console.wLineBlock t with ⟨-, hp⟩ | ⟨-, hp⟩
    · rw [hp]
      exact h.same ⟨rfl, rfl, rfl, rfl, fun _ _ _ => Iff.rfl⟩
    · rw [hp]
      apply h.same
      refine SameInput.trans ?_ (sameInput_goto c hread rfl)
      exact ⟨rfl, rfl, rfl, rfl, fun _ _ _ => Iff.rfl⟩
  next loop hpc =>
    exact h.same (sameInput_putNext c loop (hout (by unfold isRead reading; rw [hpc]; rfl)))
  next loop hpc =>
    have hread := hout (by unfold isRead reading; rw [hpc]; rfl)
    rcases Semaphore.p_cases s.console.synchWriteAvail t with ⟨-, hp⟩ | ⟨-, hp⟩
    · rw [hp]
      exact h.same ⟨rfl, rfl, rfl, rfl, fun _ _ _ => Iff.rfl⟩
    · rw [hp]
      apply h.same
      refine SameInput.trans ?_ (sameInput_goto c hread rfl)
      exact ⟨rfl, rfl, rfl, rfl, fun _ _ _ => Iff.rfl⟩
  next hpc =>
    rcases Semaphore.p_cases s.console.rLineBlock t with ⟨-, hp⟩ | ⟨hv, hp⟩
    · rw [hp]
      exact h.same ⟨rfl, rfl, rfl, rfl, fun _ _ _ => Iff.rfl⟩
    · rw [hp]
      have hpos : 0 < c.numBytes := h.positive t c hc (by unfold isRead; rw [hpc])
      exact h.takeLine hpos hv rfl
  next loop hpc =>
    rcases Semaphore.p_cases s.console.synchReadAvail t with ⟨-, hp⟩ | ⟨-, hp⟩
    · rw [hp]
      exact h.same ⟨rfl, rfl, rfl, rfl, fun _ _ _ => Iff.rfl⟩
    · rw [hp]
      have hloop : readLoop c.pc = some loop := by rw [hpc]; rfl
      refine h.goOn hc hloop ?_ ?_ ?_ rfl rfl rfl rfl <;> rfl
  next loop hpc => exact h.getChar hc hpc

/-- INTERNAL: the invariant over one event. -/
theorem InputInv.step {e : ConsoleEvent} (h : InputInv s) (he : Typing e) (hs : s.step e = some s') :
    InputInv s' := by
  unfold ConsoleState.step at hs
  rw [Option.ite_none_left_eq_some] at hs
  obtain ⟨-, hs⟩ := hs
  cases e with
  | write t buffer numBytes =>
    simp only [Option.ite_none_left_eq_some, Option.some.injEq] at hs
    obtain ⟨hnew, rfl⟩ := hs
    refine h.same (sameInput_goto _ (fun d hd => ?_) rfl)
    rw [hd] at hnew
    exact absurd rfl hnew
  | read t into numBytes ch =>
    simp only [Option.ite_none_left_eq_some, Option.some.injEq] at hs
    obtain ⟨hnew, rfl⟩ := hs
    refine ⟨h.phase.same rfl rfl rfl (update_outside (fun d hd => ?_) fun d hd => ?_),
      h.buffered, positive_update h.positive fun d hd => ?_, h.plain⟩
    · rw [hd] at hnew
      exact absurd rfl hnew
    · cases hd
      rfl
    · cases hd
      exact he
  | run t =>
    simp only [Option.ite_none_left_eq_some] at hs
    obtain ⟨c, hc, rfl⟩ := Option.map_eq_some_iff.mp hs.2
    exact h.resume hc
  | writeDone =>
    simp only [Option.ite_none_left_eq_some, Option.some.injEq] at hs
    obtain ⟨-, rfl⟩ := hs
    exact h.same ⟨rfl, rfl, rfl, rfl, fun _ _ _ => Iff.rfl⟩
  | poll key =>
    cases key with
    | none =>
      cases hs
      exact h
    | some ch =>
      by_cases hempty : s.console.cons.incoming = eof
      · simp only [Console.checkCharAvail, hempty, ne_eq, not_true_eq_false, if_false,
          Option.some.injEq] at hs
        subst hs
        exact h.arrive hempty (fun hch => he (congrArg some hch)) _
      · simp only [Console.checkCharAvail, hempty, ne_eq, not_false_eq_true, if_true,
          Option.some.injEq] at hs
        subst hs
        exact h

/-- INTERNAL: what the `Read`s return is the stream that has left the device if and only if no
byte of it looks like `EOF`. -/
theorem InputInv.inputKept_iff (h : InputInv s) : InputKept s ↔ eof ∉ taken s.console.cons := by
  have hiff : eof ∉ taken s.console.cons ↔ kept s = taken s.console.cons := by
    unfold kept
    rw [List.filter_eq_self]
    constructor
    · intro hnot a ha
      have hne : a ≠ eof := by
        rintro rfl
        exact hnot ha
      simpa using hne
    · intro hall hmem
      simpa using hall eof hmem
  rw [hiff]
  cases h.phase with
  | free hv hn hs =>
    constructor
    · intro hkept
      obtain ⟨rest, hrest, ⟨-, rfl⟩ | ⟨t, c, loop, hc, hpc, -⟩⟩ := hkept.bytes
      · rw [hs, hrest, List.append_nil]
      · exact hn.elim hc (by unfold reading; rw [hpc]; rfl)
    · intro heq
      refine ⟨fun t u c d hc hin => hn.elim hc hin, [], ?_, Or.inl ⟨hn, rfl⟩⟩
      rw [← heq, hs, List.append_nil]
  | held t c loop hv hl hpc hlt hs =>
    constructor
    · intro hkept
      obtain ⟨rest, hrest, ⟨hn, -⟩ | ⟨u, d, loop', hd, hpc', rfl⟩⟩ := hkept.bytes
      · exact hn.elim hl.here hl.isInside
      · obtain ⟨-, rfl⟩ := hl.unique hd (by unfold reading; rw [hpc']; rfl)
        obtain rfl : loop = loop' := Option.some.inj (hpc.symm.trans hpc')
        rw [hs, hrest]
    · intro heq
      refine ⟨fun u v d e hd hind he hine => ?_, _, heq.symm.trans hs,
        Or.inr ⟨t, c, loop, hl.here, hpc, rfl⟩⟩
      exact (hl.only u d hd hind).trans (hl.only v e he hine).symm

/-- SOURCE: threads/synchcons.cc:19, 95-136, machine/console.cc:86-134 — for any number of threads
inside `SynchConsole::Read` (and `Write`) that ask for at least one byte, any typed bytes but
Ctrl-A and any interleaving with the polls of the keyboard: the `Read`s hold the line one after
the other and their bytes, with a newline behind each short one, are the bytes that have left the
device, if and only if none of these is `0xFF`. -/
theorem reads_return_typed_bytes {es : List ConsoleEvent} (hes : ∀ e ∈ es, Typing e) :
    Always ConsoleState.step (fun s => InputKept s ↔ eof ∉ taken s.console.cons)
      ConsoleState.init es := by
  have hinit : InputInv ConsoleState.init :=
    { phase := .free rfl (fun u d hd => by cases hd) rfl
      buffered := fun hne => absurd rfl hne
      positive := fun t c hc => by cases hc
      plain := List.not_mem_nil }
  have hmeets : Meets ConsoleState.step (fun _ e => Typing e) ConsoleState.init es :=
    meets_of_forall (fun _ e he => hes e he) _
  exact always_of_meets (fun s h => h.inputKept_iff) (fun s e s' h he hs => h.step he hs) hinit
    hmeets

/-- A thread asks for two bytes and the bytes `keys` are typed, one at a time; after each of them
the thread runs until it waits for the next. -/
def readTwo (keys : List Byte) : List ConsoleEvent :=
  [.read 0 (fun _ => 0#8) 2 0#8, .run 0] ++
    keys.flatMap fun key => [.poll (some key), .run 0, .run 0]

/-- SOURCE: threads/synchcons.cc:95-136 — a thread reads `ab`. -/
theorem reads_return_typed_bytes_two :
    Always ConsoleState.step (fun s => InputKept s ↔ eof ∉ taken s.console.cons)
      ConsoleState.init (readTwo [0x61#8, 0x62#8]) := by
  refine reads_return_typed_bytes ?_
  decide

/-- SOURCE: threads/synchcons.cc:113-117, machine/console.cc:95-103 — `a`, `0xFF` and `b` are
typed, and a `Read` of two bytes returns `ab`. -/
theorem read_loses_byte_ff :
    ∃ s, run ConsoleState.step ConsoleState.init (readTwo [0x61#8, 0xFF#8, 0x62#8]) = some s ∧
      taken s.console.cons = [0x61#8, 0xFF#8, 0x62#8] ∧
      s.reads.map readBytes = [[0x61#8, 0x62#8]] ∧ ¬ InputKept s := by
  have hrun : (run ConsoleState.step ConsoleState.init
      (readTwo [0x61#8, 0xFF#8, 0x62#8])).map (fun s => (taken s.console.cons,
        s.reads.map readBytes)) =
      some ([0x61#8, 0xFF#8, 0x62#8], [[0x61#8, 0x62#8]]) := by decide +kernel
  obtain ⟨s, hs, hlast⟩ := Option.map_eq_some_iff.mp hrun
  simp only [Prod.mk.injEq] at hlast
  obtain ⟨htaken, hreads⟩ := hlast
  refine ⟨s, hs, htaken, hreads, fun hkept => ?_⟩
  obtain ⟨rest, hrest, -⟩ := hkept.bytes
  rw [htaken, hreads] at hrest
  simp at hrest

end Nachos.Analysis
