import Nachos.Analysis.FileTransfers

/-!
# The result register

The branch of a system call ends with a result in register 2, without one, or not at all. Which
branches can end how is a matter of the dispatcher alone, whatever the tables, the files and the
memory hold (`branch_ends`): of the calls that are declared to return a value, only `ReadNum` and
`ReadChar` can end without one (`eq_read_of_ends_silent`). They do so when `SynchConsole::Read` has
taken no byte, and it takes no byte exactly when the first byte that is not passed over is a newline
(`read_eq_zero_iff`).
-/

set_option autoImplicit false

namespace Nachos.Analysis

open Nachos.Model

variable {numBytes : ℤ} {f : Finish} {call : Syscall}

/-- The calls that are declared to return a value (syscall.h:47-74). -/
def returnsValue : Syscall → Bool
  | .readNum | .readChar | .randomNum | .createFile | .open | .read | .write | .exec | .join
  | .createSemaphore | .wait | .signal => true
  | .halt | .printNum | .printChar | .readString | .printString | .close | .exit => false

/-- The next line is empty: behind bytes that `SynchConsole::Read` passes over there is a newline. -/
def EmptyLine (typed : List Byte) : Prop := (typed.dropWhile (· = eof)).head? = some 0x0A#8

instance (typed : List Byte) : Decidable (EmptyLine typed) :=
  inferInstanceAs (Decidable (_ = _))

/-! ## Reads that take no byte -/

/-- INTERNAL: the result is at least the number of bytes in the buffer, or the end of the input. -/
theorem readFrom_result (typed : List Byte) :
    ∀ {loop : ℕ} {into into' : Buffer} {ch : Byte} {r : ℤ} {rest : List Byte},
      Terminal.readFrom numBytes typed loop into ch = some (r, into', rest) → r = -1 ∨ (loop : ℤ) ≤ r := by
  have hend : ∀ (ch : Byte) (loop : ℕ), Terminal.readResult ch loop = -1 ∨
      (loop : ℤ) ≤ Terminal.readResult ch loop := by
    intro ch loop
    unfold Terminal.readResult
    split_ifs
    · exact Or.inl rfl
    · exact Or.inr (Int.le_refl _)
  induction typed with
  | nil =>
    intro loop into into' ch r rest h
    rw [Terminal.readFrom, Option.ite_none_left_eq_some] at h
    obtain ⟨-, h⟩ := h
    cases h
    exact hend ch loop
  | cons c typed ih =>
    intro loop into into' ch r rest h
    rw [Terminal.readFrom] at h
    split_ifs at h with hlt heof hstop
    · exact ih h
    · cases h
      exact hend c loop
    · rcases ih h with hr | hr
      · exact Or.inl hr
      · exact Or.inr (by omega)
    · cases h
      exact hend ch loop

/-- INTERNAL: the loop of `Read` takes no byte exactly from an empty line. -/
theorem readFrom_eq_zero_iff (hpos : 0 < numBytes) (typed : List Byte) :
    ∀ (into : Buffer) (ch : Byte),
      (∃ into' rest, Terminal.readFrom numBytes typed 0 into ch = some (0, into', rest)) ↔
        EmptyLine typed := by
  induction typed with
  | nil =>
    intro into ch
    rw [Terminal.readFrom, if_pos (by omega)]
    simp [EmptyLine]
  | cons c typed ih =>
    intro into ch
    rw [Terminal.readFrom, if_pos (by omega)]
    by_cases heof : c = eof
    · rw [if_pos heof, ih into c]
      unfold EmptyLine
      rw [List.dropWhile_cons_of_pos (by simpa using heof)]
    · have hhead : EmptyLine (c :: typed) ↔ c = 0x0A#8 := by
        unfold EmptyLine
        rw [List.dropWhile_cons_of_neg (by simpa using heof), List.head?_cons, Option.some.injEq]
      rw [if_neg heof, hhead]
      by_cases hstop : c = 0x0A#8 ∨ c = 0x01#8
      · rw [if_pos hstop]
        rcases hstop with rfl | rfl
        · exact ⟨fun _ => rfl, fun _ => ⟨into, typed, rfl⟩⟩
        · simp [Terminal.readResult]
      · rw [if_neg hstop]
        refine ⟨fun ⟨into', rest, h⟩ => ?_, fun h => absurd (Or.inl h) hstop⟩
        -- one byte is in the buffer
        rcases readFrom_result typed h with h' | h'
        · omega
        · omega

/-- INTERNAL: **`Read` takes no byte exactly from an empty line.**
SRCLINE: threads/synchcons.cc:95-136 -/
theorem read_eq_zero_iff (t : Terminal) (hpos : 0 < numBytes) (into : Buffer) (ch : Byte) :
    (∃ into' t', t.read into numBytes ch = some (0, into', t')) ↔ EmptyLine t.typed := by
  rw [← readFrom_eq_zero_iff hpos t.typed (fun k => if (k : ℤ) < numBytes then 0#8 else into k) ch]
  unfold Terminal.read
  constructor
  · rintro ⟨into', t', h⟩
    obtain ⟨⟨r, buf, rest⟩, hread, heq⟩ := Option.map_eq_some_iff.mp h
    cases heq
    exact ⟨buf, rest, hread⟩
  · rintro ⟨into', rest, h⟩
    exact ⟨into', { t with typed := rest }, by rw [h]; rfl⟩

/-- INTERNAL: a call that goes on without a result exactly when its read has taken no byte. -/
theorem silent_iff_of_read {t : Terminal} {into : Buffer} {ch : Byte}
    {call : Option (Finish × Terminal)} (hpos : 0 < numBytes)
    (hnone : t.read into numBytes ch = none → call = none)
    (hzero : ∀ into' t', t.read into numBytes ch = some (0, into', t') → call = some (.silent, t'))
    (hbytes : ∀ r into' t' t'', t.read into numBytes ch = some (r, into', t') → r ≠ 0 →
      call ≠ some (.silent, t'')) :
    (∃ t', call = some (.silent, t')) ↔ EmptyLine t.typed := by
  rw [← read_eq_zero_iff t hpos into ch]
  constructor
  · rintro ⟨t'', hcall⟩
    cases hread : t.read into numBytes ch with
    | none =>
      rw [hnone hread] at hcall
      cases hcall
    | some r =>
      obtain ⟨r, into', t'⟩ := r
      by_cases hr : r = 0
      · subst hr
        exact ⟨into', t', rfl⟩
      · exact absurd hcall (hbytes r into' t' t'' hread hr)
  · rintro ⟨into', t', hread⟩
    exact ⟨t', hzero into' t' hread⟩

theorem readNum_silent_iff (t : Terminal) (num : Buffer) (ch : Byte) :
    (∃ t', t.readNum num ch = some (.silent, t')) ↔ EmptyLine t.typed := by
  unfold Terminal.readNum
  apply silent_iff_of_read (show (0 : ℤ) < 9 by omega)
  · intro hread
    rw [hread]
  · intro num' t' hread
    simp [hread]
  · intro leng num' t' t'' hread hleng h
    simp only [hread, hleng, if_false] at h
    split_ifs at h with hend
    · cases h
    all_goals
      split at h
      · cases h
      · cases h

theorem readChar_silent_iff (t : Terminal) (into : Buffer) (ch : Byte) :
    (∃ t', t.readChar into ch = some (.silent, t')) ↔ EmptyLine t.typed := by
  unfold Terminal.readChar
  apply silent_iff_of_read (show (0 : ℤ) < 1 by omega)
  · intro hread
    rw [hread]
  · intro into' t' hread
    simp [hread]
  · intro ok into' t' t'' hread hok h
    simp only [hread, hok, if_false] at h
    split_ifs at h
    · cases h
    · cases h

/-! ## The branches -/

section Branches

variable {σ κ : Type} {b : FileBuild σ κ} {s s' : KernelState σ} {env : CallEnv κ}

theorem branch_read_result (h : s.read b env = some (f, s')) :
    s'.registers = s.registers ∧ ∃ value, f = .result value := by
  rw [KernelState.read, Option.ite_none_left_eq_some] at h
  obtain ⟨console, -, h⟩ := Option.bind_eq_some_iff.mp h.2
  obtain ⟨r, -, h⟩ := Option.bind_eq_some_iff.mp h
  obtain ⟨machine, -, h⟩ := Option.bind_eq_some_iff.mp h
  cases h
  exact ⟨rfl, r.1, rfl⟩

theorem branch_write_result (h : s.write b env = some (f, s')) :
    s'.registers = s.registers ∧ ∃ value, f = .result value := by
  obtain ⟨fetch, -, h⟩ := Option.bind_eq_some_iff.mp h
  obtain ⟨r, -, h⟩ := Option.bind_eq_some_iff.mp h
  cases h
  exact ⟨rfl, r.1, rfl⟩

theorem registers_readName {name : String} (h : s.readName = some (name, s')) :
    s'.registers = s.registers := by
  obtain ⟨r, -, heq⟩ := Option.map_eq_some_iff.mp h
  cases heq
  rfl

theorem readString_finish {t t' : Terminal} {m m' : Machine} {virtAddr leng : BitVec 32}
    {string : Buffer} {ch : Byte} (h : t.readString m virtAddr leng string ch = some (f, t', m')) :
    f = .halt ∨ f = .silent := by
  unfold Terminal.readString at h
  split_ifs at h with hleng halloc
  · cases h
    exact Or.inl rfl
  · split at h
    · cases h
    · split_ifs at h with hend hzero
      · cases h
        exact Or.inl rfl
      · cases h
        exact Or.inr rfl
      · obtain ⟨r, -, heq⟩ := Option.map_eq_some_iff.mp h
        cases heq
        exact Or.inr rfl

/-- INTERNAL: **the ends of the branches** are those of `Syscall.ends`, whatever the files, the tables
and the memory hold, and the calls of the process table have a result. A branch leaves the registers
to the end of the handler.
SRCLINE: userprog/exception.cc:50-490 -/
theorem branch_ends (h : s.branch b env call = some (f, s')) :
    s'.registers = s.registers ∧
      ((call = .exec ∨ call = .join ∨ call = .exit) ∧ (∃ value, f = .result value) ∨
        call.ends f = true) := by
  cases call with
  | halt | randomNum | printChar =>
    cases h
    exact ⟨rfl, Or.inr rfl⟩
  | join | exit =>
    cases h
    exact ⟨rfl, Or.inl ⟨by simp, _, rfl⟩⟩
  | readNum | readChar =>
    obtain ⟨r, -, h⟩ := Option.bind_eq_some_iff.mp h
    cases h
    exact ⟨rfl, Or.inr (by cases r.1 <;> rfl)⟩
  | printNum | printString | close =>
    obtain ⟨r, -, h⟩ := Option.bind_eq_some_iff.mp h
    cases h
    exact ⟨rfl, Or.inr rfl⟩
  | readString =>
    obtain ⟨⟨f', t', m'⟩, hread, h⟩ := Option.bind_eq_some_iff.mp h
    cases h
    refine ⟨rfl, Or.inr ?_⟩
    rcases readString_finish hread with rfl | rfl
    · rfl
    · rfl
  | createFile | «open» =>
    obtain ⟨⟨name, s₁⟩, hname, h⟩ := Option.bind_eq_some_iff.mp h
    obtain ⟨r, -, h⟩ := Option.bind_eq_some_iff.mp h
    have hregisters := registers_readName hname
    cases h
    exact ⟨hregisters, Or.inr rfl⟩
  | exec =>
    obtain ⟨⟨name, s₁⟩, hname, h⟩ := Option.bind_eq_some_iff.mp h
    obtain ⟨r, -, h⟩ := Option.bind_eq_some_iff.mp h
    have hregisters := registers_readName hname
    cases h
    exact ⟨hregisters, Or.inl ⟨Or.inl rfl, _, rfl⟩⟩
  | createSemaphore | wait | signal =>
    obtain ⟨⟨name, s₁⟩, hname, h⟩ := Option.bind_eq_some_iff.mp h
    cases h
    exact ⟨registers_readName hname, Or.inr rfl⟩
  | read =>
    obtain ⟨hregisters, value, rfl⟩ := branch_read_result h
    exact ⟨hregisters, Or.inr rfl⟩
  | write =>
    obtain ⟨hregisters, value, rfl⟩ := branch_write_result h
    exact ⟨hregisters, Or.inr rfl⟩

theorem eq_read_of_ends_silent (hreturns : returnsValue call = true) (h : call.ends .silent = true) :
    call = .readNum ∨ call = .readChar := by
  cases call <;> simp_all [returnsValue, Syscall.ends]

theorem branch_silent_iff (b : FileBuild σ κ) (s : KernelState σ) (env : CallEnv κ)
    (hreturns : returnsValue call = true) :
    (∃ s', s.branch b env call = some (.silent, s')) ↔
      (call = .readNum ∨ call = .readChar) ∧ EmptyLine s.terminal.typed := by
  by_cases hnum : call = .readNum
  · subst hnum
    rw [← readNum_silent_iff s.terminal env.buff env.ch]
    simp [KernelState.branch, Option.bind_eq_some_iff]
  · by_cases hchar : call = .readChar
    · subst hchar
      rw [← readChar_silent_iff s.terminal env.buff env.ch]
      simp [KernelState.branch, Option.bind_eq_some_iff]
    · refine iff_of_false ?_ fun h => h.1.elim hnum hchar
      rintro ⟨s', h⟩
      rcases (branch_ends h).2 with ⟨-, value, hvalue⟩ | hends
      · cases hvalue
      · exact (eq_read_of_ends_silent hreturns hends).elim hnum hchar

end Branches

/-! ## The handler -/

/-- SOURCE: userprog/exception.cc:41-492 — **a call that is declared to return a value and resumes the
program has put a value into register 2 exactly if it is not `ReadNum` or `ReadChar` on an empty
line.** -/
theorem result_written_iff {σ κ : Type} (b : FileBuild σ κ) (s : KernelState σ) (env : CallEnv κ)
    {call : Syscall} (hcall : Syscall.ofType (s.registers.gp 2) = some call)
    (hreturns : returnsValue call = true) :
    (∀ written s', s.exceptionHandler b env .syscallException = some (.resumed written s') →
      ∃ value : ℤ, written = some value ∧ s'.registers.gp 2 = BitVec.ofInt 32 value) ↔
      ¬ ((call = .readNum ∨ call = .readChar) ∧ EmptyLine s.terminal.typed) := by
  rw [← branch_silent_iff b s env hreturns]
  have hhandler : s.exceptionHandler b env .syscallException =
      (Syscall.ofType (s.registers.gp 2)).bind fun call =>
        (s.branch b env call).bind fun r => r.2.finishCall r.1 := rfl
  rw [hcall, Option.bind_some] at hhandler
  constructor
  · rintro h ⟨s', hsilent⟩
    rw [hsilent] at hhandler
    obtain ⟨value, hwritten, -⟩ := h none _ hhandler
    cases hwritten
  · intro hsilent written s' hresumed
    rw [hhandler] at hresumed
    obtain ⟨⟨f, s₁⟩, hbranch, hfinish⟩ := Option.bind_eq_some_iff.mp hresumed
    cases f with
    | result value =>
      cases hfinish
      refine ⟨value, rfl, ?_⟩
      show Function.update s₁.registers.gp 2 (BitVec.ofInt 32 value) 2 = BitVec.ofInt 32 value
      exact Function.update_self 2 _ _
    | silent => exact absurd ⟨s₁, hbranch⟩ hsilent
    | halt => cases hfinish
    | abort => cases hfinish

/-- A system call of the given type with the given bytes typed. -/
def consoleCall (type : BitVec 32) (typed : List Byte) : KernelState StubFileSystem :=
  { transferCall [] [] 0#32 with
    registers := { (transferCall [] [] 0#32).registers with gp := fun r => if r = 2 then type else 0#32 }
    terminal := ⟨typed, []⟩ }

/-- SOURCE: userprog/exception.cc:62-85 — `ReadNum` on the line `5`. -/
theorem readNum_result_written :
    ((consoleCall 2#32 [0x35#8, 0x0A#8]).exceptionHandler StubFileSystem.build quietEnv
      .syscallException).isSome = true ∧
    ∀ written s', (consoleCall 2#32 [0x35#8, 0x0A#8]).exceptionHandler StubFileSystem.build quietEnv
        .syscallException = some (.resumed written s') →
      ∃ value : ℤ, written = some value ∧ s'.registers.gp 2 = BitVec.ofInt 32 value :=
  ⟨rfl, (result_written_iff StubFileSystem.build (consoleCall 2#32 [0x35#8, 0x0A#8]) quietEnv
    (show Syscall.ofType 2#32 = some .readNum from rfl) rfl).mpr (by decide)⟩

/-- SOURCE: userprog/exception.cc:70 — after an empty line the program finds the type of its call in
register 2. -/
theorem readNum_leaves_call_number : ∃ s',
    (consoleCall 2#32 [0x0A#8]).exceptionHandler StubFileSystem.build quietEnv .syscallException =
      some (.resumed none s') ∧ s'.registers.gp 2 = 2#32 := by
  exact ⟨_, rfl, rfl⟩

end Nachos.Analysis
