import Nachos.Model.ProcessTable

/-!
# The process table with names held by value

`PCB::GetFileName` asks the thread object of a `PCB` for its name. Here a `PCB` holds the name of
its program itself: `PCB::Exec` stores it where it makes the thread, and the three searches read
it there. A search then needs the `PCB`s of the table and no thread. All else is the code of
`Nachos.Model.ProcessTable`, with the outcome of this search.
-/

set_option autoImplicit false

namespace Nachos.Model

/-- The process table with the name each `PCB` holds. `searched t` is the table as the last
`ExecUpdate` of thread `t` found it after `bmsem->P()`; no step reads it. -/
structure NamedState extends ProcState where
  fileName : ℕ → String
  searched : ThreadId → Option ProcTable

/-- An event of the process table, with what the memory of a new `PCB`'s name holds until
`PCB::Exec` sets it. -/
structure NamedEvent where
  event : ProcEvent
  unset : String
deriving DecidableEq, Repr

namespace NamedState

def onState (s : NamedState) (s' : ProcState) : NamedState := { s with toProcState := s' }

/-- The search loop from slot `i`, with `n` slots left, over the names the `PCB`s hold. -/
def scanFrom (s : NamedState) (name : String) : ℕ → ℕ → Option ℕ → Option (Option ℕ)
  | _, 0, index => some index
  | i, n + 1, index =>
    match s.pcb i with
    | none => scanFrom s name (i + 1) n index
    | some ptr => do
      let _ ← s.heap ptr
      scanFrom s name (i + 1) n (if name = s.fileName ptr then some i else index)

/-- The whole search; `none` if it follows a bad pointer, `some none` for `index == -1`. -/
def scan (s : NamedState) (name : String) : Option (Option ℕ) := s.scanFrom name 0 maxProcess none

/-- `ExecUpdate` from the end of `bmsem->P()` on; `new PCB` leaves the name unset. -/
def execScan (s : NamedState) (t : ThreadId) (self : String) (name : Option String) (opens : Bool)
    (garbage : ℤ) (unset : String) : Option NamedState :=
  (s.execScanWith (s.scan self) t self name opens garbage).map fun s' =>
    { toProcState := s'
      fileName := Function.update s.fileName s.next unset
      searched := Function.update s.searched t (some s.toProcTable) }

/-- `PCB::Exec` from the end of `mutex->P()` on, which sets the name with the thread. -/
def execFork (s : NamedState) (t : ThreadId) (name : String) (pid ptr : ℕ) : Option NamedState := do
  let c ← s.heap ptr
  let s' ← s.toProcState.execFork t name pid ptr
  pure { s.onState s' with
    fileName := if c.thread.isSome then s.fileName else Function.update s.fileName ptr name }

/-- A thread inside a call runs on. -/
def resume (s : NamedState) (t : ThreadId) (self : String) (garbage : ℤ) (unset : String) :
    Pc → Option (Option NamedState)
  | .execScan name opens => some (s.execScan t self name opens garbage unset)
  | .execFork name pid ptr => some (s.execFork t name pid ptr)
  | pc => (s.toProcState.resume t self garbage pc).map fun r => r.map s.onState

/-- What the event makes of the state, before a bad pointer is turned into a crash. -/
def act (s : NamedState) (thr : Thread) (e : NamedEvent) : Option (Option NamedState) :=
  match e.event with
  | .exec t name opens =>
    if thr.pc = .user then some (some (s.onState (s.bmsemTest t name opens))) else none
  | .join t id =>
    if thr.pc = .user then some ((s.joinCallWith (s.scan thr.name) t id).map s.onState) else none
  | .exit t ec =>
    if thr.pc = .user then some ((s.exitCallWith (s.scan thr.name) t ec).map s.onState) else none
  | .resume t garbage => s.resume t thr.name garbage e.unset thr.pc

/-- One step of the running machine. -/
def step (s : NamedState) (e : NamedEvent) : Option NamedState :=
  if s.status = .running ∧ s.asleep e.event.thread = false then do
    let thr ← s.threads e.event.thread
    let r ← s.act thr e
    pure (r.getD (s.onState s.crash))
  else none

/-- `PTable::PTable`, whose first `PCB` is the boot process's. -/
def boot (words : ℕ → BitVec 32) : Option NamedState :=
  (ProcState.boot words).map fun s => ⟨s, fun _ => "main", fun _ => none⟩

end NamedState

end Nachos.Model
