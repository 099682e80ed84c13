import Nachos.Analysis.ConsoleTexts
import Nachos.Analysis.FileAccess
import Nachos.Model.DescriptorTable
import Nachos.Model.ExceptionHandler
import Nachos.Model.StubFileSystem

/-!
# Transfers between files and the memory of a user

To the calls `Read` and `Write` an open file is a list of bytes with a position in it, in either build
(`ByteFiles`, with `stubFiles` and `diskFiles`). What `OpenFile::Read` has delivered goes through
`System2User`, and what `OpenFile::Write` gets has come through `User2System`. Both are made for
strings: they stop at a zero byte. Bytes behind a zero byte of the file do not reach the user, and
for those behind a zero byte of the user zeros are written. And the terminator that `Read` puts behind
the data is copied as well, even if the data fill the user's buffer.
-/

set_option autoImplicit false

namespace Nachos.Analysis

open Nachos.Library Nachos.Model

/-! ## Open files as bytes with a position -/

/-- How the objects of a build stand for files. -/
structure ByteFiles {σ κ : Type} (b : FileBuild σ κ) where
  /-- The object `p` is on a file with these bytes. -/
  Contents : σ → ℕ → List Byte → Prop
  /-- The position of an object. -/
  cursor : σ → ℕ → Option ℤ
  /-- How many of `m` bytes are written at position `q`. -/
  room : List Byte → ℕ → ℕ → ℕ
  unique : ∀ {s : σ} {p : ℕ} {x x' : List Byte}, Contents s p x → Contents s p x' → x = x'
  room_le : ∀ (x : List Byte) (q m : ℕ), room x q m ≤ m
  /-- A read delivers the bytes from the position on, as many as there are. -/
  read : ∀ {s : σ} {p : ℕ} {x : List Byte} {q m : ℕ} (env : κ) (into : Buffer), Contents s p x →
    cursor s p = some (q : ℤ) → m ≤ memorySize →
    ∃ s', b.read s env p into m =
      some ((((x.drop q).take m).length : ℤ), filled ((x.drop q).take m) into, s')
  /-- A write puts the bytes at the position. -/
  write : ∀ {s : σ} {p : ℕ} {x : List Byte} {q m : ℕ} (env : κ) (src : Buffer), Contents s p x →
    cursor s p = some (q : ℤ) → m ≤ memorySize →
    ∃ s' x', b.write s env p src m = some ((room x q m : ℤ), s') ∧ Contents s' p x' ∧
      ∀ i < room x q m, x'[q + i]? = some (src i)

section Stub

variable {s : StubFileSystem} {p file q : ℕ} {f : StubOpenFile}

theorem stubRead_eq (hobj : s.objects p = some f) (hfd : s.host.fds f.file = some file)
    (hcursor : f.currentOffset = q) (into : Buffer) (m : ℕ) :
    s.read p into m = some (((((s.host.data file).drop q).take m).length : ℤ),
      filled (((s.host.data file).drop q).take m) into,
      { s with objects := Function.update s.objects p (some { f with
          currentOffset := toInt32 (q + (((s.host.data file).drop q).take m).length) }) }) := by
  unfold StubFileSystem.read Host.readPartial
  simp only [hobj, hfd, hcursor, Option.bind_eq_bind, Option.bind_some, Option.pure_def,
    if_neg (show ¬ (q : ℤ) < 0 by omega), Int.toNat_natCast]
  rfl

/-- INTERNAL: `Write` of the stub. -/
theorem stubWrite_eq (hobj : s.objects p = some f) (hfd : s.host.fds f.file = some file)
    (hcursor : f.currentOffset = q) (src : Buffer) (m : ℕ) :
    ∃ s' x', s.write p src m = some ((m : ℤ), s') ∧
      s'.objects p = some { f with currentOffset := toInt32 (q + m) } ∧ s'.host.fds = s.host.fds ∧
      s'.host.data file = x' ∧ ∀ i < m, x'[q + i]? = some (src i) := by
  have hplaced : ∀ i < m, ((s.host.data file).take q ++
      List.replicate (q - (s.host.data file).length) 0#8 ++ (List.range m).map src ++
      (s.host.data file).drop (q + m))[q + i]? = some (src i) := by
    intro i hi
    have hbefore : ((s.host.data file).take q ++
        List.replicate (q - (s.host.data file).length) 0#8).length = q := by
      rw [List.length_append, List.length_take, List.length_replicate]
      omega
    rw [List.append_assoc, List.getElem?_append_right (by omega), hbefore,
      List.getElem?_append_left (by simp; omega)]
    simp [hi]
  refine ⟨⟨{ s.host with data := Function.update s.host.data file _ },
      Function.update s.objects p (some { f with currentOffset := toInt32 (q + m) }), s.file⟩,
    _, ?_, Function.update_self _ _ _, rfl, Function.update_self _ _ _, hplaced⟩
  unfold StubFileSystem.write Host.writeFile
  simp only [hobj, hfd, hcursor, Option.bind_eq_bind, Option.bind_some, Option.pure_def,
    if_neg (show ¬ (q : ℤ) < 0 by omega), Int.toNat_natCast]

end Stub

/-- The objects of the stub are on files of the host. -/
def stubFiles : ByteFiles StubFileSystem.build where
  Contents s p x := ∃ f file, s.objects p = some f ∧ s.host.fds f.file = some file ∧
    s.host.data file = x
  cursor s p := (s.objects p).map StubOpenFile.currentOffset
  room _ _ m := m
  unique := by
    rintro s p x x' ⟨f, file, hobj, hfd, rfl⟩ ⟨f', file', hobj', hfd', rfl⟩
    rw [hobj] at hobj'
    cases hobj'
    rw [hfd] at hfd'
    cases hfd'
    rfl
  room_le _ _ m := Nat.le_refl m
  read := by
    rintro s p x q m env into ⟨f, file, hobj, hfd, rfl⟩ hcursor -
    rw [hobj, Option.map_some, Option.some.injEq] at hcursor
    exact ⟨_, stubRead_eq hobj hfd hcursor into m⟩
  write := by
    rintro s p x q m env src ⟨f, file, hobj, hfd, rfl⟩ hcursor -
    rw [hobj, Option.map_some, Option.some.injEq] at hcursor
    obtain ⟨s', x', hwrite, hobj', hfds, hdata, hbytes⟩ := stubWrite_eq hobj hfd hcursor src m
    exact ⟨s', x', hwrite, ⟨_, file, hobj', by rw [hfds]; exact hfd, hdata⟩, hbytes⟩

section Disk

variable {f : OpenFile} {n m q : ℕ}

theorem LaidOut.readAt_memory (h : LaidOut f.hdr n) (d : DiskImage) (into : Buffer)
    (hm : m ≤ memorySize) :
    f.readAt d into m q = some (filled (((fileBytes f.hdr d).drop q).take m) into,
      ((((fileBytes f.hdr d).drop q).take m).length : ℤ)) := by
  obtain ⟨len, hlen⟩ := Int.eq_ofNat_of_zero_le h.nonneg
  have hbig := h.len_le hlen
  simp only [memorySize, numPhysPages, pageSize, sectorSize] at hm
  by_cases hq : q < len
  · have hread := h.readAt_eq (d := d) into (show (q : ℤ) + m < 2 ^ 31 by omega)
    rwa [Int.toNat_natCast] at hread
  · have hnil : (fileBytes f.hdr d).drop q = [] := by
      rw [List.drop_eq_nil_iff, length_fileBytes, hlen]
      exact Nat.le_of_not_lt hq
    unfold OpenFile.readAt
    rw [if_pos (.inr (by rw [show f.length = len from hlen]; omega)), hnil, List.take_nil]
    rfl

/-- INTERNAL: `WriteAt` for as many bytes as a user can have, at any position. -/
theorem LaidOut.writeAt_memory (h : LaidOut f.hdr n) (d : DiskImage) (buf src : Buffer)
    (hm : m ≤ memorySize) :
    ∃ d', f.writeAt d buf src m q =
        some (d', ((min m ((fileBytes f.hdr d).length - q) : ℕ) : ℤ)) ∧
      ∀ i < min m ((fileBytes f.hdr d).length - q), (fileBytes f.hdr d')[q + i]? = some (src i) := by
  obtain ⟨len, hlen⟩ := Int.eq_ofNat_of_zero_le h.nonneg
  have hbig := h.len_le hlen
  simp only [memorySize, numPhysPages, pageSize, sectorSize] at hm
  by_cases hq : q < len
  · obtain ⟨d', hwrite, hbytes, -⟩ := h.writeAt_eq (d := d) buf src
      (show (q : ℤ) + m < 2 ^ 31 by omega)
    have hcount : ((bufferBytes src (m : ℤ)).take ((fileBytes f.hdr d).length - q)).length =
        min m ((fileBytes f.hdr d).length - q) := by
      rw [List.length_take, length_bufferBytes, Int.toNat_natCast, Nat.min_comm]
    rw [hcount] at hwrite
    refine ⟨d', hwrite, fun i hi => ?_⟩
    rw [hbytes, getElem?_overwrite _ _ _ (by omega), length_bufferBytes, Int.toNat_natCast,
      if_pos ⟨by omega, by omega⟩, Nat.add_sub_cancel_left, bufferBytes, Int.toNat_natCast]
    have hlt : i < m := by omega
    simp [hlt]
  · have hzero : (fileBytes f.hdr d).length - q = 0 := by
      rw [length_fileBytes, hlen, Int.toNat_natCast]
      omega
    rw [hzero, Nat.min_zero]
    refine ⟨d, ?_, fun i hi => absurd hi (Nat.not_lt_zero i)⟩
    unfold OpenFile.writeAt
    rw [if_pos (.inr (by rw [show f.length = len from hlen]; omega))]
    rfl

end Disk

/-- The objects of the FILESYS build are on files of the disk. -/
def diskFiles : ByteFiles DiskFileSystem.build where
  Contents s p x := ∃ f n, s.objects p = some f ∧ LaidOut f.hdr n ∧ fileBytes f.hdr s.fs.disk = x
  cursor s p := (s.objects p).map OpenFile.seekPosition
  room x q m := min m (x.length - q)
  unique := by
    rintro s p x x' ⟨f, n, hobj, -, rfl⟩ ⟨f', n', hobj', -, rfl⟩
    rw [hobj] at hobj'
    cases hobj'
    rfl
  room_le _ _ m := Nat.min_le_left m _
  read := by
    rintro s p x q m env into ⟨f, n, hobj, hlaid, rfl⟩ hcursor hm
    rw [hobj, Option.map_some, Option.some.injEq] at hcursor
    have hread := hlaid.readAt_memory (q := q) s.fs.disk into hm
    refine ⟨⟨s.fs, Function.update s.objects p (some ⟨f.hdr,
      toInt32 (q + (((fileBytes f.hdr s.fs.disk).drop q).take m).length), f.type⟩), s.file⟩, ?_⟩
    show s.read p into m = _
    unfold DiskFileSystem.read OpenFile.read OpenFile.advance
    simp only [hobj, hcursor, hread, Option.bind_eq_bind, Option.bind_some, Option.pure_def]
  write := by
    rintro s p x q m env src ⟨f, n, hobj, hlaid, rfl⟩ hcursor hm
    rw [hobj, Option.map_some, Option.some.injEq] at hcursor
    obtain ⟨d', hwrite, hbytes⟩ := hlaid.writeAt_memory (q := q) s.fs.disk env.buf src hm
    refine ⟨⟨{ s.fs with disk := d' }, Function.update s.objects p (some ⟨f.hdr,
        toInt32 (q + (min m ((fileBytes f.hdr s.fs.disk).length - q) : ℕ)), f.type⟩), s.file⟩,
      fileBytes f.hdr d', ?_, ⟨_, n, Function.update_self _ _ _, hlaid, rfl⟩, hbytes⟩
    show s.write env p src m = _
    unfold DiskFileSystem.write OpenFile.write OpenFile.advance
    simp only [hobj, hcursor, hwrite, Option.bind_eq_bind, Option.bind_some, Option.pure_def]

/-- The two builds. -/
inductive Build where
  | stub
  | disk

/-- Their file systems. -/
def Build.State : Build → Type
  | .stub => StubFileSystem
  | .disk => DiskFileSystem

/-- What they get from outside. -/
def Build.Answer : Build → Type
  | .stub => HostAnswer
  | .disk => DiskAnswer

/-- What the system calls use of them. -/
def Build.calls : (k : Build) → FileBuild k.State k.Answer
  | .stub => StubFileSystem.build
  | .disk => DiskFileSystem.build

/-- Their open files. -/
def Build.files : (k : Build) → ByteFiles k.calls
  | .stub => stubFiles
  | .disk => diskFiles

/-! ## From a file to the user -/

/-- The user has the data at `addr`, and no byte behind the `charcount` bytes there has changed. -/
structure ReadExactly (m m' : Machine) (addr : BitVec 32) (charcount : ℕ) (data : List Byte) :
    Prop where
  bytes : HoldsText m' addr data
  others : ∀ a, (∀ k < charcount, a ≠ addr + BitVec.ofNat 32 k) → seenByte m' a = seenByte m a

/-- The bytes that the copy does not reach are in the user's memory already, and so is the
terminator that comes behind data of `charcount` bytes. -/
def CopyHarmless (m : Machine) (addr : BitVec 32) (charcount : ℕ) (data : List Byte) : Prop :=
  (∀ i, (hi : i < data.length) → 0#8 ∈ data.take i →
    seenByte m (addr + BitVec.ofNat 32 i) = some data[i]) ∧
  (data.length = charcount → 0#8 ∉ data → seenByte m (addr + BitVec.ofNat 32 charcount) = some 0#8)

theorem terminated_apply {data : List Byte} (into : Buffer) {j : ℕ} (hj : j < data.length) :
    Function.update (filled data into) data.length 0#8 j = data[j] := by
  rw [Function.update_of_ne hj.ne, filled, List.getElem?_eq_getElem hj]
  rfl

theorem reached_terminated_iff {data : List Byte} (into : Buffer) {i : ℕ} :
    Reached 0#8 (Function.update (filled data into) data.length 0#8) i ↔
      i ≤ data.length ∧ 0#8 ∉ data.take i := by
  constructor
  · intro h
    have hle : i ≤ data.length := by
      by_contra hlt
      exact h data.length (by omega) (Function.update_self _ _ _)
    refine ⟨hle, fun hzero => ?_⟩
    obtain ⟨j, hj, heq⟩ := List.mem_take_iff_getElem.mp hzero
    refine h j (by omega) ?_
    rw [terminated_apply into (by omega), heq]
  · rintro ⟨hle, hzero⟩ j hj heq
    rw [terminated_apply into (by omega)] at heq
    exact hzero (List.mem_take_iff_getElem.mpr ⟨j, by omega, heq⟩)

/-- INTERNAL: **when the copy of terminated data is exact.**
SRCLINE: userprog/exception.cc:22-33, 306-307 -/
theorem CopiedOut.readExactly_iff {m m' : Machine} {addr : BitVec 32} {data : List Byte}
    {into : Buffer} {charcount : ℕ}
    (h : CopiedOut m m' addr (Function.update (filled data into) data.length 0#8) (charcount + 1))
    (hlen : data.length ≤ charcount) (hfit : charcount + 1 ≤ 2 ^ 32) :
    ReadExactly m m' addr charcount data ↔ CopyHarmless m addr charcount data := by
  -- a byte that is not reached stays
  have hstays : ∀ i ≤ charcount, ¬ (i ≤ data.length ∧ 0#8 ∉ data.take i) →
      seenByte m' (addr + BitVec.ofNat 32 i) = seenByte m (addr + BitVec.ofNat 32 i) := by
    intro i hi hnot
    refine h.others _ fun k hk hreached heq => hnot ?_
    obtain rfl := add_ofNat_inj (by omega) (by omega) heq
    exact (reached_terminated_iff into).mp hreached
  constructor
  · rintro ⟨hbytes, hothers⟩
    refine ⟨fun i hi hzero => ?_, fun hfull hzero => ?_⟩
    · rw [← hstays i (by omega) fun hr => hr.2 hzero]
      exact hbytes i hi
    · have hend := h.bytes charcount (by omega) ((reached_terminated_iff into).mpr
        ⟨by omega, by rwa [List.take_of_length_le (by omega)]⟩)
      rw [← hfull, Function.update_self, hfull] at hend
      rw [← hothers _ fun k hk heq => by
        have := add_ofNat_inj (by omega) (by omega) heq
        omega]
      exact hend
  · rintro ⟨hbehind, hterminator⟩
    refine ⟨fun i hi => ?_, fun a ha => ?_⟩
    · by_cases hzero : 0#8 ∈ data.take i
      · rw [hstays i (by omega) fun hr => hr.2 hzero]
        exact hbehind i hi hzero
      · rw [h.bytes i (by omega) ((reached_terminated_iff into).mpr ⟨by omega, hzero⟩),
          terminated_apply into hi]
    · by_cases hlast : a = addr + BitVec.ofNat 32 charcount
      · subst hlast
        by_cases hreached : charcount ≤ data.length ∧ 0#8 ∉ data.take charcount
        · have hfull : data.length = charcount := by omega
          have hzero : 0#8 ∉ data := by
            rw [← List.take_of_length_le (show data.length ≤ charcount by omega)]
            exact hreached.2
          have hend := h.bytes charcount (by omega) ((reached_terminated_iff into).mpr hreached)
          rw [← hfull, Function.update_self, hfull] at hend
          rw [hend, hterminator hfull hzero]
        · exact hstays charcount (by omega) hreached
      · refine h.others a fun k hk _ heq => ?_
        by_cases hk' : k = charcount
        · exact hlast (hk' ▸ heq)
        · exact ha k (by omega) heq

section Calls

variable {σ κ : Type} {b : FileBuild σ κ} (v : ByteFiles b) {s : KernelState σ} (env : CallEnv κ)
  {p q charcount : ℕ} {x : List Byte}

/-- INTERNAL: `SC_Read` on a file that has more bytes. -/
theorem read_of_more (hid : 2 ≤ s.readRegister 6 ∧ s.readRegister 6 ≤ 9)
    (hfile : b.file s.fs (s.readRegister 6).toNat = some p) (hcontents : v.Contents s.fs p x)
    (hcursor : v.cursor s.fs p = some (q : ℤ)) (hmore : q < x.length)
    (hcount : s.readRegister 5 = charcount) (hpos : 0 < charcount) (htlb : s.machine.tlb = none)
    (hx : Exclusive s.machine)
    (hmapped : ∀ i < charcount + 1, (place s.machine (s.registers.gp 4 + BitVec.ofNat 32 i)).isSome ∧
      Writable s.machine (s.registers.gp 4 + BitVec.ofNat 32 i)) (hfit : charcount + 1 ≤ memorySize) :
    ∃ s', s.read b env = some (.result ((x.drop q).take charcount).length, s') ∧
      CopiedOut s.machine s'.machine (s.registers.gp 4) (Function.update
        (filled ((x.drop q).take charcount) env.buff) ((x.drop q).take charcount).length 0#8)
        (charcount + 1) := by
  obtain ⟨fs', hread⟩ := v.read env.file env.buff hcontents hcursor (show charcount ≤ memorySize by omega)
  have hdata : 0 < ((x.drop q).take charcount).length := by
    rw [List.length_take, List.length_drop]
    omega
  generalize (x.drop q).take charcount = data at hread hdata ⊢
  simp only [memorySize, numPhysPages, pageSize, sectorSize] at hfit
  obtain ⟨count, m', hcopy, hcopied⟩ := system2User_eq htlb hx (show 0 < charcount + 1 by omega)
    (by omega) hmapped
  rw [Nat.cast_succ] at hcopy
  refine ⟨{ s with machine := m', fs := fs' }, ?_, hcopied⟩
  have haccepts : b.acceptsRead s.fs (s.readRegister 6) charcount = true := by
    simp only [FileBuild.acceptsRead, hfile, Option.isSome_some, Bool.and_true, Bool.and_eq_true,
      Bool.not_eq_true', decide_eq_false_iff_not, decide_eq_true_eq]
    omega
  have hcall : b.scRead s.fs env.file (s.readRegister 6) charcount env.buff (0, env.buff) =
      some ((data.length : ℤ), some (Function.update (filled data env.buff) data.length 0#8), fs') := by
    unfold FileBuild.scRead
    rw [if_neg (by omega), hfile]
    simp only [if_neg (show ¬ (charcount : ℤ) ≤ 0 by omega), if_neg (show ¬ s.readRegister 6 = 0 by omega),
      hread, Option.map_some, FileBuild.transferred, if_neg (show ¬ (data.length : ℤ) < 0 by omega),
      if_neg (show ¬ (data.length : ℤ) = 0 by omega), if_neg (show ¬ (data.length : ℤ) ≤ 0 by omega),
      Int.toNat_natCast]
  have hnot0 : (s.readRegister 6 == 0) = false := beq_eq_false_iff_ne.mpr (by omega)
  unfold KernelState.read KernelState.consoleRead KernelState.copyToUser
  simp only [hcount, haccepts, allocates_succ (show charcount + 1 < 2 ^ 31 by omega), hnot0, hcall,
    hcopy, Bool.not_true, Bool.and_false, Bool.false_eq_true, if_false, Option.bind_eq_bind, Option.bind_some,
    Option.pure_def, Option.map_some]

end Calls

/-- SOURCE: userprog/exception.cc:269-311 — **`Read` gives the user the bytes at the cursor and leaves
the memory behind the buffer alone exactly if the copy is harmless**: if the bytes behind a zero byte
of the data, and a zero byte behind data as long as the buffer, are in the user's memory already. -/
theorem read_exactly_iff (k : Build) {s : KernelState k.State} {env : CallEnv k.Answer}
    {p q charcount : ℕ} {x : List Byte} (hid : 2 ≤ s.readRegister 6 ∧ s.readRegister 6 ≤ 9)
    (hfile : k.calls.file s.fs (s.readRegister 6).toNat = some p)
    (hcontents : k.files.Contents s.fs p x) (hcursor : k.files.cursor s.fs p = some (q : ℤ))
    (hmore : q < x.length) (hcount : s.readRegister 5 = charcount) (hpos : 0 < charcount)
    (htlb : s.machine.tlb = none) (hx : Exclusive s.machine)
    (hmapped : ∀ i < charcount + 1, (place s.machine (s.registers.gp 4 + BitVec.ofNat 32 i)).isSome ∧
      Writable s.machine (s.registers.gp 4 + BitVec.ofNat 32 i)) :
    (∃ s', s.read k.calls env = some (.result ((x.drop q).take charcount).length, s') ∧
      ReadExactly s.machine s'.machine (s.registers.gp 4) charcount ((x.drop q).take charcount)) ↔
      CopyHarmless s.machine (s.registers.gp 4) charcount ((x.drop q).take charcount) := by
  have hint := (s.registers.gp 5).toInt_lt
  have hsmall : charcount + 1 ≤ 2 ^ 32 := by
    have : (s.registers.gp 5).toInt = charcount := hcount
    omega
  have hfit := hx.le_memorySize hsmall fun i hi => (hmapped i hi).1
  obtain ⟨s', hcall, hcopied⟩ := read_of_more k.files env hid hfile hcontents hcursor hmore
    hcount hpos htlb hx hmapped hfit
  have hiff := hcopied.readExactly_iff (List.length_take_le _ _) hsmall
  constructor
  · rintro ⟨s'', hcall', hexact⟩
    rw [hcall] at hcall'
    cases hcall'
    exact hiff.mp hexact
  · exact fun hharmless => ⟨s', hcall, hiff.mpr hharmless⟩

/-- The stub with a file of the host open for reading and writing as descriptor 2, at its beginning. -/
def oneFile (data : List Byte) : StubFileSystem where
  host := ⟨fun _ => none, fun _ => data, fun fd => if fd = 3 then some 0 else none⟩
  objects p := if p = 0 then some ⟨3, 0, 0⟩ else none
  file i := if i = 2 then some 0 else none

/-- A transfer of `charcount` bytes between descriptor 2 and address 0, where the user has `text`. -/
def transferCall (data text : List Byte) (charcount : BitVec 32) : KernelState StubFileSystem where
  registers :=
    { gp := fun r => if r = 5 then charcount else if r = 6 then 2#32 else 0#32
      hi := 0#32, lo := 0#32, pc := 0#32, nextPC := 4#32, prevPC := 0#32
      loadReg := 0, loadValue := 0#32, badVAddr := 0#32 }
  machine := ⟨textMemory text, none, some (firstFrames 1)⟩
  fs := oneFile data
  terminal := ⟨[], []⟩

/-- Nothing of interest from outside. -/
def quietEnv : CallEnv HostAnswer := ⟨0, ⟨none, 0, 0⟩, ⟨none, 0, 0⟩, fun _ => 0#8, 0#8, 0, 0⟩

theorem mapped_firstFrame {mem : Memory} {i : ℕ} (hi : i < pageSize) :
    (place ⟨mem, none, some (firstFrames 1)⟩ (0#32 + BitVec.ofNat 32 i)).isSome ∧
      Writable ⟨mem, none, some (firstFrames 1)⟩ (0#32 + BitVec.ofNat 32 i) := by
  simp only [pageSize, sectorSize] at hi
  have hlt : (0#32 + BitVec.ofNat 32 i).toNat < 1 * pageSize := by
    simp only [BitVec.zero_add, BitVec.toNat_ofNat, pageSize, sectorSize]
    omega
  rw [place_firstFrames mem (by decide) hlt]
  exact ⟨rfl, writable_firstFrames mem hlt⟩

/-- SOURCE: userprog/exception.cc:269-311 — the two bytes of a file read into a buffer of five. -/
theorem two_bytes_read : ∃ s', (transferCall [0x61#8, 0x62#8] [] 5#32).read StubFileSystem.build quietEnv =
    some (.result 2, s') ∧ ReadExactly (transferCall [0x61#8, 0x62#8] [] 5#32).machine s'.machine 0#32 5
      [0x61#8, 0x62#8] := by
  refine (read_exactly_iff .stub (s := transferCall [0x61#8, 0x62#8] [] 5#32) (p := 0) (q := 0)
    (x := [0x61#8, 0x62#8]) (by decide) rfl ⟨_, 0, rfl, rfl, rfl⟩ rfl (by decide)
    (show (5#32).toInt = ((5 : ℕ) : ℤ) by decide) (by decide) rfl (exclusive_firstFrames _ (by decide)) ?_).mpr ⟨?_, ?_⟩
  · exact fun i hi => mapped_firstFrame (hi.trans (by decide))
  · intro i hi hzero
    exact absurd (List.mem_of_mem_take hzero) (by decide)
  · exact fun hfull => absurd hfull (by decide)

/-- SOURCE: userprog/exception.cc:306-307 — three bytes read into a buffer of three; the byte behind
the buffer becomes zero. -/
theorem read_overwrites_next_byte :
    seenByte (transferCall [0x61#8, 0x62#8, 0x63#8] [1#8, 2#8, 3#8, 4#8] 3#32).machine 3#32 = some 4#8 ∧
    ((transferCall [0x61#8, 0x62#8, 0x63#8] [1#8, 2#8, 3#8, 4#8] 3#32).read StubFileSystem.build
      quietEnv).map (fun r => (r.1, seenByte r.2.machine 3#32)) = some (.result 3, some 0#8) := by
  decide +kernel

/-! ## From the user to a file or the console -/

/-- `Write` puts `r` of `charcount` bytes into its destination: a file that is open for writing, or the
console, which takes all of them. -/
inductive Receives (k : Build) (s : KernelState k.State) (charcount : ℕ) : ℕ → Prop where
  | console {p : ℕ} {type : ℤ} (id : s.readRegister 6 = 1) (file : k.calls.file s.fs 1 = some p)
      (typeOf : k.calls.typeOf s.fs p = some type) (writable : type ≠ 1) :
      Receives k s charcount charcount
  | file {p q : ℕ} {type : ℤ} {x : List Byte} (id : 2 ≤ s.readRegister 6 ∧ s.readRegister 6 ≤ 9)
      (file : k.calls.file s.fs (s.readRegister 6).toNat = some p)
      (typeOf : k.calls.typeOf s.fs p = some type) (writable : type ≠ 1)
      (contents : k.files.Contents s.fs p x) (cursor : k.files.cursor s.fs p = some (q : ℤ)) :
      Receives k s charcount (k.files.room x q charcount)

/-- The `r` bytes that a `Write` has put at the cursor of the file, or sent to the console, are the first
`r` bytes of `text`. -/
def WrittenExactly (k : Build) (s s' : KernelState k.State) (r : ℕ) (text : List Byte) : Prop :=
  if s.readRegister 6 = 1 then s'.terminal.display = s.terminal.display ++ text.take r
  else ∃ (p q : ℕ) (x : List Byte), k.calls.file s.fs (s.readRegister 6).toNat = some p ∧
    k.files.cursor s.fs p = some (q : ℤ) ∧ k.files.Contents s'.fs p x ∧
    ∀ i < r, x[q + i]? = text[i]?

/-- INTERNAL: `SC_Write` up to the destination. -/
theorem write_of_accepted {σ κ : Type} {b : FileBuild σ κ} {s : KernelState σ} (env : CallEnv κ)
    {p charcount r : ℕ} {type : ℤ} {text : List Byte} {fs' : σ}
    (hid : 1 ≤ s.readRegister 6 ∧ s.readRegister 6 ≤ 9)
    (hfile : b.file s.fs (s.readRegister 6).toNat = some p) (htype : b.typeOf s.fs p = some type)
    (hwritable : type ≠ 1) (hcount : s.readRegister 5 = charcount) (hpos : 0 < charcount)
    (htlb : s.machine.tlb = none) (hstored : HoldsText s.machine (s.registers.gp 4) text)
    (hlen : text.length = charcount) (hfit : charcount ≤ memorySize) (hr : 0 < r)
    (hdest : (if s.readRegister 6 = 1 then some ((charcount : ℤ), s.fs)
      else b.write s.fs env.file p (fetched text charcount) charcount) = some ((r : ℤ), fs')) :
    ∃ s', s.write b env = some (.result r, s') ∧ s'.fs = fs' ∧ s'.terminal =
      if s.readRegister 6 = 1 then s.terminal.write (fetched text charcount) charcount
      else s.terminal := by
  simp only [memorySize, numPhysPages, pageSize, sectorSize] at hfit
  obtain ⟨m', hfetch, -, -⟩ := user2System_text htlb (show charcount + 1 < 2 ^ 31 by omega) hstored
    (Or.inl hlen.ge)
  have haccepts : b.acceptsWrite s.fs (s.readRegister 6) charcount = true := by
    simp only [FileBuild.acceptsWrite, hfile, htype, Option.any_some, ne_eq, Option.some.injEq,
      hwritable, not_false_eq_true, decide_true, Bool.and_true, Bool.and_eq_true, Bool.not_eq_true',
      decide_eq_false_iff_not, decide_eq_true_eq]
    omega
  have hcall : b.scWrite s.fs env.file (s.readRegister 6) charcount (fetched text charcount) =
      some ((r : ℤ), fs') := by
    unfold FileBuild.scWrite
    rw [if_neg (by omega), hfile]
    simp only [htype, if_neg hwritable, if_neg (show ¬ (charcount : ℤ) ≤ 0 by omega), hdest,
      Option.map_some, FileBuild.transferred, if_neg (show ¬ (r : ℤ) < 0 by omega),
      if_neg (show ¬ (r : ℤ) = 0 by omega)]
  refine ⟨⟨s.registers, m', fs', if s.readRegister 6 = 1
    then s.terminal.write (fetched text charcount) charcount else s.terminal⟩, ?_, rfl, rfl⟩
  unfold KernelState.write KernelState.copyFromUser
  simp only [hcount, haccepts, hfetch, hcall, if_true, Option.bind_eq_bind, Option.bind_some,
    Option.pure_def, Bool.true_and, beq_iff_eq]

/-- INTERNAL: what `Write` leaves in its destination are the bytes that `User2System` has fetched. -/
theorem Receives.write {k : Build} {s : KernelState k.State} {charcount r : ℕ} {text : List Byte}
    (h : Receives k s charcount r) (hr : 0 < r) (hcount : s.readRegister 5 = charcount)
    (htlb : s.machine.tlb = none) (hstored : HoldsText s.machine (s.registers.gp 4) text)
    (hlen : text.length = charcount) (hfit : charcount ≤ memorySize) (env : CallEnv k.Answer) :
    r ≤ charcount ∧ ∃ s', s.write k.calls env = some (.result r, s') ∧
      (WrittenExactly k s s' r text ↔ ∀ i < r, some (fetched text charcount i) = text[i]?) := by
  cases h with
  | console hid hfile htype hwritable =>
    obtain ⟨s', hcall, -, hterminal⟩ := write_of_accepted env (by omega)
      (by rw [hid]; exact hfile) htype hwritable hcount hr htlb hstored hlen hfit hr (if_pos hid)
    refine ⟨Nat.le_refl _, s', hcall, ?_⟩
    unfold WrittenExactly
    rw [if_pos hid, hterminal, if_pos hid, List.take_of_length_le hlen.le, ← map_range_eq_iff hlen]
    exact List.append_right_inj _
  | @file p q _ x hid hfile htype hwritable hcontents hcursor =>
    obtain ⟨fs', x', hwrite, hcontents', hbytes⟩ :=
      k.files.write env.file (fetched text charcount) hcontents hcursor hfit
    have hle := k.files.room_le x q charcount
    obtain ⟨s', hcall, hfs, -⟩ := write_of_accepted env ⟨by omega, hid.2⟩ hfile htype hwritable
      hcount (hr.trans_le hle) htlb hstored hlen hfit hr ((if_neg (by omega)).trans hwrite)
    refine ⟨hle, s', hcall, ?_⟩
    unfold WrittenExactly
    rw [if_neg (by omega)]
    constructor
    · rintro ⟨p', q', x'', hfile', hcursor', hcontents'', hcells⟩ i hi
      rw [hfile] at hfile'
      cases hfile'
      rw [hcursor, Option.some.injEq, Int.natCast_inj] at hcursor'
      subst hcursor'
      rw [hfs] at hcontents''
      rw [← hcells i hi, k.files.unique hcontents'' hcontents', hbytes i hi]
    · intro hcells
      refine ⟨p, q, x', hfile, hcursor, hfs ▸ hcontents', fun i hi => ?_⟩
      rw [hbytes i hi, hcells i hi]

/-- SOURCE: userprog/exception.cc:312-350 — **`Write` writes the user's bytes exactly if only zeros
follow a zero byte among those it writes.** -/
theorem written_exactly_iff (k : Build) {s : KernelState k.State} {env : CallEnv k.Answer}
    {charcount r : ℕ} {text : List Byte} (hdest : Receives k s charcount r) (hr : 0 < r)
    (hcount : s.readRegister 5 = charcount) (htlb : s.machine.tlb = none)
    (hx : Exclusive s.machine) (hstored : HoldsText s.machine (s.registers.gp 4) text)
    (hlen : text.length = charcount) :
    (∃ s', s.write k.calls env = some (.result r, s') ∧ WrittenExactly k s s' r text) ↔
      ∀ i < r, 0#8 ∈ text.take i → text[i]? = some 0#8 := by
  have hint := (s.registers.gp 5).toInt_lt
  have hsmall : charcount ≤ 2 ^ 32 := by
    have hreg : (s.registers.gp 5).toInt = charcount := hcount
    omega
  have hfit := hx.le_memorySize hsmall fun i hi => hstored.isSome_place (by omega)
  obtain ⟨hle, s', hcall, hiff⟩ := hdest.write hr hcount htlb hstored hlen hfit env
  have hcell : ∀ i < r, some (fetched text charcount i) = text[i]? ↔
      (0#8 ∈ text.take i → text[i]? = some 0#8) := by
    intro i hi
    rw [List.getElem?_eq_getElem (by omega), Option.some.injEq, Option.some.injEq]
    exact fetched_eq_iff (by omega) (by omega)
  rw [← forall₂_congr hcell, ← hiff]
  constructor
  · rintro ⟨s'', hcall', hwritten⟩
    rw [hcall] at hcall'
    cases hcall'
    exact hwritten
  · exact fun hwritten => ⟨s', hcall, hwritten⟩

/-- SOURCE: userprog/exception.cc:312-350 — two bytes written to an empty file. -/
theorem two_bytes_written : ∃ s', (transferCall [] [0x61#8, 0x62#8] 2#32).write StubFileSystem.build
    quietEnv = some (.result 2, s') ∧
      WrittenExactly .stub (transferCall [] [0x61#8, 0x62#8] 2#32) s' 2 [0x61#8, 0x62#8] := by
  have hdest : Receives .stub (transferCall [] [0x61#8, 0x62#8] 2#32) 2 2 :=
    .file (p := 0) (q := 0) (x := []) (by decide) rfl rfl (show (0 : ℤ) ≠ 1 by decide)
      ⟨_, 0, rfl, rfl, rfl⟩ rfl
  have hstored : HoldsText (transferCall [] [0x61#8, 0x62#8] 2#32).machine 0#32 [0x61#8, 0x62#8] := by
    intro k hk
    have hall := holdsText_textMemory (show 1 ≤ numPhysPages by decide)
      (show [0x61#8, 0x62#8].length < 1 * pageSize by decide) k (hk.trans (by decide))
    rwa [List.getElem_append_left hk] at hall
  refine (written_exactly_iff .stub hdest (by decide) (by decide) rfl
    (exclusive_firstFrames _ (by decide)) hstored rfl).mpr fun i hi hzero => ?_
  exact absurd (List.mem_of_mem_take hzero) (by decide)

/-- SOURCE: userprog/exception.cc:13-17, 328 — of the bytes `00 61` two zeros are written. -/
theorem write_loses_byte_behind_zero :
    ((transferCall [] [0x00#8, 0x61#8] 2#32).write StubFileSystem.build quietEnv).map
      (fun r => (r.1, r.2.fs.host.data 0)) = some (.result 2, [0x00#8, 0x00#8]) := by
  decide +kernel

end Nachos.Analysis
