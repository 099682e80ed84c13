import Nachos.Library.Rotation
import Nachos.Library.Simulation
import Nachos.Model.DiskTiming

/-!
# `ComputeLatency` and a disk that turns

What the arithmetic of `ComputeLatency` is for: a disk whose head moves over the tracks, one in
`SeekTime`, and under which a sector passes in `RotationTime` (`SpinningDisk`). A request is
complete when its sector has passed after the head has got to the track. A read is also complete
one `RotationTime` later if the sector is in the track buffer: if it has passed as a whole since the
head came to the track.

The code keeps, instead of the time since when the head is on its track, the first sector boundary
after it (`SpinsAs`). All its times are then multiples of `RotationTime`, except `seek` and the
clock itself, and its divisions are exact. The largest of its sums is the time at which the request
is complete: if that is an `int`, they all are.
-/

set_option autoImplicit false

namespace Nachos.Analysis

open Nachos.Library Nachos.Model

/-- INTERNAL: a disk with its head on `track` since the time `since`; `due` is when the request is complete.
SRCLINE: machine/disk.h:20-46 -/
structure SpinningDisk where
  now : ℤ
  track : ℤ
  since : ℤ
  due : Option ℤ

/-- INTERNAL: the first sector boundary from `t` on.
SRCLINE: machine/disk.cc:186-192 -/
def roundUp (t : ℤ) : ℤ := rotationTime * nextBoundary rotationTime t

/-- INTERNAL: when the sector has passed, the first time from `t` on.
SRCLINE: machine/disk.cc:211-226 -/
def passedBy (sector t : ℤ) : ℤ := rotationTime * (nextPass rotationTime sectorsPerTrack sector t + 1)

/-- INTERNAL: the time the head takes from `track` to the track of `sector`.
SRCLINE: machine/disk.cc:168-176 -/
def seekTicks (track sector : ℤ) : ℤ := |sector / sectorsPerTrack - track| * seekTime

/-- INTERNAL: when the head that is on `track` now gets to the track of `sector`.
SRCLINE: machine/disk.cc:168-176 -/
def SpinningDisk.arrival (d : SpinningDisk) (sector : ℤ) : ℤ := d.now + seekTicks d.track sector

/-- INTERNAL: the sector is in the track buffer at the next sector boundary.
SRCLINE: machine/disk.cc:222-226 -/
def SpinningDisk.Buffered (d : SpinningDisk) (sector : ℤ) : Prop :=
  sector / sectorsPerTrack = d.track ∧
    passedBy sector d.since ≤ roundUp d.now

instance (d : SpinningDisk) (sector : ℤ) : Decidable (d.Buffered sector) :=
  inferInstanceAs (Decidable (_ ∧ _))

/-- INTERNAL: when a request that is made now is complete.
SRCLINE: machine/disk.cc:211-230 -/
def SpinningDisk.complete (d : SpinningDisk) (sector : ℤ) (writing : Bool) : ℤ :=
  if writing = false ∧ d.Buffered sector then d.now + rotationTime
  else passedBy sector (d.arrival sector)

/-- INTERNAL: since when the head has been on the track once it has got to that of `sector`.
SRCLINE: machine/disk.cc:227-229 -/
def SpinningDisk.onTrack (d : SpinningDisk) (sector : ℤ) : ℤ :=
  if sector / sectorsPerTrack = d.track then d.since else d.arrival sector

/-- INTERNAL: the same events for the disk that turns, as long as the times are `int`s.
SRCLINE: machine/disk.cc:115-166 -/
def SpinningDisk.step (d : SpinningDisk) : DiskEvent → Option SpinningDisk
  | .pass ticks => if d.now + ticks ≤ 2147483647 then some { d with now := d.now + ticks } else none
  | .request sector writing =>
    if d.due = none ∧ ValidSector sector ∧ d.complete sector writing ≤ 2147483647 then
      some { d with
        track := sector / sectorsPerTrack
        since := d.onTrack sector
        due := some (d.complete sector writing) }
    else none
  | .done => do
    let when ← d.due
    if when ≤ d.now then return { d with due := none } else none

/-- INTERNAL: what the fields of the code stand for.
SRCLINE: machine/disk.h:83-85 -/
structure SpinsAs (s : DiskClock) (d : SpinningDisk) : Prop where
  now : s.totalTicks = d.now
  due : s.due = d.due
  active : s.head.active = d.due.isSome
  last : ValidSector s.head.lastSector
  track : s.head.lastSector / sectorsPerTrack = d.track
  buffer : s.head.bufferInit = roundUp d.since
  bufferFits : s.head.bufferInit ≤ 2147483647
  nowNonneg : 0 ≤ d.now
  sinceNonneg : 0 ≤ d.since
  arrived : d.since ≤ d.due.getD d.now

/-! ## Times -/

theorem asInt_of_nonneg {x : ℤ} (h : 0 ≤ x) :
    asInt x = if x ≤ 2147483647 then some x else none :=
  if_congr (and_iff_right (by omega)) rfl rfl

theorem asInt_of_le {x : ℤ} (h : 0 ≤ x) (hle : x ≤ 2147483647) : asInt x = some x := by
  rw [asInt_of_nonneg h, if_pos hle]

theorem le_roundUp (t : ℤ) : t ≤ roundUp t := le_nextBoundary (by decide)

theorem roundUp_lt (t : ℤ) : roundUp t < t + rotationTime := nextBoundary_lt (by decide)

theorem roundUp_nonneg {t : ℤ} (ht : 0 ≤ t) : 0 ≤ roundUp t := ht.trans (le_roundUp t)

theorem nextBoundary_nonneg {t : ℤ} (ht : 0 ≤ t) : 0 ≤ nextBoundary rotationTime t := by
  have h := roundUp_nonneg ht
  unfold roundUp rotationTime at *
  omega

theorem roundUp_tdiv (t : ℤ) : (roundUp t).tdiv rotationTime = nextBoundary rotationTime t :=
  Int.mul_tdiv_cancel_left _ (by decide)

theorem roundUp_sub_tdiv (t u : ℤ) : (roundUp t - roundUp u).tdiv rotationTime =
    nextBoundary rotationTime t - nextBoundary rotationTime u := by
  unfold roundUp
  rw [← mul_sub]
  exact Int.mul_tdiv_cancel_left _ (by decide)

/-- INTERNAL: the rest of the sector that is under the head, as the code finds it. -/
theorem rest_eq {t : ℤ} (ht : 0 ≤ t) :
    (if 0 < t.tmod rotationTime then rotationTime - t.tmod rotationTime else 0) = roundUp t - t := by
  rw [Int.tmod_eq_emod_of_nonneg ht]
  unfold roundUp nextBoundary rotationTime
  split <;> omega

/-- INTERNAL: the first time a sector has passed from `t` on, within one turn of the disk. -/
theorem passedBy_bounds (sector t : ℤ) :
    ∃ k, t ≤ rotationTime * k ∧ k % sectorsPerTrack = sector % sectorsPerTrack ∧
      passedBy sector t = rotationTime * (k + 1) ∧ roundUp t + rotationTime ≤ passedBy sector t ∧
      passedBy sector t < t + rotationTime + rotationTime * sectorsPerTrack := by
  obtain ⟨⟨hstart, hslot⟩, -⟩ :=
    nextPass_isLeast (T := rotationTime) (n := sectorsPerTrack) (by decide) (by decide) sector t
  have hend := roundUp_lt t
  refine ⟨nextPass rotationTime sectorsPerTrack sector t, hstart, hslot, rfl, ?_, ?_⟩
  all_goals
    unfold passedBy nextPass roundUp rotationTime sectorsPerTrack at *
    omega

theorem moduloDiff_eq {target start : ℤ} (htarget : 0 ≤ target) (hstart : 0 ≤ start) :
    DiskHead.moduloDiff target start = (target - start) % sectorsPerTrack := by
  unfold DiskHead.moduloDiff
  rw [Int.tmod_eq_emod_of_nonneg htarget, Int.tmod_eq_emod_of_nonneg hstart]
  have hnonneg : (0 : ℤ) ≤ target % sectorsPerTrack - start % sectorsPerTrack + sectorsPerTrack := by
    unfold sectorsPerTrack
    omega
  rw [Int.tmod_eq_emod_of_nonneg hnonneg]
  unfold sectorsPerTrack
  omega

theorem seekTicks_nonneg (track sector : ℤ) : 0 ≤ seekTicks track sector :=
  mul_nonneg (abs_nonneg _) (by decide)

/-- INTERNAL: a seek goes at most over all the tracks of the disk. -/
theorem seekTicks_le {last sector : ℤ} (hlast : ValidSector last) (hsector : ValidSector sector) :
    seekTicks (last / sectorsPerTrack) sector ≤ 15500 := by
  obtain ⟨hlast₁, hlast₂⟩ := hlast
  obtain ⟨hsector₁, hsector₂⟩ := hsector
  unfold seekTicks seekTime
  unfold numSectors sectorsPerTrack numTracks at *
  rw [abs_eq_max_neg]
  omega

theorem seekTicks_eq_zero_iff {track sector : ℤ} :
    seekTicks track sector = 0 ↔ sector / sectorsPerTrack = track := by
  unfold seekTicks
  rw [mul_eq_zero, abs_eq_zero, sub_eq_zero]
  exact or_iff_left (by decide)

section Completion

variable (d : SpinningDisk) (sector : ℤ) (writing : Bool)

theorem now_le_arrival : d.now ≤ d.arrival sector := by
  have hway := seekTicks_nonneg d.track sector
  unfold SpinningDisk.arrival
  omega

/-- INTERNAL: a request is complete after the boundary at which its sector can begin to pass, and
later than now. -/
theorem roundUp_le_complete : roundUp (d.arrival sector) ≤ d.complete sector writing ∧
    d.now + rotationTime ≤ d.complete sector writing := by
  have hnow := now_le_arrival d sector
  have hround := le_roundUp (d.arrival sector)
  obtain ⟨-, -, -, -, hbegin, -⟩ := passedBy_bounds sector (d.arrival sector)
  unfold SpinningDisk.complete
  split
  next hbuffered =>
    have hzero := seekTicks_eq_zero_iff.mpr hbuffered.2.1
    have harrive : d.arrival sector = d.now := by rw [SpinningDisk.arrival, hzero, add_zero]
    rw [harrive]
    exact ⟨(roundUp_lt d.now).le, le_rfl⟩
  next =>
    unfold rotationTime at *
    exact ⟨by omega, by omega⟩

end Completion

section Refinement

variable {s : DiskClock} {d : SpinningDisk} {sector : ℤ}

theorem SpinsAs.idle_iff (h : SpinsAs s d) : s.head.active = false ↔ d.due = none := by
  rw [h.active]
  cases d.due <;> simp

theorem SpinsAs.arrival_nonneg (h : SpinsAs s d) (sector : ℤ) : 0 ≤ d.arrival sector :=
  h.nowNonneg.trans (now_le_arrival d sector)

theorem SpinsAs.seekTicks_le (h : SpinsAs s d) (hsector : ValidSector sector) :
    seekTicks d.track sector ≤ 15500 := by
  rw [← h.track]
  exact Nachos.Analysis.seekTicks_le h.last hsector

/-- INTERNAL: the time to seek is that of the tracks between, and the rest goes up to the boundary. -/
theorem SpinsAs.timeToSeek_eq (h : SpinsAs s d) (hsector : ValidSector sector) :
    s.head.timeToSeek s.totalTicks sector =
      if d.arrival sector ≤ 2147483647 then
        some (seekTicks d.track sector, roundUp (d.arrival sector) - d.arrival sector)
      else none := by
  have hnonneg := seekTicks_nonneg d.track sector
  have hle := h.seekTicks_le hsector
  have harrive := h.arrival_nonneg sector
  have hseek : (((sector.tdiv sectorsPerTrack - s.head.lastSector.tdiv sectorsPerTrack).natAbs : ℕ) :
      ℤ) * seekTime = seekTicks d.track sector := by
    rw [Int.tdiv_eq_ediv_of_nonneg hsector.1, Int.tdiv_eq_ediv_of_nonneg h.last.1,
      Int.natCast_natAbs, h.track]
    rfl
  have hsum : s.totalTicks + seekTicks d.track sector = d.arrival sector := by
    rw [h.now]
    rfl
  unfold DiskHead.timeToSeek
  simp only [hseek, asInt_of_le hnonneg (by omega), Option.bind_eq_bind, Option.bind_some, hsum,
    asInt_of_nonneg harrive]
  split
  · rw [Option.bind_some, rest_eq harrive]
    rfl
  · rfl

/-- INTERNAL: `timeAfter` is the boundary after the seek. -/
theorem SpinsAs.timeAfter_eq (h : SpinsAs s d) (sector : ℤ) :
    s.totalTicks + seekTicks d.track sector + (roundUp (d.arrival sector) - d.arrival sector) =
      roundUp (d.arrival sector) := by
  rw [h.now]
  exact add_sub_cancel _ _

/-- INTERNAL: the test of the track buffer, in a state in which the difference of the times is an
`int`. -/
theorem SpinsAs.inTrackBuffer_eq (h : SpinsAs s d) (hsector : ValidSector sector) (writing : Bool)
    (hfits : roundUp (d.arrival sector) ≤ 2147483647) :
    s.head.inTrackBuffer (seekTicks d.track sector) (roundUp (d.arrival sector)) sector writing =
      some (decide (writing = false ∧ d.Buffered sector)) := by
  unfold DiskHead.inTrackBuffer
  by_cases hread : writing = false ∧ seekTicks d.track sector = 0
  · have hround := roundUp_nonneg (h.arrival_nonneg sector)
    have hbuffer := roundUp_nonneg h.sinceNonneg
    have hlast := h.bufferFits
    have harrive : d.arrival sector = d.now := by rw [SpinningDisk.arrival, hread.2, add_zero]
    rw [h.buffer] at hlast ⊢
    have hint : asInt (roundUp (d.arrival sector) - roundUp d.since) =
        some (roundUp (d.arrival sector) - roundUp d.since) := if_pos ⟨by omega, by omega⟩
    rw [if_pos hread, hint, Option.bind_eq_bind, Option.bind_some, roundUp_sub_tdiv, roundUp_tdiv,
      moduloDiff_eq hsector.1 (nextBoundary_nonneg h.sinceNonneg), harrive]
    refine congrArg some (decide_eq_decide.mpr ?_)
    -- the buffer has what has passed up to the next boundary
    rw [and_iff_right hread.1, SpinningDisk.Buffered,
      and_iff_right (seekTicks_eq_zero_iff.mp hread.2)]
    unfold passedBy nextPass roundUp rotationTime
    constructor <;> intro hpassed <;> omega
  · rw [if_neg hread]
    refine congrArg some (decide_eq_false fun hbuffered => hread ?_).symm
    exact ⟨hbuffered.1, seekTicks_eq_zero_iff.mpr hbuffered.2.1⟩

/-- INTERNAL: `ComputeLatency` is right as long as the boundary after the seek is an `int`. -/
theorem SpinsAs.computeLatency_eq (h : SpinsAs s d) (hsector : ValidSector sector)
    (writing : Bool) :
    s.head.computeLatency s.totalTicks sector writing =
      if roundUp (d.arrival sector) ≤ 2147483647 then some (d.complete sector writing - d.now)
      else none := by
  have hround := le_roundUp (d.arrival sector)
  unfold DiskHead.computeLatency
  rw [h.timeToSeek_eq hsector]
  by_cases hfits : roundUp (d.arrival sector) ≤ 2147483647
  · have hboundary := nextBoundary_nonneg (h.arrival_nonneg sector)
    have hseek := seekTicks_nonneg d.track sector
    have hseekLe := h.seekTicks_le hsector
    rw [if_pos hfits, if_pos (hround.trans hfits)]
    simp only [Option.bind_eq_bind, Option.bind_some, h.timeAfter_eq,
      asInt_of_le (roundUp_nonneg (h.arrival_nonneg sector)) hfits,
      h.inTrackBuffer_eq hsector writing hfits, decide_eq_true_eq]
    unfold SpinningDisk.complete
    split
    · exact congrArg some (by omega)
    · rw [roundUp_tdiv, moduloDiff_eq hsector.1 hboundary]
      have hsum' : seekTicks d.track sector + (roundUp (d.arrival sector) - d.arrival sector +
          (sector - nextBoundary rotationTime (d.arrival sector)) % sectorsPerTrack * rotationTime) +
            rotationTime = passedBy sector (d.arrival sector) - d.now := by
        unfold passedBy nextPass roundUp SpinningDisk.arrival rotationTime
        omega
      obtain ⟨-, -, -, -, hbegin, hturn⟩ := passedBy_bounds sector (d.arrival sector)
      have hnow : d.arrival sector = d.now + seekTicks d.track sector := rfl
      rw [hsum']
      unfold rotationTime sectorsPerTrack at *
      exact asInt_of_le (by omega) (by omega)
  · rw [if_neg hfits]
    split
    · rw [Option.bind_eq_bind, Option.bind_some]
      simp only [h.timeAfter_eq, asInt_of_nonneg (roundUp_nonneg (h.arrival_nonneg sector)), if_neg hfits]
      rfl
    · rfl

/-- INTERNAL: `UpdateLast` stores the boundary after a seek. -/
theorem SpinsAs.updateLast_eq (h : SpinsAs s d) (hsector : ValidSector sector)
    (hfits : roundUp (d.arrival sector) ≤ 2147483647) :
    { s.head with active := true }.updateLast s.totalTicks sector =
      some ⟨sector, roundUp (d.onTrack sector), true⟩ := by
  have hseek : { s.head with active := true }.timeToSeek s.totalTicks sector =
      some (seekTicks d.track sector, roundUp (d.arrival sector) - d.arrival sector) := by
    have hround := le_roundUp (d.arrival sector)
    have heq := h.timeToSeek_eq hsector
    rw [if_pos (hround.trans hfits)] at heq
    exact heq
  unfold DiskHead.updateLast SpinningDisk.onTrack
  simp only [hseek, Option.bind_eq_bind, Option.bind_some, h.timeAfter_eq,
    asInt_of_le (roundUp_nonneg (h.arrival_nonneg sector)) hfits]
  by_cases htrack : sector / sectorsPerTrack = d.track
  · rw [if_neg (not_not.mpr (seekTicks_eq_zero_iff.mpr htrack)), if_pos htrack, h.buffer]
    rfl
  · rw [if_pos fun hzero => htrack (seekTicks_eq_zero_iff.mp hzero), if_neg htrack]
    rfl

/-- INTERNAL: **a request, in the times of the disk that turns**. -/
theorem SpinsAs.request_eq (h : SpinsAs s d) (hidle : d.due = none) (hsector : ValidSector sector)
    (writing : Bool) :
    s.step (.request sector writing) =
      if d.complete sector writing ≤ 2147483647 then
        some { s with
          head := ⟨sector, roundUp (d.onTrack sector), true⟩
          due := some (d.complete sector writing) }
      else none := by
  obtain ⟨hround, hlater⟩ := roundUp_le_complete d sector writing
  have hpos : (0 : ℤ) < rotationTime := by decide
  have hnow := h.nowNonneg
  have hfuture : 0 < d.complete sector writing - d.now := by omega
  have hwhen : dueTime s.totalTicks (d.complete sector writing - d.now) =
      if d.complete sector writing ≤ 2147483647 then some (d.complete sector writing) else none := by
    unfold dueTime
    have hcomplete : 0 ≤ d.complete sector writing := by omega
    simp only [h.now, add_sub_cancel, asInt_of_nonneg hcomplete, hfuture, if_true]
    split <;> rfl
  by_cases hfits : roundUp (d.arrival sector) ≤ 2147483647
  · have hreq : s.head.request s.totalTicks sector writing =
        some (d.complete sector writing - d.now, ⟨sector, roundUp (d.onTrack sector), true⟩) := by
      unfold DiskHead.request
      rw [h.computeLatency_eq hsector, if_pos hfits, Option.bind_eq_bind, Option.bind_some,
        if_pos ⟨h.idle_iff.mpr hidle, hsector⟩, h.updateLast_eq hsector hfits]
      rfl
    unfold DiskClock.step
    simp only [hreq, hwhen, Option.bind_eq_bind, Option.bind_some]
    split <;> rfl
  · have hreq : s.head.request s.totalTicks sector writing = none := by
      unfold DiskHead.request
      rw [h.computeLatency_eq hsector, if_neg hfits]
      rfl
    rw [DiskClock.step, hreq, if_neg fun hle => hfits (hround.trans hle)]
    rfl

/-- INTERNAL: the head is on the track of a request before the request is complete. -/
theorem SpinsAs.onTrack_le (h : SpinsAs s d) (hidle : d.due = none) (sector : ℤ) (writing : Bool) :
    d.onTrack sector ≤ d.arrival sector ∧
      roundUp (d.onTrack sector) ≤ d.complete sector writing := by
  have harrived := h.arrived
  rw [hidle, Option.getD_none] at harrived
  have hle : d.onTrack sector ≤ d.arrival sector := by
    unfold SpinningDisk.onTrack
    split
    · exact harrived.trans (now_le_arrival d sector)
    · exact le_rfl
  have hmono : roundUp (d.onTrack sector) ≤ roundUp (d.arrival sector) := by
    have hk := nextBoundary_le (T := rotationTime) (by decide)
      (hle.trans (le_roundUp (d.arrival sector)))
    unfold roundUp rotationTime at *
    omega
  exact ⟨hle, hmono.trans (roundUp_le_complete d sector writing).1⟩

/-- INTERNAL: a request keeps what the fields stand for. -/
theorem SpinsAs.request (h : SpinsAs s d) (hidle : d.due = none) (hsector : ValidSector sector)
    {writing : Bool} (hfits : d.complete sector writing ≤ 2147483647) :
    SpinsAs { s with
        head := ⟨sector, roundUp (d.onTrack sector), true⟩
        due := some (d.complete sector writing) }
      { d with
        track := sector / sectorsPerTrack
        since := d.onTrack sector
        due := some (d.complete sector writing) } := by
  obtain ⟨-, hround⟩ := h.onTrack_le hidle sector writing
  refine ⟨h.now, rfl, rfl, hsector, rfl, rfl, hround.trans hfits, h.nowNonneg, ?_, ?_⟩
  · show 0 ≤ d.onTrack sector
    unfold SpinningDisk.onTrack
    split
    · exact h.sinceNonneg
    · exact h.arrival_nonneg sector
  · exact (le_roundUp _).trans hround

/-- INTERNAL: one event of the code is one event of the disk that turns. -/
theorem spinsAs_step (s : DiskClock) (d : SpinningDisk) (e : DiskEvent) (h : SpinsAs s d) :
    Option.Rel SpinsAs (s.step e) (d.step e) := by
  cases e with
  | pass ticks =>
    have hnow := h.nowNonneg
    have hlater : 0 ≤ d.now + ticks := by omega
    rw [SpinningDisk.step, DiskClock.step, h.now, asInt_of_nonneg hlater]
    split
    · refine .some { h with now := rfl, nowNonneg := hlater, arrived := ?_ }
      have harrived := h.arrived
      show d.since ≤ d.due.getD (d.now + ticks)
      cases hdue : d.due with
      | none =>
        rw [hdue] at harrived
        exact harrived.trans (by simp)
      | some when =>
        rw [hdue] at harrived
        exact harrived
    · exact .none
  | request sector writing =>
    by_cases hok : d.due = none ∧ ValidSector sector
    · rw [SpinningDisk.step, h.request_eq hok.1 hok.2]
      by_cases hfits : d.complete sector writing ≤ 2147483647
      · rw [if_pos hfits, if_pos ⟨hok.1, hok.2, hfits⟩]
        exact .some (h.request hok.1 hok.2 hfits)
      · rw [if_neg hfits, if_neg fun hall => hfits hall.2.2]
        exact .none
    · have hrefuse : s.head.request s.totalTicks sector writing = none := by
        unfold DiskHead.request
        cases s.head.computeLatency s.totalTicks sector writing with
        | none => rfl
        | some ticks => exact if_neg fun hpass => hok ⟨h.idle_iff.mp hpass.1, hpass.2⟩
      rw [SpinningDisk.step, if_neg fun hall => hok ⟨hall.1, hall.2.1⟩, DiskClock.step, hrefuse]
      exact .none
  | done =>
    rw [SpinningDisk.step, DiskClock.step, h.due, h.now]
    cases hdue : d.due with
    | none => exact .none
    | some when =>
      have harrived := h.arrived
      rw [hdue] at harrived
      show Option.Rel SpinsAs (if when ≤ d.now then _ else none) (if when ≤ d.now then _ else none)
      split
      next hpast =>
        exact .some { h with
          now := rfl
          due := rfl
          active := rfl
          arrived := harrived.trans hpast }
      next => exact .none

/-- INTERNAL: the disk as it starts, with its head on the first track.
SRCLINE: machine/disk.cc:43-67 -/
def SpinningDisk.new (now : Fin 2147483648) : SpinningDisk :=
  { now := now.val, track := 0, since := 0, due := none }

theorem spinsAs_new (now : Fin 2147483648) : SpinsAs (DiskClock.new now) (SpinningDisk.new now) :=
  ⟨rfl, rfl, rfl, show ValidSector 0 by decide, rfl, rfl, show (0 : ℤ) ≤ 2147483647 by decide,
    Int.natCast_nonneg _, le_rfl, Int.natCast_nonneg _⟩

/-- SOURCE: machine/disk.cc:232-253 — in every run the requests are complete when they are on a disk
that turns under its head, one sector in `RotationTime`, whose head moves one track in
`SeekTime` and which keeps what has passed since in a track buffer. The code refuses a run where
that disk does, or where it would be complete at a time that is not an `int`. -/
theorem disk_turns (now : Fin 2147483648) (es : List DiskEvent) :
    (run DiskClock.step (DiskClock.new now) es).map (fun s => (s.totalTicks, s.due)) =
      (run SpinningDisk.step (SpinningDisk.new now) es).map fun d => (d.now, d.due) := by
  have hrel := run_rel spinsAs_step (spinsAs_new now) es
  generalize run DiskClock.step (DiskClock.new now) es = x at hrel
  generalize run SpinningDisk.step (SpinningDisk.new now) es = y at hrel
  cases hrel with
  | some h =>
    rw [Option.map_some, Option.map_some, h.now, h.due]
  | none => rfl

theorem disk_turns_at {now : Fin 2147483648} {es : List DiskEvent}
    (hrun : run DiskClock.step (DiskClock.new now) es = some s) : ∃ d, SpinsAs s d := by
  have hrel := run_rel spinsAs_step (spinsAs_new now) es
  rw [hrun] at hrel
  generalize run SpinningDisk.step (SpinningDisk.new now) es = y at hrel
  cases hrel with
  | some h => exact ⟨_, h⟩

/-- INTERNAL: a request that is made, in the times of the disk that turns. -/
theorem SpinsAs.of_request {s' : DiskClock} {writing : Bool} (h : SpinsAs s d)
    (hreq : s.step (.request sector writing) = some s') :
    d.due = none ∧ ValidSector sector ∧ d.complete sector writing ≤ 2147483647 ∧
      s' = { s with
        head := ⟨sector, roundUp (d.onTrack sector), true⟩
        due := some (d.complete sector writing) } := by
  have hok : d.due = none ∧ ValidSector sector := by
    obtain ⟨⟨ticks, head⟩, hticks, -⟩ := Option.bind_eq_some_iff.mp hreq
    obtain ⟨ticks', -, hassert⟩ := Option.bind_eq_some_iff.mp hticks
    rw [Option.ite_none_right_eq_some] at hassert
    exact ⟨h.idle_iff.mp hassert.1.1, hassert.1.2⟩
  rw [h.request_eq hok.1 hok.2, Option.ite_none_right_eq_some, Option.some.injEq] at hreq
  exact ⟨hok.1, hok.2, hreq.1, hreq.2.symm⟩

/-- INTERNAL: on a machine whose clock shows `now`, `Schedule` does not stop and puts an interrupt
for the time `when` on the list `pending`.
SRCLINE: machine/interrupt.cc:265-275 -/
def SchedulesFor (now fromNow when : ℤ) : Prop :=
  ∀ (A : Allocator) (handler : ℕ) (arg : ℤ) (type : IntType) (i : Interrupt),
    i.stats.totalTicks = now → Interrupt.schedule A handler arg fromNow type i =
      (Interrupt.sortedInsert A ⟨handler, arg, when, type, i.scheduled⟩ when >>= fun _ =>
        modify fun i => { i with scheduled := i.scheduled + 1 }) i

theorem schedulesFor_of_dueTime {now fromNow when : ℤ} (h : dueTime now fromNow = some when) :
    SchedulesFor now fromNow when := by
  rintro A handler arg type i rfl
  obtain ⟨sum, hsum, hwhen⟩ := Option.bind_eq_some_iff.mp h
  rw [asInt, Option.ite_none_right_eq_some, Option.some.injEq] at hsum
  rw [Option.ite_none_right_eq_some] at hwhen
  obtain ⟨hfits, rfl⟩ := hsum
  obtain ⟨hfuture, hwhen⟩ := hwhen
  cases hwhen
  have hassert : Interrupt.assert (decide (0 < fromNow)) = pure () := if_pos (by simpa using hfuture)
  have hplus : Interrupt.plus .clock i.stats.totalTicks fromNow =
    pure (i.stats.totalTicks + fromNow) := if_pos hfits
  show (Interrupt.plus .clock i.stats.totalTicks fromNow >>= fun when => _) i = _
  rw [hplus, pure_bind, hassert, pure_bind]

/-- INTERNAL: `Schedule` is given the time that is left until a request is complete. -/
theorem SpinsAs.dueTime_complete (h : SpinsAs s d) (sector : ℤ) (writing : Bool)
    (hfits : d.complete sector writing ≤ 2147483647) :
    dueTime s.totalTicks (d.complete sector writing - s.totalTicks) =
      some (d.complete sector writing) := by
  have hnonneg := h.nowNonneg
  obtain ⟨-, hlater⟩ := roundUp_le_complete d sector writing
  have hpos : 0 < rotationTime := by decide
  unfold dueTime
  rw [h.now, add_sub_cancel, asInt_of_le (by omega) hfits]
  exact if_pos (by omega)

/-- INTERNAL: **the sector passes under the head** between the boundary after the head has come to the
track and the completion, which is less than a seek over the whole disk and a turn away. -/
theorem SpinsAs.passes (h : SpinsAs s d) (hidle : d.due = none) (hsector : ValidSector sector)
    (writing : Bool) :
    ∃ k, roundUp (d.onTrack sector) ≤ rotationTime * k ∧
      k % sectorsPerTrack = sector % sectorsPerTrack ∧
      rotationTime * (k + 1) ≤ d.complete sector writing ∧
      d.complete sector writing < d.now + 32000 := by
  have hway : d.arrival sector ≤ d.now + 15500 := by
    have hseek := h.seekTicks_le hsector
    unfold SpinningDisk.arrival
    omega
  obtain ⟨hbefore, -⟩ := h.onTrack_le hidle sector writing
  by_cases hbuffered : writing = false ∧ d.Buffered sector
  · -- the sector has passed since the head came to the track
    obtain ⟨k, hstart, hslot, hpassed, -, -⟩ := passedBy_bounds sector d.since
    have hinBuffer := hbuffered.2.2
    have hk := nextBoundary_le (T := rotationTime) (by decide) hstart
    have hnext := roundUp_lt d.now
    rw [SpinningDisk.complete, if_pos hbuffered, SpinningDisk.onTrack, if_pos hbuffered.2.1]
    refine ⟨k, ?_, hslot, ?_, ?_⟩
    all_goals unfold roundUp rotationTime at *; omega
  · -- it passes after the head has come to the track
    obtain ⟨k, hstart, hslot, hpassed, -, hturn⟩ := passedBy_bounds sector (d.arrival sector)
    have hk := nextBoundary_le (T := rotationTime) (by decide) (hbefore.trans hstart)
    rw [SpinningDisk.complete, if_neg hbuffered]
    refine ⟨k, ?_, hslot, hpassed.ge, ?_⟩
    all_goals unfold roundUp rotationTime sectorsPerTrack at *; omega

/-- SOURCE: machine/disk.cc:115-152, 232-271 — a request is complete only after its sector has passed as a
whole under the head since the head came to the track, and it takes at least `RotationTime` and
less than a seek over the whole disk and a turn. Its completion is an `int`, and `Schedule` puts the
interrupt on the list for then. -/
theorem disk_request_waits {now : Fin 2147483648} {es : List DiskEvent} {s' : DiskClock}
    {writing : Bool} (hrun : run DiskClock.step (DiskClock.new now) es = some s)
    (hreq : s.step (.request sector writing) = some s') :
    ∃ when k, s'.due = some when ∧ s'.head.bufferInit ≤ rotationTime * k ∧
      k % sectorsPerTrack = sector % sectorsPerTrack ∧ rotationTime * (k + 1) ≤ when ∧
      s.totalTicks + rotationTime ≤ when ∧ when < s.totalTicks + 32000 ∧ when ≤ 2147483647 ∧
      SchedulesFor s.totalTicks (when - s.totalTicks) when := by
  obtain ⟨d, hturns⟩ := disk_turns_at hrun
  obtain ⟨hidle, hsector, hfits, rfl⟩ := hturns.of_request hreq
  obtain ⟨-, hlater⟩ := roundUp_le_complete d sector writing
  obtain ⟨k, hstart, hslot, hend, hbound⟩ := hturns.passes hidle hsector writing
  refine ⟨_, k, rfl, hstart, hslot, hend, ?_, ?_, hfits,
    schedulesFor_of_dueTime (hturns.dueTime_complete sector writing hfits)⟩
  · rw [hturns.now]
    exact hlater
  · rw [hturns.now]
    exact hbound

/-- A write moves the head to the second track, and a read is then served from the track buffer. -/
theorem disk_request_waits_track_buffer :
    ∃ when k, (some 4607 : Option ℤ) = some when ∧ 1000 ≤ rotationTime * k ∧ k % 32 = 38 % 32 ∧
      rotationTime * (k + 1) ≤ when ∧ 4107 + rotationTime ≤ when ∧ when < 4107 + 32000 ∧
      when ≤ 2147483647 ∧ SchedulesFor 4107 (when - 4107) when := by
  have hrun : run DiskClock.step (DiskClock.new 7) [.request 39 true, .pass 4100, .done] =
      some { totalTicks := 4107, head := ⟨39, 1000, false⟩, due := none } := by
    decide
  have hreq : DiskClock.step { totalTicks := 4107, head := ⟨39, 1000, false⟩, due := none }
      (.request 38 false) =
        some { totalTicks := 4107, head := ⟨38, 1000, true⟩, due := some 4607 } := by
    decide
  exact disk_request_waits hrun hreq

end Refinement

end Nachos.Analysis
