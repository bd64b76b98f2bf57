import Nachos.Filesys.Disk
import Nachos.Library.Periodic
import Nachos.Library.WordBytes
import Nachos.Machine.Interrupt

/-!
# How long a disk request takes

`Disk` of `machine/disk.cc` computes when the interrupt of a request is due from the simulated
time, the sector of the last request and the time at which it began to fill its track buffer. The
head moves one track in `SeekTime` and one sector passes it in `RotationTime`. The integers are
`int`s; `none` is an overflow.

The purpose is stated with `Periodic.passed`: a request is done at the first sector boundary at
which its sector has passed the head completely since the head came to its track.
-/

namespace Nachos.DiskLatency

open Filesys Periodic Transition WordBytes Interrupt

/-- `SectorsPerTrack` of `disk.h`. -/
def SectorsPerTrack : Int := 32

/-- `RotationTime` of `stats.h`. -/
def RotationTime : Int := 500

/-- `SeekTime` of `stats.h`. -/
def SeekTime : Int := 500

/-- The fields of `Disk` that times depend on, and whether a request is being served. -/
structure Disk where
  lastSector : Int
  bufferInit : Int
  active : Bool
  deriving Repr, DecidableEq

/-- `Disk::Disk`. -/
def Disk.new : Disk where
  lastSector := 0
  bufferInit := 0
  active := false

/-- The result of an `int` operation. -/
def int (v : Int) : Option Int := if FitsInt v then some v else none

theorem int_eq {v : Int} (h : FitsInt v) : int v = some v := if_pos h

/-- `Disk::TimeToSeek`: the time of the seek and the time from its end to a sector boundary. -/
def timeToSeek (d : Disk) (totalTicks newSector : Int) : Option (Int × Int) := do
  let newTrack := newSector.tdiv SectorsPerTrack
  let oldTrack := d.lastSector.tdiv SectorsPerTrack
  let seek ← int ((newTrack - oldTrack).natAbs * SeekTime)
  let arrival ← int (totalTicks + seek)
  let overTime := arrival.tmod RotationTime
  pure (seek, if overTime > 0 then RotationTime - overTime else 0)

/-- `Disk::ModuloDiff`. -/
def moduloDiff (toSector fromSector : Int) : Int :=
  let toOffset := toSector.tmod SectorsPerTrack
  let fromOffset := fromSector.tmod SectorsPerTrack
  ((toOffset - fromOffset) + SectorsPerTrack).tmod SectorsPerTrack

/-- The test of `Disk::ComputeLatency` for the track buffer. -/
def trackBufferApplies (d : Disk) (newSector : Int) (writing : Bool) (seek timeAfter : Int) :
    Option Bool :=
  if writing = false ∧ seek = 0 then do
    let elapsed ← int (timeAfter - d.bufferInit)
    pure (decide (elapsed.tdiv RotationTime >
      moduloDiff newSector (d.bufferInit.tdiv RotationTime)))
  else pure false

/-- Whether `Disk::ComputeLatency` answers from the track buffer. -/
def usesTrackBuffer (d : Disk) (totalTicks newSector : Int) (writing : Bool) : Option Bool := do
  let (seek, rotation) ← timeToSeek d totalTicks newSector
  let timeAfter ← int (totalTicks + seek + rotation)
  trackBufferApplies d newSector writing seek timeAfter

/-- `Disk::ComputeLatency`. -/
def computeLatency (d : Disk) (totalTicks newSector : Int) (writing : Bool) : Option Int := do
  let (seek, rotation) ← timeToSeek d totalTicks newSector
  let timeAfter ← int (totalTicks + seek + rotation)
  let buffered ← trackBufferApplies d newSector writing seek timeAfter
  if buffered then pure RotationTime
  else
    let rotation := rotation + moduloDiff newSector (timeAfter.tdiv RotationTime) * RotationTime
    int (seek + rotation + RotationTime)

/-- `Disk::UpdateLast`. -/
def updateLast (d : Disk) (totalTicks newSector : Int) : Option Disk := do
  let (seek, rotate) ← timeToSeek d totalTicks newSector
  if seek ≠ 0 then do
    let bufferInit ← int (totalTicks + seek + rotate)
    pure { d with bufferInit := bufferInit, lastSector := newSector }
  else pure { d with lastSector := newSector }

/-! ## The times without overflow -/

/-- The sector exists. -/
def OnDisk (sector : Int) : Prop := 0 ≤ sector ∧ sector < NumSectors

instance (sector : Int) : Decidable (OnDisk sector) := inferInstanceAs (Decidable (_ ∧ _))

/-- The time to move the head from the track of one sector to that of another. -/
def seekTime (lastSector newSector : Int) : Int :=
  (newSector / SectorsPerTrack - lastSector / SectorsPerTrack).natAbs * SeekTime

/-- The first sector boundary after the seek. -/
def afterSeek (d : Disk) (totalTicks newSector : Int) : Int :=
  roundUp RotationTime (totalTicks + seekTime d.lastSector newSector)

section

variable {d : Disk} {totalTicks newSector : Int} {writing : Bool}

theorem seekTime_bounds {lastSector : Int} (hlast : OnDisk lastSector) (hnew : OnDisk newSector) :
    0 ≤ seekTime lastSector newSector ∧ seekTime lastSector newSector ≤ 15500 := by
  simp only [OnDisk, NumSectors] at hlast hnew
  simp only [seekTime, SectorsPerTrack, SeekTime]
  omega

theorem afterSeek_bounds (d : Disk) (totalTicks newSector : Int) :
    totalTicks + seekTime d.lastSector newSector ≤ afterSeek d totalTicks newSector ∧
      afterSeek d totalTicks newSector <
        totalTicks + seekTime d.lastSector newSector + RotationTime := by
  simp only [afterSeek, roundUp, RotationTime]
  omega

theorem rotation_eq (time : Int) :
    (if time % RotationTime > 0 then RotationTime - time % RotationTime else 0) =
      roundUp RotationTime time - time := by
  by_cases hover : time % RotationTime > 0
  · rw [if_pos hover]
    simp only [roundUp, RotationTime] at hover ⊢
    omega
  · rw [if_neg hover]
    simp only [roundUp, RotationTime] at hover ⊢
    omega

/-- `TimeToSeek` rounds up to the next boundary. -/
theorem timeToSeek_eq (hlast : OnDisk d.lastSector) (hnew : OnDisk newSector)
    (hticks : 0 ≤ totalTicks) :
    timeToSeek d totalTicks newSector =
      if FitsInt (totalTicks + seekTime d.lastSector newSector) then
        some (seekTime d.lastSector newSector,
          afterSeek d totalTicks newSector - (totalTicks + seekTime d.lastSector newSector))
      else none := by
  have hseek := seekTime_bounds hlast hnew
  have htracks : ((newSector.tdiv SectorsPerTrack - d.lastSector.tdiv SectorsPerTrack).natAbs : Int)
      * SeekTime = seekTime d.lastSector newSector := by
    rw [seekTime, Int.tdiv_eq_ediv_of_nonneg hnew.1, Int.tdiv_eq_ediv_of_nonneg hlast.1]
  have hfits : FitsInt (seekTime d.lastSector newSector) := ⟨by omega, by omega⟩
  rw [timeToSeek, htracks, int_eq hfits]
  by_cases harrive : FitsInt (totalTicks + seekTime d.lastSector newSector)
  · simp only [bind, Option.bind, int_eq harrive, pure]
    rw [if_pos harrive, Int.tmod_eq_emod_of_nonneg (by omega), rotation_eq]
    rfl
  · simp only [bind, Option.bind, int, if_neg harrive]

/-- `ModuloDiff` is the distance on the track. -/
theorem moduloDiff_eq {toSector fromSector : Int} (hto : 0 ≤ toSector) (hfrom : 0 ≤ fromSector) :
    moduloDiff toSector fromSector = (toSector - fromSector) % SectorsPerTrack := by
  simp only [moduloDiff, SectorsPerTrack]
  rw [Int.tmod_eq_emod_of_nonneg hto, Int.tmod_eq_emod_of_nonneg hfrom,
    Int.tmod_eq_emod_of_nonneg (by omega)]
  omega

/-- The sectors exist, and the times up to the end of the seek are `int`s. -/
structure InTime (d : Disk) (totalTicks newSector : Int) : Prop where
  last : OnDisk d.lastSector
  new : OnDisk newSector
  buffer : 0 ≤ d.bufferInit ∧ d.bufferInit < 2147483648
  ticks : 0 ≤ totalTicks
  after : afterSeek d totalTicks newSector < 2147483648

/-- The head is at a sector boundary after the seek and the rotation of `TimeToSeek`. -/
theorem InTime.timeAfter (h : InTime d totalTicks newSector) :
    timeToSeek d totalTicks newSector = some (seekTime d.lastSector newSector,
        afterSeek d totalTicks newSector - (totalTicks + seekTime d.lastSector newSector)) ∧
      int (totalTicks + seekTime d.lastSector newSector +
        (afterSeek d totalTicks newSector - (totalTicks + seekTime d.lastSector newSector))) =
          some (afterSeek d totalTicks newSector) := by
  have hseek := seekTime_bounds h.last h.new
  have hbounds := afterSeek_bounds d totalTicks newSector
  have hticks := h.ticks
  have hafter := h.after
  have harrive : FitsInt (totalTicks + seekTime d.lastSector newSector) := ⟨by omega, by omega⟩
  have hfits : FitsInt (afterSeek d totalTicks newSector) := ⟨by omega, hafter⟩
  rw [timeToSeek_eq h.last h.new hticks, if_pos harrive, add_sub_cancel]
  exact ⟨rfl, int_eq hfits⟩

/-- The time since the buffer began to fill is an `int`. -/
theorem InTime.fits_elapsed (h : InTime d totalTicks newSector) :
    FitsInt (afterSeek d totalTicks newSector - d.bufferInit) := by
  have hseek := seekTime_bounds h.last h.new
  have hbounds := afterSeek_bounds d totalTicks newSector
  have hticks := h.ticks
  have hafter := h.after
  have hbuffer := h.buffer
  exact ⟨by omega, by omega⟩

theorem usesTrackBuffer_eq (h : InTime d totalTicks newSector) :
    usesTrackBuffer d totalTicks newSector writing = trackBufferApplies d newSector writing
      (seekTime d.lastSector newSector) (afterSeek d totalTicks newSector) := by
  simp only [usesTrackBuffer, h.timeAfter.1, Option.bind_eq_bind, Option.bind_some, h.timeAfter.2]

/-- The test for the track buffer does not overflow. -/
theorem exists_usesTrackBuffer (h : InTime d totalTicks newSector) (writing : Bool) :
    ∃ buffered, usesTrackBuffer d totalTicks newSector writing = some buffered := by
  rw [usesTrackBuffer_eq h, trackBufferApplies, int_eq h.fits_elapsed]
  split
  · exact ⟨_, rfl⟩
  · exact ⟨_, rfl⟩

/-- Without the track buffer, the request ends when its sector has passed. -/
def unbuffered (d : Disk) (totalTicks newSector : Int) : Int :=
  afterSeek d totalTicks newSector +
    (newSector - afterSeek d totalTicks newSector / RotationTime) % SectorsPerTrack * RotationTime +
    RotationTime

theorem unbuffered_bounds (d : Disk) (totalTicks newSector : Int) :
    afterSeek d totalTicks newSector + RotationTime ≤ unbuffered d totalTicks newSector ∧
      unbuffered d totalTicks newSector ≤ afterSeek d totalTicks newSector + 16000 := by
  have hdelay := Int.emod_nonneg (newSector - afterSeek d totalTicks newSector / RotationTime)
    (show SectorsPerTrack ≠ 0 by decide)
  have hdelay' := Int.emod_lt_of_pos (newSector - afterSeek d totalTicks newSector / RotationTime)
    (show 0 < SectorsPerTrack by decide)
  simp only [unbuffered, RotationTime, SectorsPerTrack] at *
  omega

theorem computeLatency_eq (h : InTime d totalTicks newSector) {buffered : Bool}
    (hbuffered : usesTrackBuffer d totalTicks newSector writing = some buffered) :
    computeLatency d totalTicks newSector writing =
      some (if buffered then RotationTime else unbuffered d totalTicks newSector - totalTicks) := by
  have hseek := seekTime_bounds h.last h.new
  have hbounds := afterSeek_bounds d totalTicks newSector
  have hend := unbuffered_bounds d totalTicks newSector
  have hticks := h.ticks
  rw [usesTrackBuffer_eq h] at hbuffered
  simp only [computeLatency, h.timeAfter.1, Option.bind_eq_bind, Option.bind_some, h.timeAfter.2,
    hbuffered]
  cases buffered with
  | true => rfl
  | false =>
    have hquot : 0 ≤ afterSeek d totalTicks newSector / RotationTime :=
      Int.ediv_nonneg (by omega) (by decide)
    have hsum : seekTime d.lastSector newSector +
        (afterSeek d totalTicks newSector - (totalTicks + seekTime d.lastSector newSector) +
          (newSector - afterSeek d totalTicks newSector / RotationTime) % SectorsPerTrack *
            RotationTime) + RotationTime = unbuffered d totalTicks newSector - totalTicks := by
      rw [unbuffered]
      omega
    rw [if_neg Bool.false_ne_true, if_neg Bool.false_ne_true,
      Int.tdiv_eq_ediv_of_nonneg (by omega), moduloDiff_eq h.new.1 hquot, hsum]
    simp only [RotationTime] at hbounds hend
    exact int_eq ⟨by omega, by omega⟩

/-- `ComputeLatency` overflows when the boundary after the seek is no `int`. -/
theorem computeLatency_none (hlast : OnDisk d.lastSector) (hnew : OnDisk newSector)
    (hticks : 0 ≤ totalTicks) (hlate : 2147483648 ≤ afterSeek d totalTicks newSector) :
    computeLatency d totalTicks newSector writing = none := by
  have hlate' : ¬ FitsInt (afterSeek d totalTicks newSector) := fun hfits => by
    have := hfits.2
    omega
  rw [computeLatency, timeToSeek_eq hlast hnew hticks]
  split
  · simp only [Option.bind_eq_bind, Option.bind_some, add_sub_cancel, int, if_neg hlate',
      Option.bind_none]
  · rfl

/-- The end of a request without the track buffer is the first time at which its sector has passed
the head since the seek. -/
theorem isLeast_unbuffered (d : Disk) (totalTicks newSector : Int) :
    IsLeast (passed RotationTime SectorsPerTrack
      (totalTicks + seekTime d.lastSector newSector) newSector)
      (unbuffered d totalTicks newSector) :=
  isLeast_passed (by decide) (by decide) _ _

/-- The latency lies between one sector and the way without the track buffer. -/
theorem computeLatency_bounds (h : InTime d totalTicks newSector) {latency : Int}
    (hlatency : computeLatency d totalTicks newSector writing = some latency) :
    RotationTime ≤ latency ∧ totalTicks + latency ≤ unbuffered d totalTicks newSector := by
  have hseek := seekTime_bounds h.last h.new
  have hbounds := afterSeek_bounds d totalTicks newSector
  have hend := unbuffered_bounds d totalTicks newSector
  obtain ⟨buffered, hbuffered⟩ := exists_usesTrackBuffer h writing
  rw [computeLatency_eq h hbuffered] at hlatency
  cases hlatency
  cases buffered with
  | false =>
    rw [if_neg Bool.false_ne_true]
    omega
  | true =>
    rw [if_pos rfl]
    omega

/-- The latency is the rotational delay. Without the track buffer, the interrupt is due at the
first sector boundary at which the head, after its seek, has passed completely over the sector. The
latency is positive, so the assert of `Schedule` holds, and the answer from the track buffer is
never larger. -/
theorem latency_is_rotational_delay (h : InTime d totalTicks newSector) (writing : Bool) :
    ∃ buffered latency,
      usesTrackBuffer d totalTicks newSector writing = some buffered ∧
      computeLatency d totalTicks newSector writing = some latency ∧
      (buffered = false → IsLeast {t | RotationTime ∣ t ∧
          (t / RotationTime - 1) % SectorsPerTrack = newSector % SectorsPerTrack ∧
          totalTicks + seekTime d.lastSector newSector + RotationTime ≤ t}
        (totalTicks + latency)) ∧
      0 < latency ∧
      (∀ {H W : Type} (s : Interrupt.State H W) (handler : H),
        Interrupt.schedule s ⟨handler, latency, .DiskInt⟩ ≠ .error .assertion) ∧
      (buffered = true → latency = RotationTime ∧ ∀ t, RotationTime ∣ t →
        (t / RotationTime - 1) % SectorsPerTrack = newSector % SectorsPerTrack →
        totalTicks + seekTime d.lastSector newSector + RotationTime ≤ t →
        totalTicks + latency ≤ t) := by
  obtain ⟨buffered, hbuffered⟩ := exists_usesTrackBuffer h writing
  have hlatency := computeLatency_eq h hbuffered
  have hleast := isLeast_unbuffered d totalTicks newSector
  obtain ⟨hsector, hend⟩ := computeLatency_bounds h hlatency
  refine ⟨buffered, _, hbuffered, hlatency, fun hnot => ?_, ?_, fun s handler herror => ?_,
    fun hyes => ⟨?_, fun t hdvd hpos harrive => ?_⟩⟩
  · rw [hnot, if_neg Bool.false_ne_true, add_sub_cancel]
    exact hleast
  · exact lt_of_lt_of_le (by decide) hsector
  · have hpos : 0 < RotationTime := by decide
    obtain ⟨hoverflow, -⟩ := schedule_error (lt_of_lt_of_le hpos hsector) herror
    cases hoverflow
  · rw [hyes, if_pos rfl]
  · exact le_trans hend (hleast.2 ⟨hdvd, hpos, harrive⟩)

/-- A read after a seek over eleven tracks, in the middle of a sector. -/
theorem latency_is_rotational_delay_read :
    ∃ buffered latency,
      usesTrackBuffer ⟨100, 0, false⟩ 1234 460 false = some buffered ∧
      computeLatency ⟨100, 0, false⟩ 1234 460 false = some latency ∧
      (buffered = false → IsLeast {t | RotationTime ∣ t ∧
          (t / RotationTime - 1) % SectorsPerTrack = 460 % SectorsPerTrack ∧
          1234 + seekTime 100 460 + RotationTime ≤ t} (1234 + latency)) ∧
      0 < latency ∧
      (∀ {H W : Type} (s : Interrupt.State H W) (handler : H),
        Interrupt.schedule s ⟨handler, latency, .DiskInt⟩ ≠ .error .assertion) ∧
      (buffered = true → latency = RotationTime ∧ ∀ t, RotationTime ∣ t →
        (t / RotationTime - 1) % SectorsPerTrack = 460 % SectorsPerTrack →
        1234 + seekTime 100 460 + RotationTime ≤ t → 1234 + latency ≤ t) :=
  latency_is_rotational_delay (d := ⟨100, 0, false⟩)
    ⟨by decide, by decide, by decide, by decide, by decide⟩ false

/-- More than `k` whole sectors fit into a time. -/
theorem lt_tdiv_iff {time k : Int} (hk : 0 ≤ k) :
    k < time.tdiv RotationTime ↔ k * RotationTime + RotationTime ≤ time := by
  by_cases htime : 0 ≤ time
  · rw [Int.tdiv_eq_ediv_of_nonneg htime]
    simp only [RotationTime]
    omega
  · have hneg : time.tdiv RotationTime = -(-time / RotationTime) := by
      rw [← Int.tdiv_eq_ediv_of_nonneg (by omega), Int.neg_tdiv, Int.neg_neg]
    rw [hneg]
    simp only [RotationTime]
    omega

/-- The test of `ComputeLatency`: the sector has passed completely since the buffer began to
fill. -/
theorem buffer_holds_iff (hnew : 0 ≤ newSector) (hinit : 0 ≤ d.bufferInit)
    (hbuffer : RotationTime ∣ d.bufferInit) (timeAfter : Int) :
    (timeAfter - d.bufferInit).tdiv RotationTime >
        moduloDiff newSector (d.bufferInit.tdiv RotationTime) ↔
      ∃ t ∈ passed RotationTime SectorsPerTrack d.bufferInit newSector, t ≤ timeAfter := by
  have hquot : 0 ≤ d.bufferInit / RotationTime := Int.ediv_nonneg hinit (by decide)
  have hleast := isLeast_passed (r := RotationTime) (n := SectorsPerTrack) (by decide) (by decide)
    d.bufferInit newSector
  rw [roundUp_of_dvd hbuffer] at hleast
  rw [Int.tdiv_eq_ediv_of_nonneg hinit, moduloDiff_eq hnew hquot, gt_iff_lt,
    lt_tdiv_iff (Int.emod_nonneg _ (by decide))]
  constructor
  · intro hpassed
    exact ⟨_, hleast.1, by omega⟩
  · rintro ⟨t, ht, hle⟩
    have hfirst := hleast.2 ht
    omega

/-- The track buffer answers a read of the track under the head when it holds the sector. -/
theorem usesTrackBuffer_iff (h : InTime d totalTicks newSector)
    (hbuffer : RotationTime ∣ d.bufferInit) :
    usesTrackBuffer d totalTicks newSector writing = some true ↔
      writing = false ∧ seekTime d.lastSector newSector = 0 ∧
        ∃ t ∈ passed RotationTime SectorsPerTrack d.bufferInit newSector,
          t ≤ afterSeek d totalTicks newSector := by
  have hfull := buffer_holds_iff h.new.1 h.buffer.1 hbuffer (afterSeek d totalTicks newSector)
  rw [usesTrackBuffer_eq h, trackBufferApplies, int_eq h.fits_elapsed]
  by_cases hread : writing = false ∧ seekTime d.lastSector newSector = 0
  · rw [if_pos hread]
    simp [hread, hfull]
  · rw [if_neg hread]
    simp only [pure, Option.some.injEq, Bool.false_eq_true, false_iff]
    intro hall
    exact hread ⟨hall.1, hall.2.1⟩

end

/-! ## Requests -/

/-- Why a request does not return. -/
inductive Failure where
  | overflow
  /-- `ASSERT(!active)`. -/
  | busy
  /-- The assertion on the sector number. -/
  | sector
  /-- `Interrupt::Schedule` did not return. -/
  | schedule (e : Interrupt.Failure)
  deriving Repr, DecidableEq

variable {H W : Type}

/-- The body of a request, given the results of `ComputeLatency` and of `UpdateLast`. -/
def respond (handler : H) (d : Disk) (s : Interrupt.State H W) (sectorNumber : Int)
    (latency : Option Int) (updated : Option Disk) :
    Except Failure (List Interrupt.Event × Disk × Interrupt.State H W) :=
  match latency with
  | none => .error .overflow
  | some ticks =>
    if d.active then .error .busy
    else if ¬ OnDisk sectorNumber then .error .sector
    else
      match updated with
      | none => .error .overflow
      | some d' =>
        match Interrupt.schedule s ⟨handler, ticks, .DiskInt⟩ with
        | .error e => .error (.schedule e)
        | .ok (events, s') => .ok (events, d', s')

/-- `Disk::ReadRequest` and `Disk::WriteRequest`. The latency is computed before the asserts. -/
def request (handler : H) (writing : Bool) (d : Disk) (s : Interrupt.State H W)
    (sectorNumber : Int) : Except Failure (List Interrupt.Event × Disk × Interrupt.State H W) :=
  respond handler d s sectorNumber (computeLatency d s.totalTicks sectorNumber writing)
    (updateLast { d with active := true } s.totalTicks sectorNumber)

/-- `Disk::ReadRequest`. -/
def readRequest (handler : H) (d : Disk) (s : Interrupt.State H W) (sectorNumber : Int) :=
  request handler false d s sectorNumber

/-- `Disk::WriteRequest`. -/
def writeRequest (handler : H) (d : Disk) (s : Interrupt.State H W) (sectorNumber : Int) :=
  request handler true d s sectorNumber

/-- `Disk::HandleInterrupt`. -/
def handleInterrupt (d : Disk) : Disk := { d with active := false }

/-- When the interrupt of a request is due: when its sector has passed the head since the seek, or
after the time of one sector if the track buffer holds it already. -/
def DueAt (d : Disk) (totalTicks sectorNumber : Int) (writing : Bool) (when : Int) : Prop :=
  IsLeast (passed RotationTime SectorsPerTrack (totalTicks + seekTime d.lastSector sectorNumber)
      sectorNumber) when ∨
    when = totalTicks + RotationTime ∧ writing = false ∧ seekTime d.lastSector sectorNumber = 0 ∧
      ∃ t ∈ passed RotationTime SectorsPerTrack d.bufferInit sectorNumber,
        t ≤ afterSeek d totalTicks sectorNumber

/-- What holds of a disk between requests. -/
structure Valid (d : Disk) : Prop where
  last : OnDisk d.lastSector
  buffer : 0 ≤ d.bufferInit ∧ d.bufferInit < 2147483648
  boundary : RotationTime ∣ d.bufferInit

theorem valid_new : Valid Disk.new := by
  refine ⟨by decide, by decide, ?_⟩
  exact Int.dvd_zero RotationTime

section

variable {d d' : Disk} {totalTicks newSector : Int}

/-- `UpdateLast` starts the track buffer at a sector boundary. -/
theorem valid_updateLast (h : Valid d) (hnew : OnDisk newSector) (hticks : 0 ≤ totalTicks)
    (hd : updateLast d totalTicks newSector = some d') : Valid d' := by
  have hseek := seekTime_bounds h.last hnew
  have hbounds := afterSeek_bounds d totalTicks newSector
  rw [updateLast, timeToSeek_eq h.last hnew hticks] at hd
  split at hd
  · simp only [Option.bind_eq_bind, Option.bind_some, add_sub_cancel] at hd
    split at hd
    · obtain ⟨bufferInit, hint, hd⟩ := Option.bind_eq_some_iff.mp hd
      cases hd
      rw [int] at hint
      split at hint
      · rename_i hfits
        cases hint
        exact ⟨hnew, ⟨by dsimp only; omega, hfits.2⟩, (isLeast_roundUp (by decide) _).1.1⟩
      · cases hint
    · cases hd
      exact ⟨hnew, h.buffer, h.boundary⟩
  · cases hd

end

section

variable {handler : H} {writing : Bool} {d d' : Disk} {s s' : Interrupt.State H W}
  {sectorNumber : Int} {events : List Interrupt.Event}

/-- A latency is only computed in time. -/
theorem Valid.inTime (h : Valid d) {totalTicks newSector latency : Int} (hticks : 0 ≤ totalTicks)
    (hnew : OnDisk newSector)
    (hlatency : computeLatency d totalTicks newSector writing = some latency) :
    InTime d totalTicks newSector := by
  refine ⟨h.last, hnew, h.buffer, hticks, ?_⟩
  by_contra hlate
  rw [computeLatency_none h.last hnew hticks (by omega)] at hlatency
  cases hlatency

/-- What a request can do: it overflows, fails an assert of its own, or ends with `Schedule`. -/
theorem respond_cases {latency : Option Int} {updated : Option Disk}
    {result : Except Failure (List Interrupt.Event × Disk × Interrupt.State H W)}
    (h : respond handler d s sectorNumber latency updated = result) :
    result = .error .overflow ∨ result = .error .busy ∨ result = .error .sector ∨
      OnDisk sectorNumber ∧ ∃ ticks d', latency = some ticks ∧ updated = some d' ∧
        ((∃ e, Interrupt.schedule s ⟨handler, ticks, .DiskInt⟩ = .error e ∧
            result = .error (.schedule e)) ∨
          ∃ events s', Interrupt.schedule s ⟨handler, ticks, .DiskInt⟩ = .ok (events, s') ∧
            result = .ok (events, d', s')) := by
  subst h
  unfold respond
  split
  · exact .inl rfl
  rename_i ticks
  split
  · exact .inr (.inl rfl)
  split
  · exact .inr (.inr (.inl rfl))
  rename_i hsector
  split
  · exact .inl rfl
  rename_i d'
  refine .inr (.inr (.inr ⟨not_not.mp hsector, ticks, d', rfl, rfl, ?_⟩))
  split
  · rename_i e hschedule
    exact .inl ⟨e, hschedule, rfl⟩
  · rename_i events s' hschedule
    exact .inr ⟨events, s', hschedule, rfl⟩

/-- What a request that returns has done. -/
theorem request_ok (h : Valid d) (hticks : 0 ≤ s.totalTicks)
    (hrequest : request handler writing d s sectorNumber = .ok (events, d', s')) :
    Valid d' ∧ InTime d s.totalTicks sectorNumber ∧
      ∃ latency, computeLatency d s.totalTicks sectorNumber writing = some latency ∧
        Interrupt.schedule s ⟨handler, latency, .DiskInt⟩ = .ok (events, s') := by
  obtain heq | heq | heq | ⟨hnew, ticks, d₁, hlatency, hlast, hend⟩ := respond_cases hrequest
  · cases heq
  · cases heq
  · cases heq
  · obtain ⟨e, -, heq⟩ | ⟨events₁, s₁, hschedule, heq⟩ := hend
    · cases heq
    · cases heq
      have hactive : Valid { d with active := true } := ⟨h.last, h.buffer, h.boundary⟩
      exact ⟨valid_updateLast hactive hnew hticks hlast, h.inTime hticks hnew hlatency, ticks,
        hlatency, hschedule⟩

/-- A request never fails the assert of `Schedule`. -/
theorem request_schedules_later (h : Valid d) (hticks : 0 ≤ s.totalTicks) :
    request handler writing d s sectorNumber ≠ .error (.schedule .assertion) := by
  intro hrequest
  obtain heq | heq | heq | ⟨hnew, ticks, d₁, hlatency, -, hend⟩ := respond_cases hrequest
  · cases heq
  · cases heq
  · cases heq
  · obtain ⟨e, hschedule, heq⟩ | ⟨events₁, s₁, -, heq⟩ := hend
    · cases heq
      have hbounds := computeLatency_bounds (h.inTime hticks hnew hlatency) hlatency
      have hpos : 0 < RotationTime := by decide
      cases (schedule_error (lt_of_lt_of_le hpos hbounds.1) hschedule).1
    · cases heq

/-- A request that returns has scheduled its interrupt for the time it is due. -/
theorem request_due (h : Valid d) (hticks : 0 ≤ s.totalTicks)
    (hrequest : request handler writing d s sectorNumber = .ok (events, d', s')) :
    ∃ when, events = [.scheduled s.scheduled when] ∧
      DueAt d s.totalTicks sectorNumber writing when := by
  obtain ⟨-, hin, latency, hlatency, hschedule⟩ := request_ok h hticks hrequest
  refine ⟨s.totalTicks + latency, ?_, ?_⟩
  · simp only [Interrupt.schedule] at hschedule
    split at hschedule
    · cases hschedule
    split at hschedule
    · cases hschedule
    · cases hschedule
      rfl
  · obtain ⟨buffered, hbuffered⟩ := exists_usesTrackBuffer hin writing
    rw [computeLatency_eq hin hbuffered] at hlatency
    cases hlatency
    cases buffered with
    | false =>
      rw [if_neg Bool.false_ne_true, add_sub_cancel]
      exact .inl (isLeast_unbuffered d s.totalTicks sectorNumber)
    | true => exact .inr ⟨rfl, (usesTrackBuffer_iff hin h.boundary).mp hbuffered⟩

end

/-! ## Runs -/

/-- A disk and the simulator that its interrupts go through. -/
structure System (H W : Type) where
  disk : Disk
  sim : Interrupt.State H W

/-- The kernel makes requests, the interrupt of a request occurs at any later time, and the
simulator does anything else. -/
inductive Act (H : Type) where
  | readRequest (sectorNumber : Int)
  | writeRequest (sectorNumber : Int)
  | handleInterrupt
  | simulator (act : Interrupt.Act H)

/-- One action; a request that does not return ends the run. -/
def step (handlers : Interrupt.Handlers H W) (handler : H) :
    Step (System H W) (Act H) Interrupt.Event
  | st, .readRequest sectorNumber =>
    (readRequest handler st.disk st.sim sectorNumber).toOption.map fun r => (r.1, ⟨r.2.1, r.2.2⟩)
  | st, .writeRequest sectorNumber =>
    (writeRequest handler st.disk st.sim sectorNumber).toOption.map fun r => (r.1, ⟨r.2.1, r.2.2⟩)
  | st, .handleInterrupt => some ([], ⟨handleInterrupt st.disk, st.sim⟩)
  | st, .simulator act =>
    (Interrupt.step handlers st.sim act).map fun r => (r.1, ⟨st.disk, r.2⟩)

/-- The disk is valid and time has not gone back below zero. -/
structure Sound (trace : List Interrupt.Event) (st : System H W) : Prop where
  disk : Valid st.disk
  sim : Interrupt.Delivered trace st.sim
  status : st.sim.halted = true ∨ st.sim.status ≠ .IdleMode
  ticks : 0 ≤ st.sim.totalTicks

section

variable {handlers : Interrupt.Handlers H W} {handler : H} {trace events : List Interrupt.Event}
  {st st' : System H W}

theorem sound_request (h : Sound trace st) {writing : Bool} {sectorNumber : Int}
    (hrequest : ((request handler writing st.disk st.sim sectorNumber).toOption.map fun r =>
      (r.1, (⟨r.2.1, r.2.2⟩ : System H W))) = some (events, st')) :
    Sound (trace ++ events) st' := by
  rw [Option.map_eq_some_iff] at hrequest
  obtain ⟨⟨ev, d', s'⟩, hok, heq⟩ := hrequest
  cases heq
  obtain ⟨hvalid, -, latency, -, hschedule⟩ := request_ok h.disk h.ticks (ok_of_toOption hok)
  obtain ⟨hdelivered, hframe⟩ := schedule_spec h.sim hschedule
  refine ⟨hvalid, hdelivered, ?_, ?_⟩
  · rw [hframe.halted, hframe.status]
    exact h.status
  · rw [hframe.totalTicks]
    exact h.ticks

theorem sound_step {act : Act H} (h : Sound trace st)
    (hstep : step handlers handler st act = some (events, st')) : Sound (trace ++ events) st' := by
  cases act with
  | readRequest sectorNumber =>
    rw [step, readRequest] at hstep
    exact sound_request h hstep
  | writeRequest sectorNumber =>
    rw [step, writeRequest] at hstep
    exact sound_request h hstep
  | handleInterrupt =>
    cases hstep
    rw [List.append_nil]
    exact ⟨⟨h.disk.last, h.disk.buffer, h.disk.boundary⟩, h.sim, h.status, h.ticks⟩
  | simulator act =>
    obtain ⟨⟨ev, s'⟩, hsim, heq⟩ := Option.map_eq_some_iff.mp hstep
    cases heq
    obtain ⟨hdelivered, hstatus, htotal⟩ := step_spec h.sim h.status hsim
    exact ⟨h.disk, hdelivered, hstatus, le_trans h.ticks htotal⟩

/-- In every run, no request fails the assert of `Schedule`, and one that returns has scheduled its
interrupt for the time it is due. -/
theorem disk_interrupts_in_time {world : W}
    (hrun : Run (step handlers handler) anyAct ⟨Disk.new, Interrupt.State.new world⟩ trace st)
    (writing : Bool) (sectorNumber : Int) :
    request handler writing st.disk st.sim sectorNumber ≠ .error (.schedule .assertion) ∧
    ∀ events d' s', request handler writing st.disk st.sim sectorNumber = .ok (events, d', s') →
      ∃ when, events = [.scheduled st.sim.scheduled when] ∧
        DueAt st.disk st.sim.totalTicks sectorNumber writing when := by
  have hsound : Sound trace st := by
    apply hrun.traceInvariant
    · exact ⟨valid_new, delivered_new world, .inr (by simp [Interrupt.State.new]),
        le_refl _⟩
    · intro tr s act ev t h _ hstep
      exact sound_step h hstep
  exact ⟨request_schedules_later hsound.disk hsound.ticks,
    fun events d' s' => request_due hsound.disk hsound.ticks⟩

end

/-- The first request of a run. -/
theorem disk_interrupts_first_read : ∃ (d' : Disk) (s' : Interrupt.State Unit Unit) (when : Int),
    request () false Disk.new (Interrupt.State.new ()) 460 =
      .ok ([.scheduled 0 when], d', s') ∧ DueAt Disk.new 0 460 false when := by
  obtain ⟨-, hdue⟩ := @disk_interrupts_in_time Unit Unit (fun _ _ _ => ⟨(), [], false⟩) () [] _ ()
    .refl false 460
  have hok : (request () false Disk.new (Interrupt.State.new () : Interrupt.State Unit Unit)
      460).isOk = true := by
    decide +kernel
  rcases hrequest : request () false Disk.new (Interrupt.State.new ()) 460 with
    e | ⟨events, d', s'⟩
  · rw [hrequest] at hok
    cases hok
  · obtain ⟨when, rfl, hwhen⟩ := hdue events d' s' hrequest
    exact ⟨d', s', when, rfl, hwhen⟩

end Nachos.DiskLatency
