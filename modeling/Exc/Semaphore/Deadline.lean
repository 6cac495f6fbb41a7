import Mathlib.Data.Int.Notation
import Mathlib.Data.UInt

/-!
# Deadlines of timed waits

`Semaphore::Wait(int)` of `comLib/Semaphore.h` and `SingleEvent::Wait(int)` of
`comLib/SingleEvent.h` turn a number of milliseconds into a point of time for `sem_timedwait` and
`pthread_cond_timedwait`, in the same way: `deadline`. When the milliseconds of the clock and of the
timeout make up a second, the part of the clock below a millisecond is dropped.

`deadline_valid_iff` says that the result is a valid deadline for every number of milliseconds that
is not negative, and never for `INFINITE`, which arrives as the `int` −1 and is taken for a
millisecond in the past.

Scope. The seconds of the clock are unbounded integers. The `int` products fit: a remainder by 1000
is below 1000 and 1000 · 1000 · 1000 is below 2^31. The code for iOS, which hands over a relative
time, is left out.
-/

set_option autoImplicit false
set_option relaxedAutoImplicit false

namespace Exc.Semaphore

/-- `struct timespec`. -/
structure Timespec where
  sec : ℤ
  nsec : ℤ
  deriving DecidableEq

/-- The time in nanoseconds. -/
def Timespec.total (ts : Timespec) : ℤ := ts.sec * 1000000000 + ts.nsec

/-- Nanoseconds as the system calls take and return them. -/
def Timespec.InRange (ts : Timespec) : Prop := 0 ≤ ts.nsec ∧ ts.nsec < 1000000000

/-- `INFINITE` as an `int`. -/
def infinite : Int32 := (0xFFFFFFFF : UInt32).toInt32

/-- The deadline for a reading of the clock and a timeout. Divisions and remainders truncate. -/
def deadline (clock : Timespec) (nTimeout : Int32) : Timespec :=
  let timeoutSec := nTimeout.toInt.tdiv 1000
  let timeoutMilliSec := nTimeout.toInt.tmod 1000
  let sec := clock.sec + timeoutSec
  let tsMilliSec := (clock.nsec.tdiv 1000).tdiv 1000
  if tsMilliSec + timeoutMilliSec < 1000 then
    ⟨sec, clock.nsec + timeoutMilliSec * 1000 * 1000⟩
  else ⟨sec + 1, (tsMilliSec + timeoutMilliSec - 1000) * 1000 * 1000⟩

/-- `Semaphore::Wait(int)`, up to `sem_timedwait`: the deadline that it hands over. -/
def semaphoreWait (clock : Timespec) (nTimeout : Int32) : Timespec := deadline clock nTimeout

/-- `SingleEvent::Wait(int)`, up to `pthread_cond_timedwait`: the deadline that it hands over, if it
waits at all. -/
def singleEventWait (bManualReset signalled : Bool) (clock : Timespec) (nTimeout : Int32) :
    Option Timespec :=
  if bManualReset && signalled then none else some (deadline clock nTimeout)

/-- A deadline is valid for a reading of the clock and a timeout: the nanoseconds are in their
range; a finite timeout is met or missed by less than a millisecond, and never exceeded; and without
a timeout the deadline has not passed. -/
structure ValidDeadline (clock : Timespec) (nTimeout : Int32) (ts : Timespec) : Prop where
  inRange : ts.InRange
  finite : nTimeout ≠ infinite →
    clock.total + nTimeout.toInt * 1000000 - 1000000 < ts.total ∧
      ts.total ≤ clock.total + nTimeout.toInt * 1000000
  infinite : nTimeout = infinite → clock.total ≤ ts.total

variable {clock : Timespec} {nTimeout : Int32}

/-- For a timeout that is not negative all parts are plain division with remainder. -/
theorem deadline_valid (hclock : clock.InRange) (htimeout : 0 ≤ nTimeout.toInt) :
    ValidDeadline clock nTimeout (deadline clock nTimeout) := by
  obtain ⟨hlow, hhigh⟩ := hclock
  have hne : nTimeout ≠ infinite := by
    rintro rfl
    exact absurd htimeout (by decide)
  have hmilli : 0 ≤ clock.nsec / 1000 := by omega
  have hdeadline : deadline clock nTimeout =
      if clock.nsec / 1000 / 1000 + nTimeout.toInt % 1000 < 1000 then
        ⟨clock.sec + nTimeout.toInt / 1000, clock.nsec + nTimeout.toInt % 1000 * 1000 * 1000⟩
      else ⟨clock.sec + nTimeout.toInt / 1000 + 1,
        (clock.nsec / 1000 / 1000 + nTimeout.toInt % 1000 - 1000) * 1000 * 1000⟩ := by
    rw [deadline, Int.tdiv_eq_ediv_of_nonneg htimeout, Int.tmod_eq_emod_of_nonneg htimeout,
      Int.tdiv_eq_ediv_of_nonneg hlow, Int.tdiv_eq_ediv_of_nonneg hmilli]
  rw [hdeadline]
  split_ifs with hcarry
  · refine ⟨⟨?_, ?_⟩, fun _ ↦ ⟨?_, ?_⟩, fun heq ↦ absurd heq hne⟩ <;>
      simp only [Timespec.total] <;> omega
  · refine ⟨⟨?_, ?_⟩, fun _ ↦ ⟨?_, ?_⟩, fun heq ↦ absurd heq hne⟩ <;>
      simp only [Timespec.total] <;> omega

/-- `INFINITE` gives the time a millisecond ago. -/
theorem deadline_infinite (hclock : clock.InRange) :
    deadline clock infinite = ⟨clock.sec, clock.nsec - 1000000⟩ := by
  obtain ⟨hlow, hhigh⟩ := hclock
  have hsec : infinite.toInt.tdiv 1000 = 0 := by decide
  have hmilli : infinite.toInt.tmod 1000 = -1 := by decide
  have hnonneg : 0 ≤ clock.nsec / 1000 := by omega
  rw [deadline, hsec, hmilli, Int.tdiv_eq_ediv_of_nonneg hlow, Int.tdiv_eq_ediv_of_nonneg hnonneg]
  rw [if_pos (by omega), Int.add_zero]
  rfl

/-- For all timeouts that callers pass, both functions hand over a valid deadline exactly if the
timeout is not `INFINITE`. -/
theorem deadline_valid_iff (hclock : clock.InRange)
    (hcaller : 0 ≤ nTimeout.toInt ∨ nTimeout = infinite) :
    (ValidDeadline clock nTimeout (semaphoreWait clock nTimeout) ∧
      ∀ (bManualReset signalled : Bool) (ts : Timespec),
        singleEventWait bManualReset signalled clock nTimeout = some ts →
          ValidDeadline clock nTimeout ts) ↔
    nTimeout ≠ infinite := by
  constructor
  · rintro ⟨hvalid, -⟩ rfl
    have hpassed := hvalid.infinite rfl
    rw [semaphoreWait, deadline_infinite hclock] at hpassed
    simp only [Timespec.total] at hpassed
    omega
  · intro hfinite
    have hvalid := deadline_valid hclock (hcaller.resolve_right hfinite)
    refine ⟨hvalid, fun bManualReset signalled ts hts ↦ ?_⟩
    rw [singleEventWait] at hts
    split_ifs at hts
    obtain rfl := Option.some.inj hts
    exact hvalid

/-- One and a half seconds, at the end of a second. -/
theorem deadline_valid_iff_carry :
    semaphoreWait ⟨10, 999999999⟩ 1500 = ⟨12, 499000000⟩ ∧
      ValidDeadline ⟨10, 999999999⟩ 1500 (semaphoreWait ⟨10, 999999999⟩ 1500) :=
  ⟨by decide, ((deadline_valid_iff ⟨by decide, by decide⟩ (.inl (by decide))).mpr (by decide)).1⟩

/-- At the beginning of a second `INFINITE` gives negative nanoseconds, and later in the second a
deadline that has passed. -/
theorem infinite_deadline_passed :
    semaphoreWait ⟨10, 0⟩ infinite = ⟨10, -1000000⟩ ∧
      semaphoreWait ⟨10, 5000000⟩ infinite = ⟨10, 4000000⟩ ∧
      ¬ValidDeadline ⟨10, 0⟩ infinite (semaphoreWait ⟨10, 0⟩ infinite) ∧
      ¬ValidDeadline ⟨10, 5000000⟩ infinite (semaphoreWait ⟨10, 5000000⟩ infinite) := by
  refine ⟨by decide, by decide, fun hvalid ↦ ?_, fun hvalid ↦ ?_⟩
  · exact absurd hvalid.inRange.1 (by decide)
  · exact absurd (hvalid.infinite rfl) (by decide)

end Exc.Semaphore
