import Exc.Timer.QueueInvariant
import Exc.Timer.TimeArithmetic

/-!
# How long the timer thread may sleep

`calculate_timeout` of `comLib/dhntimer/DHNTimerQueue.h`: the time until the earliest timer, at most
the time that the caller gives. `timeout_exact` says that it is exact in every state that a run
reaches. The earliest timer is read through the earliest spoke, which is right by `WellFormed`, and
the difference and the comparisons are exact because all values are in normal form.
-/

set_option autoImplicit false
set_option relaxedAutoImplicit false

namespace Exc.Timer

open Lib

/-- What `calculate_timeout` returns: one of its two pointers, or null. -/
inductive TimeoutPointer
  | maxWaitTime
  | theTimeout
  | null
  deriving DecidableEq

namespace TimerQueue

variable {cfg : WheelConfig}

/-- `calculate_timeout`: the pointer that it returns, and `*the_timeout` afterwards. A null pointer
is `none`. -/
def calculateTimeout (queue : TimerQueue cfg) (maxWaitTime theTimeout : Option TimeValue) :
    TimeoutPointer × Option TimeValue :=
  match theTimeout with
  | none => (.maxWaitTime, none)
  | some old =>
    if queue.wheel.isEmpty then
      -- Nothing is scheduled: what the caller gave is used.
      match maxWaitTime with
      | some max => (.theTimeout, some max)
      | none => (.null, some old)
    else
      let curTime := queue.env.clock
      let earliestTime := queue.wheel.earliestTime
      if earliestTime > curTime then
        let delta := earliestTime - curTime
        match maxWaitTime with
        | none => (.theTimeout, some delta)
        | some max => (.theTimeout, some (if !(max > delta) then max else delta))
      else (.theTimeout, some .zero)

/-- The queue with another reading of its clock. -/
def atTime (queue : TimerQueue cfg) (now : TimeValue) : TimerQueue cfg :=
  queue.applyEnv [.tick now]

/-- The first node of the earliest spoke of a wheel that is not empty, and what `earliest_time`
returns. -/
theorem earliestTime_spec {wheel : TimerWheel cfg} (h : wheel.WellFormed)
    (hempty : ¬wheel.isEmpty) :
    ∃ first ∈ wheel.pending, wheel.earliestTime = first.timerValue ∧
      ∀ n ∈ wheel.pending, first.timerValue ≤ n.timerValue := by
  have hcount : 0 < wheel.timerCount := by
    rw [TimerWheel.isEmpty, decide_eq_true_eq] at hempty
    omega
  obtain ⟨first, hfirst, hleast⟩ := h.earliest hcount
  have hearliest : wheel.earliestTime = first.timerValue := by rw [TimerWheel.earliestTime, hfirst]
  exact ⟨first, TimerWheel.mem_pending.mpr ⟨_, TimerWheel.getFirstI_mem hfirst⟩, hearliest, hleast⟩

/-- A timeout is right for a set of pending timers: without timers it is the longest wait, and
otherwise the wait until the earliest of them, at least zero and at most the longest wait. It does
not reach beyond a timer that is still to come. -/
structure RightTimeout (pending : Multiset Node) (now maxWait timeout : TimeValue) : Prop where
  idle : pending = 0 → timeout = maxWait
  earliest : pending ≠ 0 → ∃ first ∈ pending,
    (∀ n ∈ pending, first.timerValue.total ≤ n.timerValue.total) ∧
      timeout.total = max 0 (min maxWait.total (first.timerValue.total - now.total))
  inTime : ∀ n ∈ pending, now.total < n.timerValue.total →
    now.total + timeout.total ≤ n.timerValue.total

/-- A wait until the earliest timer, cut to the range that is allowed, is in time for all. -/
theorem RightTimeout.of_earliest {pending : Multiset Node} {now maxWait timeout : TimeValue}
    {first : Node} (hfirst : first ∈ pending)
    (hleast : ∀ n ∈ pending, first.timerValue.total ≤ n.timerValue.total)
    (hexact : timeout.total = max 0 (min maxWait.total (first.timerValue.total - now.total))) :
    RightTimeout pending now maxWait timeout where
  idle := fun hnone ↦ absurd (hnone ▸ hfirst) (Multiset.notMem_zero first)
  earliest := fun _ ↦ ⟨first, hfirst, hleast, hexact⟩
  inTime := fun n hn hfuture ↦ by
    have hle := hleast n hn
    omega

/-- The wait that is stored, by the three cases of the earliest time. -/
theorem timeout_total {now maxWait earliest : TimeValue} (hnow : now.Normalised)
    (hmax : maxWait.Normalised) (hnonneg : .zero ≤ maxWait) (hearliest : earliest.Normalised) :
    (if earliest > now then (if !(maxWait > earliest - now) then maxWait else earliest - now)
      else .zero : TimeValue).total = max 0 (min maxWait.total (earliest.total - now.total)) := by
  have hzero : TimeValue.zero.total = 0 := rfl
  have hwait := (TimeValue.le_iff_total_le TimeValue.zero_normalised hmax).mp hnonneg
  have hfuture := TimeValue.lt_iff_total_lt hnow hearliest
  have hshorter := TimeValue.lt_iff_total_lt (TimeValue.sub_normalised earliest now) hmax
  rw [TimeValue.sub_total] at hshorter
  rw [hzero] at hwait
  simp only [gt_iff_lt, hfuture, hshorter, Bool.not_eq_true', decide_eq_false_iff_not]
  split_ifs with hlater hlong
  · rw [TimeValue.sub_total]
    omega
  · omega
  · rw [hzero]
    omega

theorem calculateTimeout_right {queue : TimerQueue cfg} (h : queue.wheel.WellFormed)
    {maxWait : TimeValue} (hnow : queue.env.clock.Normalised) (hmax : maxWait.Normalised)
    (hnonneg : .zero ≤ maxWait) (out : TimeValue) :
    ∃ timeout, queue.calculateTimeout (some maxWait) (some out) = (.theTimeout, some timeout) ∧
      RightTimeout queue.wheel.pending queue.env.clock maxWait timeout := by
  by_cases hempty : queue.wheel.isEmpty
  · have hnone : queue.wheel.pending = 0 := by
      rw [TimerWheel.isEmpty, decide_eq_true_eq, h.counted] at hempty
      exact Multiset.card_eq_zero.mp hempty
    refine ⟨maxWait, by simp only [calculateTimeout, if_pos hempty], fun _ ↦ rfl, absurd hnone, ?_⟩
    rw [hnone]
    exact fun n hn ↦ absurd hn (Multiset.notMem_zero n)
  · obtain ⟨first, hfirst, hearliest, hleast⟩ := earliestTime_spec h hempty
    have hnormal := h.normalised first hfirst
    refine ⟨_, ?_, RightTimeout.of_earliest hfirst
      (fun n hn ↦ (TimeValue.le_iff_total_le hnormal (h.normalised n hn)).mp (hleast n hn))
      (timeout_total hnow hmax hnonneg hnormal)⟩
    simp only [calculateTimeout, if_neg hempty, hearliest]
    split_ifs <;> rfl

end TimerQueue

namespace State

variable {cfg : WheelConfig}

/-- In every state that a run reaches, at every reading of the clock and for every longest wait,
`calculate_timeout` stores the right timeout. Assumes: every absolute expiry time of the run is
positive. -/
theorem timeout_exact {prealloc : ℕ} {env : Env} {actions : List Action} {state : State cfg}
    (hrun : Reaches prealloc env actions state) {now maxWait : TimeValue} (hnow : now.Normalised)
    (hmax : maxWait.Normalised) (hnonneg : .zero ≤ maxWait) (out : TimeValue) :
    ∃ timeout, (state.queue.atTime now).calculateTimeout (some maxWait) (some out) =
        (.theTimeout, some timeout) ∧
      TimerQueue.RightTimeout state.queue.wheel.pending now maxWait timeout := by
  have hwell : (state.queue.atTime now).wheel.WellFormed := hrun.wellFormed
  exact TimerQueue.calculateTimeout_right hwell hnow hmax hnonneg out

/-- Two timers, due in one second and in half a millisecond more, and a longest wait of ten
seconds. -/
theorem timeout_exact_two :
    ∃ state : State smallWheel,
      Reaches 0 ⟨⟨100, 0⟩, fun _ ↦ false⟩
        [.schedule (some 1) 0 0 ⟨1, 500⟩ ⟨2, 0⟩, .schedule (some 2) 0 0 ⟨1, 0⟩ ⟨0, 0⟩] state ∧
        (state.queue.atTime ⟨100, 300⟩).calculateTimeout (some ⟨10, 0⟩) (some .zero) =
          (.theTimeout, some ⟨0, 999700⟩) ∧
        ∃ timeout, (state.queue.atTime ⟨100, 300⟩).calculateTimeout (some ⟨10, 0⟩) (some .zero) =
            (.theTimeout, some timeout) ∧
          TimerQueue.RightTimeout state.queue.wheel.pending ⟨100, 300⟩ ⟨10, 0⟩ timeout :=
  ⟨_, Run.of_isSome (by decide +kernel), by decide +kernel,
    timeout_exact (Run.of_isSome (by decide +kernel))
      ⟨⟨by decide, by decide⟩, by decide, by decide⟩
      ⟨⟨by decide, by decide⟩, by decide, by decide⟩ (by decide) .zero⟩

end State

end Exc.Timer
