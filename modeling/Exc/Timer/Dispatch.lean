import Exc.Timer.QueueInvariant

/-!
# Dispatch as a stable priority queue

What `expire` is for: it takes the timers that are due, in the order of their expiry and, among
equal expiry times, of their insertion, calls `handle_timeout` once for each, and puts the periodic
ones back at their next expiry. `Handlers.dispatches` says how a list of due timers goes on when the
callbacks are made in its order, `Rescheduled` is a timer that is put back, and `StablyDispatched`
is the specification of a call. None of the three mentions spokes.

The loop of `expire` is followed one round at a time. `dispatchInfoI_cases` is a round: it takes the
timer that is due before all others, and what it puts back is not due. So the number of due timers
falls by one (`expireLoop_spec`), and the loop ends after as many rounds as there were due timers.
The inner loop, which skips expiry times that have passed, ends because an interval in normal form
is at least one microsecond (`catchUp_isSome`); with another it may never end (`catchUp_eq_none`).

`run_expire` ties the function `expire` to the system of `State.step`: with callbacks that change
only their surroundings, a call of `expire` is a run of that system.
-/

set_option autoImplicit false
set_option relaxedAutoImplicit false

namespace Exc.Timer

open Lib TimerWheel

variable {cfg : WheelConfig}

/-! ### The specification -/

namespace Handlers

/-- The surroundings of the queue when `handle_timeout` has returned. -/
def handled (handlers : Handlers) (env : Env) (n : Node) : Env :=
  (handlers.handleTimeout n).foldl Env.apply env

/-- How a timer goes on: a one-shot timer ends, a periodic one ends when its task is stopped. -/
def outcome (handlers : Handlers) (env : Env) (n : Node) : Outcome :=
  if TimeValue.zero < n.interval then
    if n.type.any (handlers.handled env n).stopRepeated then .stopped else .rescheduled
  else .oneShot

/-- The surroundings of the queue when a round of `expire` is over. -/
def after (handlers : Handlers) (env : Env) (n : Node) : Env :=
  if handlers.outcome env n = .stopped then
    (handlers.handleRepeatedTimerStoped n).foldl Env.apply (handlers.handled env n)
  else handlers.handled env n

/-- The dispatches of a list of timers, in its order. -/
def dispatches (handlers : Handlers) : Env → List Node → List Dispatch
  | _, [] => []
  | env, n :: rest => ⟨n, handlers.outcome env n⟩ :: dispatches handlers (handlers.after env n) rest

end Handlers

/-- The timer `again` is the timer `n` at the least `n.timerValue + k * n.interval`, `k ≥ 1`, that
exceeds the current time; the order of insertion apart, nothing else has changed. -/
def Rescheduled (cur : TimeValue) (n again : Node) : Prop :=
  ∃ k, IsLeast {k | 1 ≤ k ∧ cur < (· + n.interval)^[k] n.timerValue} k ∧
    again = { n with timerValue := (· + n.interval)^[k] n.timerValue, stamp := again.stamp }

/-- The timers of a list of dispatches that are to be put back. -/
def repeated (dispatches : List Dispatch) : List Node :=
  (dispatches.filter fun d ↦ d.outcome = .rescheduled).map Dispatch.node

/-- The timers that are due at a time. -/
def dueAt (cur : TimeValue) (pending : Multiset Node) : Multiset Node :=
  pending.filter fun n ↦ n.timerValue ≤ cur

/-- The timers that are not due at a time. -/
def laterThan (cur : TimeValue) (pending : Multiset Node) : Multiset Node :=
  pending.filter fun n ↦ cur < n.timerValue

/-- What a call of `expire` does: the due timers are dispatched, each once, in the order in which
they are due; then nothing is due any more, and what is pending is every timer that was not due, as
it was, and the periodic timers whose task was not stopped, each at its next expiry. -/
structure StablyDispatched (handlers : Handlers) (cur : TimeValue) (queue : TimerQueue cfg)
    (result : TimerQueue.Expired cfg) : Prop where
  dispatched : ∃ due : List Node,
    (due : Multiset Node) = dueAt cur queue.wheel.pending ∧ due.Pairwise DueBefore ∧
      result.dispatches = handlers.dispatches queue.env due
  counted : result.count = result.dispatches.length
  later : ∀ n ∈ result.queue.wheel.pending, cur < n.timerValue
  pending : ∃ again : List Node, List.Forall₂ (Rescheduled cur) (repeated result.dispatches) again ∧
    result.queue.wheel.pending = laterThan cur queue.wheel.pending + again

section DueAt

variable {cur : TimeValue} {n : Node} {pending : Multiset Node}

theorem dueAt_cons_of_le (hle : n.timerValue ≤ cur) :
    dueAt cur (n ::ₘ pending) = n ::ₘ dueAt cur pending :=
  Multiset.filter_cons_of_pos pending hle

theorem dueAt_cons_of_lt (hlt : cur < n.timerValue) :
    dueAt cur (n ::ₘ pending) = dueAt cur pending :=
  Multiset.filter_cons_of_neg pending (not_le.mpr hlt)

theorem laterThan_cons_of_le (hle : n.timerValue ≤ cur) :
    laterThan cur (n ::ₘ pending) = laterThan cur pending :=
  Multiset.filter_cons_of_neg pending (not_lt.mpr hle)

theorem laterThan_cons_of_lt (hlt : cur < n.timerValue) :
    laterThan cur (n ::ₘ pending) = n ::ₘ laterThan cur pending :=
  Multiset.filter_cons_of_pos pending hlt

theorem dueAt_eq_zero (hlater : ∀ n ∈ pending, cur < n.timerValue) : dueAt cur pending = 0 :=
  Multiset.filter_eq_nil.mpr fun n hn ↦ not_le.mpr (hlater n hn)

theorem laterThan_eq_self (hlater : ∀ n ∈ pending, cur < n.timerValue) :
    laterThan cur pending = pending :=
  Multiset.filter_eq_self.mpr hlater

end DueAt

namespace TimerQueue

/-! ### The inner loop -/

/-- A time with seconds after those of another is after it, whatever its microseconds are. -/
theorem lt_of_total_le {cur value : TimeValue} (hnorm : value.Normalised)
    (htotal : (cur.sec + 2) * oneSecondInUsecs ≤ value.total) : cur < value := by
  have hbounded := hnorm.bounded
  rw [TimeValue.lt_def]
  simp only [TimeValue.total, TimeValue.UsecBounded, oneSecondInUsecs] at *
  omega

/-- The catch-up loop ends when the interval is positive: a round adds at least a microsecond. -/
theorem catchUp_isSome {interval cur : TimeValue} (hinterval : 1 ≤ interval.total) :
    ∀ (rounds : ℕ) (value : TimeValue),
      (cur.sec + 2) * oneSecondInUsecs ≤ value.total + rounds →
        (catchUp interval cur (rounds + 1) value).isSome
  | 0, value, hrounds => by
    have hlater : ¬ value + interval ≤ cur := by
      rw [not_le]
      refine lt_of_total_le (TimeValue.add_normalised _ _) ?_
      rw [TimeValue.add_total]
      omega
    rw [catchUp, if_neg hlater]
    rfl
  | rounds + 1, value, hrounds => by
    rw [catchUp]
    split_ifs with hle
    · refine catchUp_isSome hinterval rounds _ ?_
      rw [TimeValue.add_total]
      push_cast at hrounds
      omega
    · rfl

/-- The rounds that `dispatch_info_i` is given are enough. -/
theorem exists_catchUp {interval value : TimeValue} (hinterval : 1 ≤ interval.total)
    (hvalue : value.Normalised) (cur : TimeValue) :
    ∃ later, catchUp interval cur (catchUpRounds cur value) value = some later := by
  refine Option.isSome_iff_exists.mp (catchUp_isSome hinterval _ value ?_)
  have hbounded := hvalue.bounded
  simp only [TimeValue.total, TimeValue.UsecBounded, oneSecondInUsecs] at *
  push_cast
  omega

/-- The loop never ends with an interval that is no step forward. An interval of one second and
minus two million microseconds, which `usec(long)` can set, is such an interval, and it is after
zero all the same. -/
theorem catchUp_eq_none {interval cur : TimeValue} (hinterval : interval.total ≤ 0) :
    ∀ (rounds : ℕ) {value : TimeValue}, value.Normalised → value ≤ cur →
      catchUp interval cur rounds value = none
  | 0, _, _, _ => rfl
  | rounds + 1, value, hvalue, hdue => by
    have hlater := TimeValue.add_normalised value interval
    have hback : value + interval ≤ value := by
      rw [TimeValue.le_iff_total_le hlater hvalue, TimeValue.add_total]
      omega
    rw [catchUp, if_pos (hback.trans hdue)]
    exact catchUp_eq_none hinterval rounds hlater (hback.trans hdue)

example : TimeValue.zero < ⟨1, -2000000⟩ ∧ (⟨1, -2000000⟩ : TimeValue).total ≤ 0 := by decide

/-- An expiry time stays positive when a positive interval is added. -/
theorem zero_lt_iterate {interval value : TimeValue} (hinterval : 1 ≤ interval.total)
    (hvalue : value.Normalised) (hpos : TimeValue.zero < value) {k : ℕ} (hk : 1 ≤ k) :
    TimeValue.zero < (· + interval)^[k] value := by
  have hnorm : ((· + interval)^[k] value).Normalised := by
    obtain ⟨j, rfl⟩ : ∃ j, k = j + 1 := ⟨k - 1, by omega⟩
    rw [Function.iterate_succ_apply']
    exact TimeValue.add_normalised _ _
  rw [TimeValue.lt_iff_total_lt TimeValue.zero_normalised hnorm, TimeValue.iterate_add_total]
  have hzero : 0 < value.total := TimeValue.total_pos_of_zero_lt hvalue.bounded hpos
  have hadd : 0 ≤ (k : ℤ) * interval.total := by positivity
  exact (by omega : 0 < value.total + k * interval.total)

/-! ### One round -/

/-- Timers as `addTimer` makes them: a task that is not null, and an interval in normal form, as
every constructor of `TimeValue` leaves it. -/
structure Regular (n : Node) : Prop where
  task : n.type ≠ none
  interval : n.interval.Normalised

/-- A periodic timer that was due is put back on the wheel at its next expiry. -/
theorem reschedule_later {wheel : TimerWheel cfg} (h : wheel.WellFormed) {cur later : TimeValue}
    {n : Node} (hinterval : 1 ≤ n.interval.total) (hnorm : n.timerValue.Normalised)
    (hpos : TimeValue.zero < n.timerValue)
    (hcatch : catchUp n.interval cur (catchUpRounds cur n.timerValue) n.timerValue = some later) :
    (wheel.reschedule { n with timerValue := later }).WellFormed ∧ cur < later ∧
      ∃ again, Rescheduled cur n again ∧ again.timerValue = later ∧
        (wheel.reschedule { n with timerValue := later }).pending = again ::ₘ wheel.pending := by
  obtain ⟨k, hleast, hlater⟩ := catchUp_some hcatch
  have hpositive : TimeValue.zero < later := by
    rw [hlater]
    exact zero_lt_iterate hinterval hnorm hpos hleast.1.1
  refine ⟨h.scheduleNode hpositive (catchUp_normalised hcatch), ?_, _, ⟨k, hleast, ?_⟩, rfl,
    pending_scheduleNode wheel _ _ _⟩
  · rw [hlater]
    exact hleast.1.2
  · rw [hlater]

/-- A round of `expire`: nothing is due, or the timer that is due before all others is dispatched
and what is put back is not due. -/
theorem dispatchInfoI_cases {queue : TimerQueue cfg} (h : queue.wheel.WellFormed)
    (hregular : ∀ n ∈ queue.wheel.pending, Regular n) (handlers : Handlers) (cur : TimeValue) :
    (queue.dispatchInfoI handlers cur = .ok (none, queue) ∧
        ∀ n ∈ queue.wheel.pending, cur < n.timerValue) ∨
      ∃ n rest queue', queue.dispatchInfoI handlers cur =
          .ok (some ⟨n, handlers.outcome queue.env n⟩, queue') ∧
        queue'.env = handlers.after queue.env n ∧ n.timerValue ≤ cur ∧
        queue'.wheel.WellFormed ∧ queue.wheel.pending = n ::ₘ rest ∧
        (∀ m ∈ rest, DueBefore n m) ∧
        ((handlers.outcome queue.env n ≠ .rescheduled ∧ queue'.wheel.pending = rest) ∨
          (handlers.outcome queue.env n = .rescheduled ∧ ∃ again, Rescheduled cur n again ∧
            cur < again.timerValue ∧ queue'.wheel.pending = again ::ₘ rest)) := by
  rcases dispatchBegin_cases queue cur with
    ⟨hbegin, hlater⟩ | ⟨-, hill⟩ | ⟨n, wheel, hbegin, hdue, hpending, -, hafter⟩
  · refine Or.inl ⟨?_, hlater h⟩
    rw [dispatchInfoI, hbegin]
    rfl
  · exact absurd h hill
  obtain ⟨hwell, hbefore⟩ := hafter h
  have hmem : n ∈ queue.wheel.pending := hpending ▸ Multiset.mem_cons_self n _
  obtain ⟨ev, htype⟩ := Option.ne_none_iff_exists'.mp (hregular n hmem).task
  rw [htype, Option.map_some] at hbegin
  refine Or.inr ⟨n, wheel.pending, ?_⟩
  simp only [dispatchInfoI, hbegin, bind, Except.bind]
  -- The queue in which `handle_timeout` has returned.
  generalize hhandled : TimerQueue.applyEnv { queue with wheel := wheel }
    (handlers.handleTimeout n) = handled
  have henv : handled.env = handlers.handled queue.env n := by rw [← hhandled]; rfl
  have hwheel : handled.wheel = wheel := by rw [← hhandled]; rfl
  unfold dispatchEnd
  by_cases hperiodic : TimeValue.zero < n.interval
  · have hinterval : 1 ≤ n.interval.total :=
      TimeValue.total_pos_of_zero_lt (hregular n hmem).interval.bounded hperiodic
    obtain ⟨later, hcatch⟩ := exists_catchUp hinterval (h.normalised n hmem) cur
    rw [if_pos hperiodic, hcatch, henv]
    cases hstop : (handlers.handled queue.env n).stopRepeated ev with
    | true =>
      have houtcome : handlers.outcome queue.env n = .stopped := by
        simp [Handlers.outcome, hperiodic, htype, hstop]
      rw [houtcome]
      refine ⟨_, rfl, ?_, hdue, ?_, hpending, hbefore, Or.inl ⟨by simp, ?_⟩⟩
      · simp [Handlers.after, houtcome, applyEnv]
      · simpa [applyEnv, hwheel] using hwell
      · simp [applyEnv, hwheel]
    | false =>
      have houtcome : handlers.outcome queue.env n = .rescheduled := by
        simp [Handlers.outcome, hperiodic, htype, hstop]
      obtain ⟨hagain, hpast, again, hrescheduled, heq, hlinked⟩ := reschedule_later hwell
        hinterval (h.normalised n hmem) (h.positive n hmem) hcatch
      rw [houtcome]
      refine ⟨_, rfl, ?_, hdue, ?_, hpending, hbefore,
        Or.inr ⟨rfl, again, hrescheduled, heq ▸ hpast, ?_⟩⟩
      · simp [Handlers.after, houtcome]
      · simpa [hwheel] using hagain
      · simpa [hwheel] using hlinked
  · have houtcome : handlers.outcome queue.env n = .oneShot := by
      simp [Handlers.outcome, hperiodic]
    rw [if_neg hperiodic, houtcome]
    refine ⟨_, rfl, ?_, hdue, ?_, hpending, hbefore, Or.inl ⟨by simp, ?_⟩⟩
    · simp [Handlers.after, houtcome, henv]
    · simpa [hwheel] using hwell
    · simp [hwheel]

/-! ### The loop -/

/-- What the loop of `expire` adds to the dispatches made before it: the due timers, in order. -/
structure LoopSpec (handlers : Handlers) (cur : TimeValue) (sofar result : Expired cfg)
    (due again : List Node) : Prop where
  is_due : (due : Multiset Node) = dueAt cur sofar.queue.wheel.pending
  ordered : due.Pairwise DueBefore
  dispatches : result.dispatches = sofar.dispatches ++ handlers.dispatches sofar.queue.env due
  count : result.count = sofar.count + due.length
  later : ∀ n ∈ result.queue.wheel.pending, cur < n.timerValue
  put_back : List.Forall₂ (Rescheduled cur)
    (repeated (handlers.dispatches sofar.queue.env due)) again
  pending : result.queue.wheel.pending = laterThan cur sofar.queue.wheel.pending + again

/-- When nothing is due the loop ends at once. -/
theorem LoopSpec.nothing_due {handlers : Handlers} {cur : TimeValue} {sofar : Expired cfg}
    (hlater : ∀ n ∈ sofar.queue.wheel.pending, cur < n.timerValue) :
    LoopSpec handlers cur sofar sofar [] [] where
  is_due := (dueAt_eq_zero hlater).symm
  ordered := List.Pairwise.nil
  dispatches := by simp [Handlers.dispatches]
  count := rfl
  later := hlater
  put_back := by simp [Handlers.dispatches, repeated]
  pending := by simpa using (laterThan_eq_self hlater).symm

/-- A round in front of a loop: the timer it dispatches is before all that the loop dispatches, and
what it puts back is neither due nor dispatched again. -/
theorem LoopSpec.round {handlers : Handlers} {cur : TimeValue} {sofar result : Expired cfg}
    {queue : TimerQueue cfg} {n : Node} {rest : Multiset Node} {due again : List Node}
    (hspec : LoopSpec handlers cur
      ⟨sofar.count + 1, sofar.dispatches ++ [⟨n, handlers.outcome sofar.queue.env n⟩], queue⟩
      result due again)
    (henv : queue.env = handlers.after sofar.queue.env n) (hdue : n.timerValue ≤ cur)
    (hpending : sofar.queue.wheel.pending = n ::ₘ rest) (hbefore : ∀ m ∈ rest, DueBefore n m)
    (hcases : (handlers.outcome sofar.queue.env n ≠ .rescheduled ∧ queue.wheel.pending = rest) ∨
      (handlers.outcome sofar.queue.env n = .rescheduled ∧ ∃ back, Rescheduled cur n back ∧
        cur < back.timerValue ∧ queue.wheel.pending = back ::ₘ rest)) :
    ∃ put : List Node, LoopSpec handlers cur sofar result (n :: due) (put ++ again) := by
  -- What is due afterwards is what else was due, whether or not the timer is put back.
  have hrest : dueAt cur queue.wheel.pending = dueAt cur rest := by
    rcases hcases with ⟨-, heq⟩ | ⟨-, back, -, hpast, heq⟩
    · rw [heq]
    · rw [heq, dueAt_cons_of_lt hpast]
  have hmem : ∀ m ∈ due, m ∈ rest := by
    intro m hm
    have hm' : m ∈ (due : Multiset Node) := hm
    rw [hspec.is_due, hrest] at hm'
    exact Multiset.mem_of_mem_filter hm'
  have hdispatches : handlers.dispatches sofar.queue.env (n :: due) =
      ⟨n, handlers.outcome sofar.queue.env n⟩ :: handlers.dispatches queue.env due := by
    rw [Handlers.dispatches, henv]
  have hcommon : ∀ put : List Node,
      List.Forall₂ (Rescheduled cur)
        (repeated (handlers.dispatches sofar.queue.env (n :: due))) (put ++ again) →
      laterThan cur queue.wheel.pending = laterThan cur rest + (put : Multiset Node) →
      LoopSpec handlers cur sofar result (n :: due) (put ++ again) := by
    intro put hagain hput
    constructor
    · rw [hpending, dueAt_cons_of_le hdue, ← hrest, ← hspec.is_due, Multiset.cons_coe]
    · exact List.pairwise_cons.mpr ⟨fun m hm ↦ hbefore m (hmem m hm), hspec.ordered⟩
    · rw [hspec.dispatches, hdispatches, List.append_assoc, List.singleton_append]
    · rw [hspec.count, List.length_cons]
      dsimp only
      omega
    · exact hspec.later
    · exact hagain
    · rw [hspec.pending, hpending, laterThan_cons_of_le hdue, hput, ← Multiset.coe_add, add_assoc]
  rcases hcases with ⟨hends, heq⟩ | ⟨hends, back, hback, hpast, heq⟩
  · refine ⟨[], hcommon [] ?_ ?_⟩
    · rw [hdispatches, repeated, List.filter_cons_of_neg (by simpa using hends)]
      exact hspec.put_back
    · rw [heq]
      simp
  · refine ⟨[back], hcommon [back] ?_ ?_⟩
    · rw [hdispatches, repeated, List.filter_cons_of_pos (by simpa using hends)]
      exact List.Forall₂.cons hback hspec.put_back
    · rw [heq, laterThan_cons_of_lt hpast, Multiset.coe_singleton, add_comm,
        Multiset.singleton_add]

/-- The loop of `expire` ends within one round more than there are due timers. -/
theorem expireLoop_spec (handlers : Handlers) (cur : TimeValue) : ∀ (due : ℕ)
    (sofar : Expired cfg), sofar.queue.wheel.WellFormed →
      (∀ n ∈ sofar.queue.wheel.pending, Regular n) →
      (dueAt cur sofar.queue.wheel.pending).card = due →
      ∃ result nodes again, (∀ rounds, due < rounds →
        expireLoop handlers cur rounds sofar = .ok result) ∧
          LoopSpec handlers cur sofar result nodes again := by
  intro due
  induction due with
  | zero =>
    intro sofar h hregular hcard
    rcases dispatchInfoI_cases h hregular handlers cur with
      ⟨hinfo, hlater⟩ | ⟨n, rest, queue, -, -, hdue, -, hpending, -⟩
    · refine ⟨sofar, [], [], fun rounds hrounds ↦ ?_, LoopSpec.nothing_due hlater⟩
      obtain ⟨k, rfl⟩ : ∃ k, rounds = k + 1 := ⟨rounds - 1, by omega⟩
      rw [expireLoop, hinfo]
      rfl
    · rw [hpending, dueAt_cons_of_le hdue, Multiset.card_cons] at hcard
      omega
  | succ due ih =>
    intro sofar h hregular hcard
    rcases dispatchInfoI_cases h hregular handlers cur with
      ⟨hinfo, hlater⟩ | ⟨n, rest, queue, hinfo, henv, hdue, hwell, hpending, hbefore, hcases⟩
    · rw [dueAt_eq_zero hlater] at hcard
      simp at hcard
    · have hregular' : ∀ m ∈ queue.wheel.pending, Regular m := by
        intro m hm
        have hn := hregular n (hpending ▸ Multiset.mem_cons_self n rest)
        rcases hcases with ⟨-, heq⟩ | ⟨-, back, ⟨k, -, hback⟩, -, heq⟩
        · exact hregular m (hpending ▸ Multiset.mem_cons_of_mem (heq ▸ hm))
        · rcases Multiset.mem_cons.mp (heq ▸ hm) with rfl | hrest
          · rw [hback]
            exact ⟨hn.task, hn.interval⟩
          · exact hregular m (hpending ▸ Multiset.mem_cons_of_mem hrest)
      have hcard' : (dueAt cur queue.wheel.pending).card = due := by
        rw [hpending, dueAt_cons_of_le hdue, Multiset.card_cons] at hcard
        rcases hcases with ⟨-, heq⟩ | ⟨-, back, -, hpast, heq⟩
        · rw [heq]
          omega
        · rw [heq, dueAt_cons_of_lt hpast]
          omega
      obtain ⟨result, nodes, again, hloop, hspec⟩ := ih
        ⟨sofar.count + 1, sofar.dispatches ++ [⟨n, handlers.outcome sofar.queue.env n⟩], queue⟩
        hwell hregular' hcard'
      obtain ⟨put, hround⟩ := hspec.round henv hdue hpending hbefore hcases
      refine ⟨result, n :: nodes, put ++ again, fun rounds hrounds ↦ ?_, hround⟩
      obtain ⟨k, rfl⟩ : ∃ k, rounds = k + 1 := ⟨rounds - 1, by omega⟩
      rw [expireLoop, hinfo]
      exact hloop k (by omega)

theorem length_dispatches (handlers : Handlers) (env : Env) (nodes : List Node) :
    (handlers.dispatches env nodes).length = nodes.length := by
  induction nodes generalizing env with
  | nil => rfl
  | cons n rest ih => simp [Handlers.dispatches, ih]

/-- In every reachable state a call of `expire` returns and dispatches as a stable priority queue
does. Assumes: the pending timers have tasks and normalised intervals. -/
theorem expire_stablyDispatched {prealloc : ℕ} {env : Env} {actions : List Action}
    {state : State cfg} (hrun : State.Reaches prealloc env actions state)
    (hregular : ∀ n ∈ state.queue.wheel.pending, Regular n) (handlers : Handlers)
    (cur : TimeValue) :
    ∃ result, (∀ rounds, (dueAt cur state.queue.wheel.pending).card < rounds →
        state.queue.expire handlers cur rounds = .ok result) ∧
      StablyDispatched handlers cur state.queue result := by
  obtain ⟨result, due, again, hloop, hspec⟩ := expireLoop_spec handlers cur _
    ⟨0, [], state.queue⟩ hrun.wellFormed hregular rfl
  have hdispatches : result.dispatches = handlers.dispatches state.queue.env due := by
    simpa using hspec.dispatches
  refine ⟨result, fun rounds hrounds ↦ ?_, ⟨due, hspec.is_due, hspec.ordered, hdispatches⟩, ?_,
    hspec.later, again, ?_, hspec.pending⟩
  · rw [expire]
    split_ifs with hempty
    · -- On an empty wheel the loop, too, would end at once.
      have hrounds' : ∃ k, rounds = k + 1 := ⟨rounds - 1, by omega⟩
      obtain ⟨k, rfl⟩ := hrounds'
      rw [← hloop (k + 1) hrounds, expireLoop, dispatchInfoI, dispatchBegin, if_pos hempty]
      rfl
    · exact hloop rounds hrounds
  · rw [hdispatches, length_dispatches, hspec.count]
    exact Nat.zero_add _
  · rw [hdispatches]
    exact hspec.put_back

/-- Two timers are due, and the periodic one is three periods late. -/
theorem expire_stablyDispatched_late :
    ∃ (state : State State.smallWheel) (result : Expired State.smallWheel),
      (∀ rounds, (dueAt ⟨105, 0⟩ state.queue.wheel.pending).card < rounds →
        state.queue.expire ⟨fun _ ↦ [], fun _ ↦ []⟩ ⟨105, 0⟩ rounds = .ok result) ∧
      StablyDispatched ⟨fun _ ↦ [], fun _ ↦ []⟩ ⟨105, 0⟩ state.queue result := by
  have hsome : ([.schedule (some 1) 0 0 ⟨1, 0⟩ ⟨1, 0⟩, .schedule (some 2) 0 0 ⟨0, 5⟩ ⟨0, 0⟩,
      .schedule (some 3) 0 0 ⟨60, 0⟩ ⟨0, 0⟩].foldlM
        (guardedNext State.ExpiryPositive State.next)
        (State.init State.smallWheel 0 ⟨⟨100, 0⟩, fun _ ↦ false⟩)).isSome := by decide +kernel
  have hregular : ∀ spoke, ∀ n ∈ ((Option.get _ hsome).queue.wheel.spokes spoke).nodes,
      n.type ≠ none ∧ n.interval = ⟨n.interval.sec, 0⟩ := by
    decide +kernel +revert
  refine ⟨_, expire_stablyDispatched (Run.of_isSome hsome) (fun n hn ↦ ?_) _ _⟩
  obtain ⟨spoke, hspoke⟩ := mem_pending.mp hn
  obtain ⟨htask, hinterval⟩ := hregular spoke n hspoke
  refine ⟨htask, ?_⟩
  rw [hinterval]
  exact ⟨by simp [TimeValue.UsecBounded, oneSecondInUsecs], fun _ ↦ le_rfl, fun _ ↦ le_rfl⟩

/-- Without positive expiry times a due timer can be left: `recalc_earliest` takes the time zero for
no time at all, and so it passes over the timer that is due then. -/
theorem expire_leaves_due_of_zero :
    ∃ (actions : List Action) (state : State State.smallWheel) (result : Expired State.smallWheel),
      Run (stepOf State.next) (State.init State.smallWheel 0 ⟨⟨10, 0⟩, fun _ ↦ false⟩) actions
        state ∧
      (∀ spoke, ∀ n ∈ (state.queue.wheel.spokes spoke).nodes,
        n.type ≠ none ∧ n.interval = TimeValue.zero) ∧
      TimeValue.zero < (⟨11, 0⟩ : TimeValue) ∧
      state.queue.expire ⟨fun _ ↦ [], fun _ ↦ []⟩ ⟨11, 0⟩ 4 = .ok result ∧
      ¬StablyDispatched ⟨fun _ ↦ [], fun _ ↦ []⟩ ⟨11, 0⟩ state.queue result := by
  have hsome : ([.schedule (some 1) 0 0 ⟨-15, 0⟩ ⟨0, 0⟩, .schedule (some 2) 0 0 ⟨-10, 0⟩ ⟨0, 0⟩,
      .schedule (some 3) 0 0 ⟨10, 2000⟩ ⟨0, 0⟩].foldlM State.next
        (State.init State.smallWheel 0 ⟨⟨10, 0⟩, fun _ ↦ false⟩)).isSome := by decide +kernel
  have htasks : ∀ spoke, ∀ n ∈ ((Option.get _ hsome).queue.wheel.spokes spoke).nodes,
      n.type ≠ none ∧ n.interval = TimeValue.zero := by
    decide +kernel +revert
  have hleft : ((Option.get _ hsome).queue.expire ⟨fun _ ↦ [], fun _ ↦ []⟩ ⟨11, 0⟩ 4).toOption.any
      fun result ↦ ¬∀ spoke, ∀ n ∈ (result.queue.wheel.spokes spoke).nodes,
        (⟨11, 0⟩ : TimeValue) < n.timerValue := by
    decide +kernel +revert
  cases hexpire : (Option.get _ hsome).queue.expire ⟨fun _ ↦ [], fun _ ↦ []⟩ ⟨11, 0⟩ 4 with
  | error fault =>
    rw [hexpire] at hleft
    cases hleft
  | ok result =>
    rw [hexpire] at hleft
    refine ⟨_, _, result, Run.of_eval hsome, htasks, by decide, hexpire, fun hdispatched ↦ ?_⟩
    refine of_decide_eq_true hleft fun spoke n hn ↦ ?_
    exact hdispatched.later n (mem_pending.mpr ⟨spoke, hn⟩)

/-! ### Callbacks that do not touch the queue, as runs -/

/-- What a callback does to the surroundings of the queue is a run. -/
theorem run_applyEnv (queue : TimerQueue cfg) (phase : Phase) (log : List Event) :
    ∀ ops : List EnvOp, Run (stepOf State.next) ⟨queue, phase, log⟩ (ops.map .env)
      ⟨queue.applyEnv ops, phase, log⟩ := by
  intro ops
  induction ops generalizing queue with
  | nil => exact .refl
  | cons op rest ih => exact Run.head rfl (ih { queue with env := queue.env.apply op })

/-- The parts of a `dispatch_info_i` that returns. -/
theorem dispatchInfoI_ok {handlers : Handlers} {cur : TimeValue} {queue queue' : TimerQueue cfg}
    {dispatch : Option Dispatch}
    (hinfo : queue.dispatchInfoI handlers cur = .ok (dispatch, queue')) :
    (dispatch = none ∧ queue.dispatchBegin cur = .ok (none, queue')) ∨
      ∃ ev n outcome begun ended, dispatch = some ⟨n, outcome⟩ ∧
        queue.dispatchBegin cur = .ok (some (ev, n), begun) ∧
        (begun.applyEnv (handlers.handleTimeout n)).dispatchEnd cur ev n = .ok (outcome, ended) ∧
        queue' = if outcome = .stopped then
          ended.applyEnv (handlers.handleRepeatedTimerStoped n) else ended := by
  unfold dispatchInfoI at hinfo
  cases hbegin : queue.dispatchBegin cur with
  | error fault => simp [hbegin, bind, Except.bind] at hinfo
  | ok begun =>
    obtain ⟨_ | ⟨ev, n⟩, begun⟩ := begun
    · refine Or.inl ?_
      simpa [hbegin, bind, Except.bind, pure, Except.pure, eq_comm] using hinfo
    · cases hend : (begun.applyEnv (handlers.handleTimeout n)).dispatchEnd cur ev n with
      | error fault => simp [hbegin, hend, bind, Except.bind] at hinfo
      | ok ended =>
        obtain ⟨outcome, ended⟩ := ended
        refine Or.inr ⟨ev, n, outcome, begun, ended, ?_⟩
        cases outcome <;>
          simpa [hbegin, hend, bind, Except.bind, pure, Except.pure, eq_comm] using hinfo

/-- A round of `expire` that dispatches a timer is a run from the entry of its `handle_timeout` to
the next round. -/
theorem run_dispatchInfoI {handlers : Handlers} {cur : TimeValue} {queue queue' : TimerQueue cfg}
    {dispatch : Dispatch} (hinfo : queue.dispatchInfoI handlers cur = .ok (some dispatch, queue'))
    (count : ℕ) (log : List Event) :
    ∃ entered events, State.expireRound queue cur count log = .ok entered ∧
      events.filterMap Event.fired = [dispatch.node.serial] ∧
      ∀ first, State.expireRound queue' cur (count + 1) (log ++ events) = .ok first →
        ∃ actions, Run (stepOf State.next) entered actions first := by
  rcases dispatchInfoI_ok hinfo with ⟨hnone, -⟩ | ⟨ev, n, outcome, begun, ended, hsome, hbegin,
    hend, hqueue⟩
  · cases hnone
  obtain rfl : dispatch = ⟨n, outcome⟩ := Option.some.inj hsome
  let event : Event := .handleTimeout ev n.serial (toInt n.timerId) begun.env.clock n.act1 n.act2
  have hhandled := run_applyEnv begun (.handling cur ev n count) (log ++ [event])
    (handlers.handleTimeout n)
  refine ⟨⟨begun, .handling cur ev n count, log ++ [event]⟩,
    event :: State.outcomeEvents ev outcome, ?_, ?_, fun first hfirst ↦ ?_⟩
  · rw [State.expireRound, hbegin]
    rfl
  · cases outcome <;> rfl
  rw [List.append_cons, hqueue] at hfirst
  cases outcome with
  | stopped =>
    have hstopping : State.next ⟨begun.applyEnv (handlers.handleTimeout n),
        .handling cur ev n count, log ++ [event]⟩ .returnCallback =
        some ⟨ended, .stopping cur count, log ++ [event] ++ State.outcomeEvents ev .stopped⟩ := by
      simp only [State.next, State.step, hend]
      rfl
    have hlast : State.next ⟨ended.applyEnv (handlers.handleRepeatedTimerStoped n),
        .stopping cur count, log ++ [event] ++ State.outcomeEvents ev .stopped⟩
        .returnCallback = some first := by
      rw [if_pos rfl] at hfirst
      simp only [State.next, State.step, hfirst]
      rfl
    exact ⟨_, ((hhandled.tail hstopping).trans (run_applyEnv _ _ _ _)).tail hlast⟩
  | oneShot | rescheduled =>
    have hnext : State.next ⟨begun.applyEnv (handlers.handleTimeout n),
        .handling cur ev n count, log ++ [event]⟩ .returnCallback = some first := by
      rw [if_neg (by decide)] at hfirst
      simp only [State.next, State.step, hend, bind, Except.bind, hfirst]
      rfl
    exact ⟨_, hhandled.tail hnext⟩

/-- From the beginning of a round on, the loop of `expire` is a run that makes its dispatches. -/
theorem run_expireLoop (handlers : Handlers) (cur : TimeValue) : ∀ (rounds : ℕ)
    (sofar result : Expired cfg) (log : List Event),
      expireLoop handlers cur rounds sofar = .ok result →
      ∃ first, State.expireRound sofar.queue cur sofar.count log = .ok first ∧
        ∃ actions events more,
          Run (stepOf State.next) first actions
            ⟨result.queue, .idle, log ++ events ++ [.expireReturned result.count]⟩ ∧
          result.dispatches = sofar.dispatches ++ more ∧
          events.filterMap Event.fired = more.map (·.node.serial) := by
  intro rounds
  induction rounds with
  | zero =>
    intro sofar result log hloop
    simp [expireLoop] at hloop
  | succ rounds ih =>
    intro sofar result log hloop
    rw [expireLoop] at hloop
    cases hinfo : sofar.queue.dispatchInfoI handlers cur with
    | error fault => simp [hinfo, bind, Except.bind] at hloop
    | ok info =>
      obtain ⟨_ | dispatch, queue⟩ := info
      · simp only [hinfo, bind, Except.bind] at hloop
        obtain rfl : _ = result := Except.ok.inj hloop
        rcases dispatchInfoI_ok hinfo with ⟨-, hbegin⟩ | ⟨_, _, _, _, _, hsome, -⟩
        · refine ⟨⟨queue, .idle, log ++ [.expireReturned sofar.count]⟩, ?_, [], [], [],
            by simpa using Run.refl, by simp, rfl⟩
          rw [State.expireRound, hbegin]
          rfl
        · cases hsome
      · simp only [hinfo, bind, Except.bind] at hloop
        obtain ⟨entered, fired, hentered, hfired, hround⟩ :=
          run_dispatchInfoI hinfo sofar.count log
        obtain ⟨first, hfirst, actions, events, more, hrun, hmore, hevents⟩ :=
          ih _ _ (log ++ fired) hloop
        obtain ⟨before, hbefore⟩ := hround first hfirst
        refine ⟨entered, hentered, before ++ actions, fired ++ events, dispatch :: more,
          ?_, ?_, ?_⟩
        · rw [← List.append_assoc]
          exact hbefore.trans hrun
        · rw [hmore, List.append_assoc, List.singleton_append]
        · rw [List.filterMap_append, hfired, hevents, List.map_cons, List.singleton_append]

/-- With callbacks that do not touch the queue, a call of `expire` is a run of the system: it makes
the dispatches in their order and returns their number. -/
theorem run_expire {handlers : Handlers} {cur : TimeValue} {rounds : ℕ} {queue : TimerQueue cfg}
    {result : Expired cfg} (hexpire : queue.expire handlers cur rounds = .ok result)
    (log : List Event) :
    ∃ actions events,
      Run (stepOf State.next) ⟨queue, .idle, log⟩ (.expire cur :: actions)
        ⟨result.queue, .idle, log ++ events ++ [.expireReturned result.count]⟩ ∧
      events.filterMap Event.fired = result.dispatches.map (·.node.serial) := by
  unfold expire at hexpire
  split_ifs at hexpire with hempty
  · obtain rfl : _ = result := Except.ok.inj hexpire
    refine ⟨[], [], Run.head ?_ .refl, rfl⟩
    simp only [stepOf, State.next, State.step, if_pos hempty, List.append_nil]
    rfl
  · obtain ⟨first, hfirst, actions, events, more, hrun, hmore, hevents⟩ :=
      run_expireLoop handlers cur rounds ⟨0, [], queue⟩ result log hexpire
    refine ⟨actions, events, Run.head ?_ hrun, ?_⟩
    · simp only [stepOf, State.next, State.step]
      rw [if_neg hempty, hfirst]
      rfl
    · rw [hevents, hmore, List.nil_append]

end TimerQueue

end Exc.Timer
