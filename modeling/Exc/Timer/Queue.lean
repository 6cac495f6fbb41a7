import Exc.Lib.Run
import Exc.Timer.Wheel

/-!
# The timer queue and its callbacks

`comLib/dhntimer/DHNTimerQueue.h`. `schedule`, `cancel_timer` and `expire` run under the recursive
mutex `m_mutex`, so they are serialised; what runs in the middle of one of them is a callback of
`expire`, `handle_timeout` or `handle_repeated_timer_stoped`, which may itself call `schedule`,
`cancel_timer` and `stop_repeated`. `dispatch_info_i` is therefore cut at its callbacks:
`dispatchBegin` is the part before `handle_timeout` and `dispatchEnd` the part after it.

Two readings of `expire` are made from these parts. `step` is the system that any client sees: a
state knows which callback is running, an action is a call made from outside or from that callback,
or the return of the callback. Every run of the queue, with callbacks that do whatever they like, is
a run of `step`. `expire` is the function for callbacks that do not touch the queue: a callback is
then given by what it does to its surroundings (`EnvOp`), the clock that the queue reads and the
flags `m_bStopRepeated`. `run_expire` says that the second is an instance of the first.

Scope. A callback does not call `expire` itself.
-/

set_option autoImplicit false
set_option relaxedAutoImplicit false

namespace Exc.Timer

open Lib

/-- What the queue reads from outside: the time that `gettimeofday` returns, and the flag
`m_bStopRepeated` of every task. -/
structure Env where
  clock : TimeValue
  stopRepeated : Task → Bool

/-- A change of the surroundings: the clock moves, or `stop_repeated` is called on a task. -/
inductive EnvOp
  | tick (now : TimeValue)
  | stopRepeated (task : Task)

/-- One change of the surroundings. -/
def Env.apply (env : Env) : EnvOp → Env
  | .tick now => { env with clock := now }
  | .stopRepeated task => { env with stopRepeated := Function.update env.stopRepeated task true }

/-- The state of a `TimerQueue` over a wheel. The last field is not in the source: it numbers the
calls of `schedule`. -/
structure TimerQueue (cfg : WheelConfig) where
  wheel : TimerWheel cfg
  freeList : FreeList
  env : Env
  scheduled : ℕ

/-- How `dispatch_info_i` goes on after `handle_timeout`. -/
inductive Outcome
  | oneShot
  | stopped
  | rescheduled
  deriving DecidableEq

namespace TimerQueue

variable {cfg : WheelConfig}

/-- A freshly constructed queue. -/
def init (cfg : WheelConfig) (prealloc : ℕ) (env : Env) : TimerQueue cfg :=
  ⟨(TimerWheel.openI cfg prealloc).1, (TimerWheel.openI cfg prealloc).2, env, 0⟩

/-- `schedule` and `schedule_i(type, act1, act2, future_time, interval)`. A node that gets no id is
not linked, and not freed either. -/
def schedule (queue : TimerQueue cfg) (type : Option Task) (act1 act2 : ℕ)
    (future interval : TimeValue) : Except Fault (ℤ × TimerQueue cfg) :=
  let (addr, freeList) := queue.freeList.remove
  match addr with
  | none => .ok (0, { queue with freeList := freeList, scheduled := queue.scheduled + 1 })
  | some addr => do
    let tv := queue.env.clock + future
    let spoke := TimerWheel.calculateSpoke cfg tv
    let (id, wheel) ← queue.wheel.generateTimerId spoke
    let n : Node := ⟨addr, type, act1, act2, tv, interval, id, queue.scheduled, 0⟩
    let linked := if id = -1 then wheel else wheel.scheduleNode n spoke tv
    pure (id, { queue with
      wheel := linked, freeList := freeList, scheduled := queue.scheduled + 1 })

/-- `cancel_timer`: its result, what it stores through `act1` and `act2`, and the queue. -/
def cancelTimer (queue : TimerQueue cfg) (timerId : ℤ) :
    ℕ × Option (ℕ × ℕ) × TimerQueue cfg :=
  match queue.wheel.cancelNode timerId with
  | (none, _) => (0, none, queue)
  | (some n, wheel) =>
    (1, some (n.act1, n.act2),
      { queue with wheel := wheel, freeList := queue.freeList.add n.addr })

/-- `dispatch_info_i` up to `handle_timeout`: the task and the node, if one is due. A node whose
task is null is unlinked all the same. -/
def dispatchBegin (queue : TimerQueue cfg) (cur : TimeValue) :
    Except Fault (Option (Task × Node) × TimerQueue cfg) :=
  if queue.wheel.isEmpty then .ok (none, queue)
  else if queue.wheel.earliestTime ≤ cur then do
    let (expired, wheel) ← queue.wheel.removeFirst
    let next := { queue with wheel := wheel }
    match expired with
    | none => pure (none, next)
    | some n =>
      match n.type with
      | none => pure (none, next)
      | some ev => pure (some (ev, n), next)
  else .ok (none, queue)

/-- The loop of `dispatch_info_i` that skips expiry times that have already passed, with a bound on
its rounds. -/
def catchUp (interval cur : TimeValue) : ℕ → TimeValue → Option TimeValue
  | 0, _ => none
  | rounds + 1, value =>
    let later := value + interval
    if later ≤ cur then catchUp interval cur rounds later else some later

/-- Rounds that are enough for the loop when the interval is positive. -/
def catchUpRounds (cur value : TimeValue) : ℕ :=
  ((cur.sec - value.sec).toNat + 3) * 1000000 + 1

/-- `dispatch_info_i` after `handle_timeout` has returned. The call of
`handle_repeated_timer_stoped` follows when the outcome is `stopped`. -/
def dispatchEnd (queue : TimerQueue cfg) (cur : TimeValue) (ev : Task) (expired : Node) :
    Except Fault (Outcome × TimerQueue cfg) :=
  if TimeValue.zero < expired.interval then
    match catchUp expired.interval cur (catchUpRounds cur expired.timerValue)
      expired.timerValue with
    | none => .error .diverges
    | some later =>
      let next := { expired with timerValue := later }
      if queue.env.stopRepeated ev then
        .ok (.stopped, { queue with freeList := queue.freeList.add next.addr })
      else .ok (.rescheduled, { queue with wheel := queue.wheel.reschedule next })
  else .ok (.oneShot, { queue with freeList := queue.freeList.add expired.addr })

end TimerQueue

/-! ### The system that clients and callbacks see -/

/-- Calls out of the queue, and returns of the calls into it, in the order of their occurrence. -/
inductive Event
  | scheduleReturned (serial : ℕ) (timerId : ℤ)
  | cancelReturned (timerId : ℤ) (result : ℕ)
  | handleTimeout (task : Task) (serial : ℕ) (timerId : ℤ) (tv : TimeValue) (act1 act2 : ℕ)
  | isStopRepeated (task : Task) (result : Bool)
  | handleRepeatedTimerStoped (task : Task)
  | expireReturned (count : ℕ)
  deriving DecidableEq

/-- The timer, by its serial, whose `handle_timeout` an event is. -/
def Event.fired : Event → Option ℕ
  | .handleTimeout _ serial _ _ _ _ => some serial
  | _ => none

/-- The timer and the id that an event returns from `schedule`. -/
def Event.issued : Event → Option (ℕ × ℤ)
  | .scheduleReturned serial timerId => some (serial, timerId)
  | _ => none

/-- Whether `expire` is running, and which callback it is in: `handle_timeout` for a node, or
`handle_repeated_timer_stoped`, with the time `expire` was called for and the timers it counted. -/
inductive Phase
  | idle
  | handling (cur : TimeValue) (ev : Task) (expired : Node) (count : ℕ)
  | stopping (cur : TimeValue) (count : ℕ)
  deriving DecidableEq

/-- A state of the system: the queue, the callback that is running, and the calls so far. -/
structure State (cfg : WheelConfig) where
  queue : TimerQueue cfg
  phase : Phase
  log : List Event

/-- A call into the queue, a change of its surroundings, or the return of the running callback. -/
inductive Action
  | schedule (type : Option Task) (act1 act2 : ℕ) (future interval : TimeValue)
  | cancelTimer (timerId : ℤ)
  | env (op : EnvOp)
  | expire (cur : TimeValue)
  | returnCallback

namespace State

variable {cfg : WheelConfig}

/-- The state of a freshly constructed queue. -/
def init (cfg : WheelConfig) (prealloc : ℕ) (env : Env) : State cfg :=
  ⟨TimerQueue.init cfg prealloc env, .idle, []⟩

/-- One round of the loop of `expire`, up to the next callback or to its return. -/
def expireRound (queue : TimerQueue cfg) (cur : TimeValue) (count : ℕ) (log : List Event) :
    Except Fault (State cfg) := do
  let (due, next) ← queue.dispatchBegin cur
  match due with
  | none => pure ⟨next, .idle, log ++ [.expireReturned count]⟩
  | some (ev, n) =>
    pure ⟨next, .handling cur ev n count,
      log ++ [.handleTimeout ev n.serial (toInt n.timerId) next.env.clock n.act1 n.act2]⟩

/-- The calls on a task after its `handle_timeout`. -/
def outcomeEvents (ev : Task) : Outcome → List Event
  | .oneShot => []
  | .stopped => [.isStopRepeated ev true, .handleRepeatedTimerStoped ev]
  | .rescheduled => [.isStopRepeated ev false]

/-- One action: `none` when the action is not possible in the state. -/
def step (state : State cfg) : Action → Option (Except Fault (State cfg))
  | .schedule type act1 act2 future interval => some do
    let (id, queue) ← state.queue.schedule type act1 act2 future interval
    pure { state with
      queue := queue, log := state.log ++ [.scheduleReturned state.queue.scheduled id] }
  | .cancelTimer timerId =>
    let (result, _, queue) := state.queue.cancelTimer timerId
    some (.ok { state with
      queue := queue, log := state.log ++ [.cancelReturned timerId result] })
  | .env op =>
    some (.ok { state with queue := { state.queue with env := state.queue.env.apply op } })
  | .expire cur =>
    match state.phase with
    | .idle =>
      if state.queue.wheel.isEmpty then
        some (.ok { state with log := state.log ++ [.expireReturned 0] })
      else some (expireRound state.queue cur 0 state.log)
    | _ => none
  | .returnCallback =>
    match state.phase with
    | .idle => none
    | .handling cur ev expired count => some do
      let (outcome, queue) ← state.queue.dispatchEnd cur ev expired
      let log := state.log ++ outcomeEvents ev outcome
      match outcome with
      | .stopped => pure ⟨queue, .stopping cur count, log⟩
      | _ => expireRound queue cur (count + 1) log
    | .stopping cur count => some (expireRound state.queue cur (count + 1) state.log)

/-- One action that is possible and goes well. -/
def next (state : State cfg) (action : Action) : Option (State cfg) :=
  (state.step action).bind Except.toOption

end State

/-! ### `expire` with callbacks that do not touch the queue -/

/-- What the two callbacks of a task do to the surroundings of the queue. -/
structure Handlers where
  handleTimeout : Node → List EnvOp
  handleRepeatedTimerStoped : Node → List EnvOp

/-- One round of `expire`: the node whose `handle_timeout` was called, and how it went on. -/
structure Dispatch where
  node : Node
  outcome : Outcome

namespace TimerQueue

variable {cfg : WheelConfig}

/-- Changes of the surroundings, made by a callback. -/
def applyEnv (queue : TimerQueue cfg) (ops : List EnvOp) : TimerQueue cfg :=
  { queue with env := ops.foldl Env.apply queue.env }

/-- `dispatch_info_i`: `none` for its result 0. -/
def dispatchInfoI (handlers : Handlers) (cur : TimeValue) (queue : TimerQueue cfg) :
    Except Fault (Option Dispatch × TimerQueue cfg) := do
  let (due, begun) ← queue.dispatchBegin cur
  match due with
  | none => pure (none, begun)
  | some (ev, n) =>
    let handled := begun.applyEnv (handlers.handleTimeout n)
    let (outcome, ended) ← handled.dispatchEnd cur ev n
    match outcome with
    | .stopped =>
      pure (some ⟨n, .stopped⟩, ended.applyEnv (handlers.handleRepeatedTimerStoped n))
    | outcome => pure (some ⟨n, outcome⟩, ended)

/-- What a call of `expire` returns and does: `number_of_timers_expired`, its dispatches in order,
and the queue. -/
structure Expired (cfg : WheelConfig) where
  count : ℕ
  dispatches : List Dispatch
  queue : TimerQueue cfg

/-- The loop of `expire`, with a bound on its rounds. -/
def expireLoop (handlers : Handlers) (cur : TimeValue) :
    ℕ → Expired cfg → Except Fault (Expired cfg)
  | 0, _ => .error .diverges
  | rounds + 1, sofar => do
    let (dispatch, queue) ← sofar.queue.dispatchInfoI handlers cur
    match dispatch with
    | none => pure { sofar with queue := queue }
    | some d => expireLoop handlers cur rounds ⟨sofar.count + 1, sofar.dispatches ++ [d], queue⟩

/-- `expire(cur_time)`. -/
def expire (handlers : Handlers) (cur : TimeValue) (rounds : ℕ) (queue : TimerQueue cfg) :
    Except Fault (Expired cfg) :=
  if queue.wheel.isEmpty then .ok ⟨0, [], queue⟩
  else expireLoop handlers cur rounds ⟨0, [], queue⟩

end TimerQueue

end Exc.Timer
