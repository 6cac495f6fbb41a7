import Exc.SafeQueue.SafeQueue
import Mathlib.Data.Fintype.Basic

/-!
# Threads that are started and stopped

`comLib/Thread.h`: one thread object, with the thread that controls it and the worker that runs its
`ThreadFunc`. They share the flag `m_bRunning` and two queues of tokens, `m_start_lock_queue` and
`m_stop_lock_queue`. Each read and write of the flag is one step, and the queues are those of
`SafeQueue.h` with their own steps (`SafeQueue.next`), so that a run is an interleaving of the two
threads at the granularity of single operations on a flag, a semaphore or a mutex.

`run` is the work of a derived class. It is modelled as a loop `while (m_bRunning)`, whose test is a
step, that can also end for reasons of its own.

Scope. The object is started once, and stopped only after it was started; `m_mutex` serialises
`SynStart` and `SynStop`, which one controlling thread calls one after the other anyway. `Pop` with
a time can give up at any moment. `stopRequested` is not in the source: it is for the reader of a
run, and says whether a stop has been requested.
-/

set_option autoImplicit false
set_option relaxedAutoImplicit false

namespace Exc.Thread

/-- The two threads. -/
inductive Party
  | controller
  | worker
  deriving DecidableEq

instance : Fintype Party where
  elems := {.controller, .worker}
  complete := by intro party; cases party <;> decide

/-- Where the controlling thread stands: between calls, or in `SynStart` or `SynStop`, before the
assignment of the flag, inside `Clear`, before `Start`, or inside `Pop`. -/
inductive Controller
  | idle
  | synStartAssign (timeout : ℤ)
  | synStartClear (timeout : ℤ)
  | synStartStart (timeout : ℤ)
  | synStartPop
  | synStopClear (timeout : ℤ)
  | synStopAssign (timeout : ℤ)
  | synStopPop
  deriving DecidableEq

/-- Where the worker stands in `ThreadFunc`: before its first write of the flag, inside the `Push`
of the start token, inside `run`, before the writes of the two flags at the end, or inside the
`Push` of the stop token. -/
inductive Worker
  | absent
  | setRunning
  | pushStart
  | running
  | clearRunning
  | setHasEnd
  | pushStop
  | finished
  deriving DecidableEq

/-- A queue of tokens. -/
abbrev Tokens := SafeQueue.State Party ℤ

/-- The thread object and its two threads. -/
structure State where
  bRunning : Bool
  bHasEnd : Bool
  startQueue : Tokens
  stopQueue : Tokens
  controller : Controller
  worker : Worker
  stopRequested : Bool

variable (cfg : SafeQueue.Config)

/-- `Thread::Thread`. -/
def initial : State where
  bRunning := false
  bHasEnd := false
  startQueue := SafeQueue.initial cfg
  stopQueue := SafeQueue.initial cfg
  controller := .idle
  worker := .absent
  stopRequested := false

/-- What can happen: the controlling thread calls `Start`, `SynStart`, `Stop` or `SynStop`, or makes
the next step of its call, or its `Pop` gives up; the worker makes its next step, or `run` ends. -/
inductive Action
  | start
  | synStart (timeout : ℤ)
  | stop
  | synStop (timeout : ℤ)
  | controller
  | timeout
  | worker
  | runEnds
  deriving DecidableEq

/-- `Start`: the worker is there. -/
def State.start (state : State) : Option State :=
  if state.worker = .absent then some { state with worker := .setRunning } else none

/-- The write of the flag in `Stop` and in `SynStop`. -/
def State.requestStop (state : State) : State :=
  { state with bRunning := false, stopRequested := true }

/-- The controlling thread moves on when its call on a queue has returned. -/
def afterCall (queue : Tokens) (inside outside : Controller) : Controller :=
  if queue.pc .controller = .idle then outside else inside

/-- A step of the controlling thread inside `SynStart` or `SynStop`. -/
def controllerStep (state : State) : Option State :=
  match state.controller with
  | .idle => none
  | .synStartAssign timeout => do
    let queue ← SafeQueue.next cfg state.startQueue (.call .controller .clear)
    pure { state with
      bRunning := false, startQueue := queue, controller := .synStartClear timeout }
  | .synStartClear timeout => do
    let queue ← SafeQueue.next cfg state.startQueue (.step .controller)
    pure { state with
      startQueue := queue
      controller := afterCall queue (.synStartClear timeout) (.synStartStart timeout) }
  | .synStartStart timeout => do
    let started ← state.start
    let queue ← SafeQueue.next cfg state.startQueue (.call .controller (.pop timeout))
    pure { started with startQueue := queue, controller := .synStartPop }
  | .synStartPop => do
    let queue ← SafeQueue.next cfg state.startQueue (.step .controller)
    pure { state with startQueue := queue, controller := afterCall queue .synStartPop .idle }
  | .synStopClear timeout => do
    let queue ← SafeQueue.next cfg state.stopQueue (.step .controller)
    pure { state with
      stopQueue := queue
      controller := afterCall queue (.synStopClear timeout) (.synStopAssign timeout) }
  | .synStopAssign timeout => do
    let queue ← SafeQueue.next cfg state.stopQueue (.call .controller (.pop timeout))
    pure { state.requestStop with stopQueue := queue, controller := .synStopPop }
  | .synStopPop => do
    let queue ← SafeQueue.next cfg state.stopQueue (.step .controller)
    pure { state with stopQueue := queue, controller := afterCall queue .synStopPop .idle }

/-- A step of the worker. In `run` it is the test of the flag, which ends the loop when it fails. -/
def workerStep (state : State) : Option State :=
  match state.worker with
  | .absent => none
  | .setRunning => do
    let queue ← SafeQueue.next cfg state.startQueue (.call .worker (.push 1))
    pure { state with bRunning := true, startQueue := queue, worker := .pushStart }
  | .pushStart => do
    let queue ← SafeQueue.next cfg state.startQueue (.step .worker)
    pure { state with
      startQueue := queue
      worker := if queue.pc .worker = .idle then .running else .pushStart }
  | .running =>
    some { state with worker := if state.bRunning then .running else .clearRunning }
  | .clearRunning => some { state with bRunning := false, worker := .setHasEnd }
  | .setHasEnd => do
    let queue ← SafeQueue.next cfg state.stopQueue (.call .worker (.push 1))
    pure { state with bHasEnd := true, stopQueue := queue, worker := .pushStop }
  | .pushStop => do
    let queue ← SafeQueue.next cfg state.stopQueue (.step .worker)
    pure { state with
      stopQueue := queue
      worker := if queue.pc .worker = .idle then .finished else .pushStop }
  | .finished => none

/-- One action. -/
def next (state : State) : Action → Option State
  | .start => if state.controller = .idle then state.start else none
  | .synStart timeout =>
    if state.controller = .idle ∧ state.worker = .absent then
      some { state with controller := .synStartAssign timeout }
    else none
  | .stop =>
    if state.controller = .idle ∧ state.worker ≠ .absent then some state.requestStop else none
  | .synStop timeout =>
    if state.controller = .idle ∧ state.worker ≠ .absent then do
      let queue ← SafeQueue.next cfg state.stopQueue (.call .controller .clear)
      pure { state with stopQueue := queue, controller := .synStopClear timeout }
    else none
  | .controller => controllerStep cfg state
  | .timeout =>
    match state.controller with
    | .synStartPop => do
      let queue ← SafeQueue.next cfg state.startQueue (.timeout .controller)
      pure { state with startQueue := queue, controller := .idle }
    | .synStopPop => do
      let queue ← SafeQueue.next cfg state.stopQueue (.timeout .controller)
      pure { state with stopQueue := queue, controller := .idle }
    | _ => none
  | .worker => workerStep cfg state
  | .runEnds =>
    if state.worker = .running then some { state with worker := .clearRunning } else none

/-! ### What an action can do -/

/-- The transitions of a thread object, each with what holds before it. -/
inductive Transition (state : State) : Action → State → Prop
  | start {result : State} (hidle : state.controller = .idle)
      (hstart : state.start = some result) : Transition state .start result
  | synStart {timeout : ℤ} (hidle : state.controller = .idle) (habsent : state.worker = .absent) :
      Transition state (.synStart timeout)
        { state with controller := .synStartAssign timeout }
  | stop (hidle : state.controller = .idle) (hpresent : state.worker ≠ .absent) :
      Transition state .stop state.requestStop
  | synStop {timeout : ℤ} {queue : Tokens} (hidle : state.controller = .idle)
      (hpresent : state.worker ≠ .absent)
      (hqueue : SafeQueue.next cfg state.stopQueue (.call .controller .clear) = some queue) :
      Transition state (.synStop timeout)
        { state with stopQueue := queue, controller := .synStopClear timeout }
  | synStartAssign {timeout : ℤ} {queue : Tokens}
      (hcontroller : state.controller = .synStartAssign timeout)
      (hqueue : SafeQueue.next cfg state.startQueue (.call .controller .clear) = some queue) :
      Transition state .controller
        { state with
          bRunning := false, startQueue := queue, controller := .synStartClear timeout }
  | synStartClear {timeout : ℤ} {queue : Tokens}
      (hcontroller : state.controller = .synStartClear timeout)
      (hqueue : SafeQueue.next cfg state.startQueue (.step .controller) = some queue) :
      Transition state .controller
        { state with
          startQueue := queue
          controller := afterCall queue (.synStartClear timeout) (.synStartStart timeout) }
  | synStartStart {timeout : ℤ} {started : State} {queue : Tokens}
      (hcontroller : state.controller = .synStartStart timeout)
      (hstart : state.start = some started)
      (hqueue : SafeQueue.next cfg state.startQueue (.call .controller (.pop timeout)) =
        some queue) :
      Transition state .controller
        { started with startQueue := queue, controller := .synStartPop }
  | synStartPop {queue : Tokens} (hcontroller : state.controller = .synStartPop)
      (hqueue : SafeQueue.next cfg state.startQueue (.step .controller) = some queue) :
      Transition state .controller
        { state with startQueue := queue, controller := afterCall queue .synStartPop .idle }
  | synStopClear {timeout : ℤ} {queue : Tokens}
      (hcontroller : state.controller = .synStopClear timeout)
      (hqueue : SafeQueue.next cfg state.stopQueue (.step .controller) = some queue) :
      Transition state .controller
        { state with
          stopQueue := queue
          controller := afterCall queue (.synStopClear timeout) (.synStopAssign timeout) }
  | synStopAssign {timeout : ℤ} {queue : Tokens}
      (hcontroller : state.controller = .synStopAssign timeout)
      (hqueue : SafeQueue.next cfg state.stopQueue (.call .controller (.pop timeout)) =
        some queue) :
      Transition state .controller
        { state.requestStop with stopQueue := queue, controller := .synStopPop }
  | synStopPop {queue : Tokens} (hcontroller : state.controller = .synStopPop)
      (hqueue : SafeQueue.next cfg state.stopQueue (.step .controller) = some queue) :
      Transition state .controller
        { state with stopQueue := queue, controller := afterCall queue .synStopPop .idle }
  | startTimeout {queue : Tokens} (hcontroller : state.controller = .synStartPop)
      (hqueue : SafeQueue.next cfg state.startQueue (.timeout .controller) = some queue) :
      Transition state .timeout { state with startQueue := queue, controller := .idle }
  | stopTimeout {queue : Tokens} (hcontroller : state.controller = .synStopPop)
      (hqueue : SafeQueue.next cfg state.stopQueue (.timeout .controller) = some queue) :
      Transition state .timeout { state with stopQueue := queue, controller := .idle }
  | setRunning {queue : Tokens} (hworker : state.worker = .setRunning)
      (hqueue : SafeQueue.next cfg state.startQueue (.call .worker (.push 1)) = some queue) :
      Transition state .worker
        { state with bRunning := true, startQueue := queue, worker := .pushStart }
  | pushStart {queue : Tokens} (hworker : state.worker = .pushStart)
      (hqueue : SafeQueue.next cfg state.startQueue (.step .worker) = some queue) :
      Transition state .worker
        { state with
          startQueue := queue
          worker := if queue.pc .worker = .idle then .running else .pushStart }
  | running (hworker : state.worker = .running) :
      Transition state .worker
        { state with worker := if state.bRunning then .running else .clearRunning }
  | clearRunning (hworker : state.worker = .clearRunning) :
      Transition state .worker { state with bRunning := false, worker := .setHasEnd }
  | setHasEnd {queue : Tokens} (hworker : state.worker = .setHasEnd)
      (hqueue : SafeQueue.next cfg state.stopQueue (.call .worker (.push 1)) = some queue) :
      Transition state .worker
        { state with bHasEnd := true, stopQueue := queue, worker := .pushStop }
  | pushStop {queue : Tokens} (hworker : state.worker = .pushStop)
      (hqueue : SafeQueue.next cfg state.stopQueue (.step .worker) = some queue) :
      Transition state .worker
        { state with
          stopQueue := queue
          worker := if queue.pc .worker = .idle then .finished else .pushStop }
  | runEnds (hworker : state.worker = .running) :
      Transition state .runEnds { state with worker := .clearRunning }

variable {cfg} {state result : State} {action : Action}

theorem controllerStep_transition (hstep : controllerStep cfg state = some result) :
    Transition cfg state .controller result := by
  cases hcontroller : state.controller with
  | idle => simp [controllerStep, hcontroller] at hstep
  | synStartStart timeout =>
    simp only [controllerStep, hcontroller, Option.bind_eq_bind, Option.bind_eq_some_iff,
      Option.pure_def, Option.some.injEq] at hstep
    obtain ⟨started, hstart, queue, hqueue, rfl⟩ := hstep
    exact .synStartStart hcontroller hstart hqueue
  | _ =>
    simp only [controllerStep, hcontroller, Option.bind_eq_bind, Option.bind_eq_some_iff,
      Option.pure_def, Option.some.injEq] at hstep
    obtain ⟨queue, hqueue, rfl⟩ := hstep
    constructor <;> assumption

theorem workerStep_transition (hstep : workerStep cfg state = some result) :
    Transition cfg state .worker result := by
  cases hworker : state.worker with
  | absent | finished => simp [workerStep, hworker] at hstep
  | running =>
    simp only [workerStep, hworker, Option.some.injEq] at hstep
    subst hstep
    exact .running hworker
  | clearRunning =>
    simp only [workerStep, hworker, Option.some.injEq] at hstep
    subst hstep
    exact .clearRunning hworker
  | _ =>
    simp only [workerStep, hworker, Option.bind_eq_bind, Option.bind_eq_some_iff,
      Option.pure_def, Option.some.injEq] at hstep
    obtain ⟨queue, hqueue, rfl⟩ := hstep
    constructor <;> assumption

/-- Every step is one of the transitions. -/
theorem next_transition (hnext : next cfg state action = some result) :
    Transition cfg state action result := by
  cases action with
  | start =>
    simp only [next] at hnext
    split_ifs at hnext with hidle
    exact .start hidle hnext
  | synStart timeout =>
    simp only [next] at hnext
    split_ifs at hnext with hidle
    obtain rfl := Option.some.inj hnext
    exact .synStart hidle.1 hidle.2
  | stop =>
    simp only [next] at hnext
    split_ifs at hnext with hidle
    obtain rfl := Option.some.inj hnext
    exact .stop hidle.1 hidle.2
  | synStop timeout =>
    simp only [next, Option.bind_eq_bind, Option.pure_def] at hnext
    split_ifs at hnext with hidle
    obtain ⟨queue, hqueue, hresult⟩ := Option.bind_eq_some_iff.mp hnext
    obtain rfl := Option.some.inj hresult
    exact .synStop hidle.1 hidle.2 hqueue
  | controller => exact controllerStep_transition hnext
  | timeout =>
    simp only [next, Option.bind_eq_bind, Option.pure_def] at hnext
    split at hnext
    · rename_i hcontroller
      obtain ⟨queue, hqueue, hresult⟩ := Option.bind_eq_some_iff.mp hnext
      obtain rfl := Option.some.inj hresult
      exact .startTimeout hcontroller hqueue
    · rename_i hcontroller
      obtain ⟨queue, hqueue, hresult⟩ := Option.bind_eq_some_iff.mp hnext
      obtain rfl := Option.some.inj hresult
      exact .stopTimeout hcontroller hqueue
    · cases hnext
  | worker => exact workerStep_transition hnext
  | runEnds =>
    simp only [next] at hnext
    split_ifs at hnext with hworker
    obtain rfl := Option.some.inj hnext
    exact .runEnds hworker

end Exc.Thread
