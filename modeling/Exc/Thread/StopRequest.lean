import Exc.SafeQueue.BoundedFifo
import Exc.Thread.Thread

/-!
# A stop request and the first write of the worker

`ThreadFunc` begins with a write of `m_bRunning`, so a stop requested before that write is lost
(`stop_is_lost`). In every run in which the worker has made its first write before the flag is
cleared, the flag stays cleared (`stop_stays`). `SynStart` waits for a token that the worker pushes
after the write; `Start` does not.
-/

set_option autoImplicit false
set_option relaxedAutoImplicit false

namespace Exc.Thread

open Lib SafeQueue

variable {cfg : Config} {state result : State} {action : Action} {actions : List Action}

/-- The write of the flag for a stop: in `Stop`, or in `SynStop`. -/
def State.writesStop (state : State) : Action → Bool
  | .stop => true
  | .controller =>
    match state.controller with
    | .synStopAssign _ => true
    | _ => false
  | _ => false

/-- The worker has made its first write of the flag. -/
def Worker.begun : Worker → Bool
  | .absent | .setRunning => false
  | _ => true

/-- A stop is requested only after the first write of the worker. -/
def StopAfterBegin (state : State) (action : Action) : Prop :=
  state.writesStop action = true → state.worker.begun = true

instance (state : State) (action : Action) : Decidable (StopAfterBegin state action) :=
  inferInstanceAs (Decidable (_ → _))

/-- A requested stop is kept: the flag is cleared, and the write that would set it is over. -/
def StopKept (state : State) : Prop :=
  state.stopRequested = true → state.bRunning = false ∧ state.worker.begun = true

theorem start_stopKept (h : StopKept state) (hstart : state.start = some result) :
    StopKept result := by
  simp only [State.start] at hstart
  split_ifs at hstart with hworker
  obtain rfl := Option.some.inj hstart
  intro hrequested
  have hbegun := (h hrequested).2
  rw [hworker] at hbegun
  cases hbegun

/-- Every step keeps a requested stop. -/
theorem next_stopKept (h : StopKept state) (hguard : StopAfterBegin state action)
    (hnext : next cfg state action = some result) : StopKept result := by
  cases next_transition hnext with
  | start hidle hstart => exact start_stopKept h hstart
  | synStartStart hcontroller hstart hqueue =>
    have hstarted := start_stopKept h hstart
    exact hstarted
  | synStartAssign => exact fun hrequested ↦ ⟨rfl, (h hrequested).2⟩
  | stop => exact fun _ ↦ ⟨rfl, hguard rfl⟩
  | synStopAssign hcontroller =>
    exact fun _ ↦ ⟨rfl, hguard (by simp [State.writesStop, hcontroller])⟩
  | setRunning hworker =>
    -- the only write that sets the flag: no stop has been requested before it
    intro hrequested
    have hbegun := (h hrequested).2
    rw [hworker] at hbegun
    cases hbegun
  | pushStart | pushStop | running =>
    refine fun hrequested ↦ ⟨(h hrequested).1, ?_⟩
    dsimp only
    split <;> rfl
  | clearRunning => exact fun _ ↦ ⟨rfl, rfl⟩
  | setHasEnd | runEnds => exact fun hrequested ↦ ⟨(h hrequested).1, rfl⟩
  | synStart | synStop | synStartClear | synStartPop | synStopClear | synStopPop | startTimeout
    | stopTimeout => exact h

/-- In every run in which a stop is requested only after the worker has made its first write of the
flag, the flag is false from the request on, and the next test of a loop `while (m_bRunning)` ends
it. -/
theorem stop_stays
    (hrun : Run (guarded StopAfterBegin (stepOf (next cfg))) (initial cfg) actions state)
    (hrequested : state.stopRequested = true) :
    state.bRunning = false ∧
    (state.worker = .running →
      next cfg state .worker = some { state with worker := .clearRunning }) := by
  have hkept : StopKept state :=
    hrun.invariant StopKept (fun hinitial ↦ by cases hinitial)
      fun _ _ _ h hstep ↦ next_stopKept h hstep.1 hstep.2
  refine ⟨(hkept hrequested).1, fun hworker ↦ ?_⟩
  simp only [next, workerStep, hworker, (hkept hrequested).1]
  rfl

/-- A stop requested while the worker pushes its start token ends `run` at the first test. -/
theorem stop_stays_started :
    ∃ state,
      Run (guarded StopAfterBegin (stepOf (next smallQueue))) (initial smallQueue)
        [.start, .worker, .worker, .stop, .worker, .worker, .worker, .worker, .worker] state ∧
      state.worker = .running ∧ state.bRunning = false :=
  ⟨_, Run.of_isSome (by decide +kernel), by decide +kernel,
    (stop_stays (Run.of_isSome (by decide +kernel)) (by decide +kernel)).1⟩

/-- `Stop` before the first step of the worker: the flag is set again, the loop goes on. -/
theorem stop_is_lost :
    ∃ state,
      Run (stepOf (next smallQueue)) (initial smallQueue)
        [.start, .stop, .worker, .worker, .worker, .worker, .worker, .worker, .worker] state ∧
      state.stopRequested = true ∧ state.bRunning = true ∧ state.worker = .running ∧
      (next smallQueue state .worker).map State.worker = some .running :=
  ⟨_, Run.of_eval (by decide +kernel), by decide +kernel, by decide +kernel, by decide +kernel,
    by decide +kernel⟩

end Exc.Thread
