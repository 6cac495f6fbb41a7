import Exc.SafeQueue.BoundedFifo
import Exc.Thread.Thread

/-!
# The token of a worker that ends

`SynStop` clears the queue of the stop tokens before it waits for one, so the token of a worker that
has ended by itself is thrown away (`end_is_missed`). In every run in which `Clear` looks at the
queue before the worker has stored its token, `SynStop` gets it (`synStop_sees_end`).

`TokenKept` is the invariant: the stop queue keeps its own invariant, the two threads are at places
of it that go with where they are in `SynStop` and in `ThreadFunc`, the token has been put once the
worker has stored it, and nothing has been removed while `SynStop` waits.
-/

set_option autoImplicit false
set_option relaxedAutoImplicit false

namespace Exc.Thread

open Lib SafeQueue

variable {cfg : Config} {state result : State} {action : Action} {actions : List Action}

/-- The worker has stored its stop token. -/
def State.stored (state : State) : Bool :=
  match state.worker, state.stopQueue.pc .worker with
  | .finished, _ => true
  | .pushStop, .postFull _ | .pushStop, .unlock _ => true
  | _, _ => false

/-- `Clear` in `SynStop` is about to look at the queue. -/
def State.looksAtQueue (state : State) : Action → Bool
  | .controller =>
    match state.controller, state.stopQueue.pc .controller with
    | .synStopClear _, .clearTest => true
    | _, _ => false
  | _ => false

/-- `Clear` looks at the queue only before the worker stores its token. -/
def ClearBeforeToken (state : State) (action : Action) : Prop :=
  state.looksAtQueue action = true → state.stored = false

instance (state : State) (action : Action) : Decidable (ClearBeforeToken state action) :=
  inferInstanceAs (Decidable (_ → _))

/-- The places of a `Clear` that finds nothing. -/
def inClear : Pc ℤ → Bool
  | .clearLock | .clearTest | .unlock .cleared => true
  | _ => false

/-- The places of `Pop`. -/
def inPop : Pc ℤ → Bool
  | .popWait _ | .popLock | .popTake | .postEmpty _ | .unlock _ => true
  | _ => false

/-- The places of a `Push` of the token. -/
def inPush : Pc ℤ → Bool
  | .pushLock value | .pushTest value | .pushWait value | .store value _ => value = 1
  | .postFull _ | .unlock _ => true
  | _ => false

/-- The places of the controlling thread in the stop queue. -/
def Controller.mayBeAt (controller : Controller) (place : Pc ℤ) : Bool :=
  match controller with
  | .synStopClear _ => inClear place
  | .synStopPop => inPop place
  | _ => place = .idle

/-- The places of the worker in the stop queue. -/
def Worker.mayBeAt (worker : Worker) (place : Pc ℤ) : Bool :=
  match worker with
  | .pushStop => inPush place
  | _ => place = .idle

/-- `SynStop` has cleared the queue and not yet taken a token. -/
def State.awaits (state : State) : Bool :=
  match state.controller, state.stopQueue.pc .controller with
  | .synStopClear _, .unlock _ => true
  | .synStopAssign _, _ => true
  | .synStopPop, .popWait _ | .synStopPop, .popLock | .synStopPop, .popTake => true
  | _, _ => false

/-- The stop queue holds the token of the worker, from the moment it is stored until `SynStop` takes
it. -/
structure TokenKept (cfg : Config) (state : State) : Prop where
  queue : Invariant cfg state.stopQueue
  controllerAt : state.controller.mayBeAt (state.stopQueue.pc .controller) = true
  workerAt : state.worker.mayBeAt (state.stopQueue.pc .worker) = true
  puts : Fifo.puts state.stopQueue.log = if state.stored then [1] else []
  kept : state.awaits = true → Fifo.removals state.stopQueue.log = []

/-- The rule for a step of the controlling thread that puts nothing. -/
theorem TokenKept.of_controller (h : TokenKept cfg state) (hworker : result.worker = state.worker)
    (hqueue : Invariant cfg result.stopQueue)
    (hpc : result.stopQueue.pc .worker = state.stopQueue.pc .worker)
    (hputs : Fifo.puts result.stopQueue.log = Fifo.puts state.stopQueue.log)
    (hplace : result.controller.mayBeAt (result.stopQueue.pc .controller) = true)
    (hkept : result.awaits = true → Fifo.removals result.stopQueue.log = []) :
    TokenKept cfg result where
  queue := hqueue
  controllerAt := hplace
  workerAt := by
    rw [hworker, hpc]
    exact h.workerAt
  puts := by
    have hstored : result.stored = state.stored := by
      unfold State.stored
      rw [hworker, hpc]
    rw [hputs, hstored]
    exact h.puts
  kept := hkept

/-- The rule for a step of the worker that removes nothing. -/
theorem TokenKept.of_worker (h : TokenKept cfg state)
    (hcontroller : result.controller = state.controller)
    (hqueue : Invariant cfg result.stopQueue)
    (hpc : result.stopQueue.pc .controller = state.stopQueue.pc .controller)
    (hremovals : Fifo.removals result.stopQueue.log = Fifo.removals state.stopQueue.log)
    (hplace : result.worker.mayBeAt (result.stopQueue.pc .worker) = true)
    (hputs : Fifo.puts result.stopQueue.log = if result.stored then [1] else []) :
    TokenKept cfg result where
  queue := hqueue
  controllerAt := by
    rw [hcontroller, hpc]
    exact h.controllerAt
  workerAt := hplace
  puts := hputs
  kept := by
    have hawaits : result.awaits = state.awaits := by
      unfold State.awaits
      rw [hcontroller, hpc]
    rw [hremovals, hawaits]
    exact h.kept

/-- Before the worker has stored its token, the stop queue is empty and was never used. -/
theorem TokenKept.unused (h : TokenKept cfg state) (hstored : state.stored = false) :
    state.stopQueue.queue = [] ∧ Fifo.removals state.stopQueue.log = [] := by
  have hputs := Fifo.puts_eq h.queue.history
  rw [h.puts, hstored] at hputs
  have hnil := hputs.symm
  simp only [Bool.false_eq_true, if_false, List.append_eq_nil_iff, List.map_eq_nil_iff] at hnil
  exact ⟨hnil.2, hnil.1⟩

/-- While `SynStop` waits, the token that the worker has stored is in the queue. -/
theorem TokenKept.queue_eq (h : TokenKept cfg state) (hstored : state.stored = true)
    (hawaits : state.awaits = true) : state.stopQueue.queue = [1] := by
  have hputs := Fifo.puts_eq h.queue.history
  rw [h.puts, hstored, h.kept hawaits] at hputs
  exact hputs.symm

/-- `SynStop` in `Clear`. -/
theorem synStopClear_tokenKept {timeout : ℤ} {queue : Tokens} (h : TokenKept cfg state)
    (hguard : ClearBeforeToken state .controller)
    (hcontroller : state.controller = .synStopClear timeout)
    (hnext : SafeQueue.next cfg state.stopQueue (.step .controller) = some queue) :
    TokenKept cfg { state with
      stopQueue := queue
      controller := afterCall queue (.synStopClear timeout) (.synStopAssign timeout) } := by
  have hqueue := next_invariant h.queue hnext
  have hplace := h.controllerAt
  rw [hcontroller] at hplace
  simp only [SafeQueue.next] at hnext
  cases hpc : state.stopQueue.pc .controller with
  | clearLock =>
    simp only [step, hpc] at hnext
    obtain ⟨-, rfl⟩ := acquire_some hnext
    exact h.of_controller rfl hqueue rfl rfl rfl fun hawaits ↦ by cases hawaits
  | clearTest =>
    -- the guard: the worker has not stored its token, so `Clear` finds nothing
    have hstored : state.stored = false :=
      hguard (by simp [State.looksAtQueue, hcontroller, hpc])
    obtain ⟨hnil, hremovals⟩ := h.unused hstored
    simp only [step, hpc, hnil] at hnext
    obtain rfl := Option.some.inj hnext
    exact h.of_controller rfl hqueue rfl rfl rfl fun _ ↦ hremovals
  | unlock returns =>
    have hremovals := h.kept (by simp [State.awaits, hcontroller, hpc])
    simp only [step, hpc] at hnext
    obtain rfl := Option.some.inj hnext
    exact h.of_controller rfl hqueue rfl rfl rfl fun _ ↦ hremovals
  | _ => simp [hpc, Controller.mayBeAt, inClear] at hplace

/-- `SynStop` in `Pop`. -/
theorem synStopPop_tokenKept {queue : Tokens} (h : TokenKept cfg state)
    (hcontroller : state.controller = .synStopPop)
    (hnext : SafeQueue.next cfg state.stopQueue (.step .controller) = some queue) :
    TokenKept cfg { state with
      stopQueue := queue
      controller := afterCall queue .synStopPop .idle } := by
  have hqueue := next_invariant h.queue hnext
  have hplace := h.controllerAt
  rw [hcontroller] at hplace
  simp only [SafeQueue.next] at hnext
  cases hpc : state.stopQueue.pc .controller with
  | popWait timeout =>
    have hremovals := h.kept (by simp [State.awaits, hcontroller, hpc])
    simp only [step, hpc] at hnext
    obtain ⟨count, -, rfl⟩ := waitFull_some hnext
    exact h.of_controller rfl hqueue rfl rfl rfl fun _ ↦ hremovals
  | popLock =>
    have hremovals := h.kept (by simp [State.awaits, hcontroller, hpc])
    simp only [step, hpc] at hnext
    obtain ⟨-, rfl⟩ := acquire_some hnext
    exact h.of_controller rfl hqueue rfl rfl rfl fun _ ↦ hremovals
  | popTake =>
    simp only [step, hpc] at hnext
    split at hnext
    · cases hnext
    · obtain rfl := Option.some.inj hnext
      refine h.of_controller rfl hqueue rfl ?_ rfl fun hawaits ↦ by cases hawaits
      simp [Fifo.puts, Fifo.Event.put?]
  | postEmpty returns =>
    simp only [step, hpc] at hnext
    obtain rfl := Option.some.inj hnext
    exact h.of_controller rfl hqueue rfl rfl rfl fun hawaits ↦ by cases hawaits
  | unlock returns =>
    simp only [step, hpc] at hnext
    obtain rfl := Option.some.inj hnext
    exact h.of_controller rfl hqueue rfl rfl rfl fun hawaits ↦ by cases hawaits
  | _ => simp [hpc, Controller.mayBeAt, inPop] at hplace

/-- The controlling thread is not in `SynStop`. -/
def Controller.outside : Controller → Bool
  | .synStopClear _ | .synStopAssign _ | .synStopPop => false
  | _ => true

/-- The worker has not come to the push of its stop token. -/
def Worker.before : Worker → Bool
  | .pushStop | .finished => false
  | _ => true

theorem mayBeAt_of_outside {controller other : Controller} {place : Pc ℤ}
    (houtside : controller.outside = true) (hother : other.outside = true)
    (hplace : controller.mayBeAt place = true) : other.mayBeAt place = true := by
  cases controller <;> cases other <;>
    first | exact hplace | exact absurd houtside Bool.false_ne_true |
      exact absurd hother Bool.false_ne_true

theorem mayBeAt_of_before {worker other : Worker} {place : Pc ℤ} (hbefore : worker.before = true)
    (hother : other.before = true) (hplace : worker.mayBeAt place = true) :
    other.mayBeAt place = true := by
  cases worker <;> cases other <;>
    first | exact hplace | exact absurd hbefore Bool.false_ne_true |
      exact absurd hother Bool.false_ne_true

theorem awaits_of_outside (houtside : state.controller.outside = true) : state.awaits = false := by
  cases hcontroller : state.controller <;> rw [hcontroller] at houtside <;>
    first | exact absurd houtside Bool.false_ne_true | simp [State.awaits, hcontroller]

theorem stored_of_before (hbefore : state.worker.before = true) : state.stored = false := by
  cases hworker : state.worker <;> rw [hworker] at hbefore <;>
    first | exact absurd hbefore Bool.false_ne_true | simp [State.stored, hworker]

/-- The rule for a step that leaves the stop queue alone: each thread stays where it is, or moves
among the places that have nothing to do with the queue. -/
theorem TokenKept.elsewhere (h : TokenKept cfg state) (hqueue : result.stopQueue = state.stopQueue)
    (hcontroller : result.controller = state.controller ∨
      state.controller.outside = true ∧ result.controller.outside = true)
    (hworker : result.worker = state.worker ∨
      state.worker.before = true ∧ result.worker.before = true) :
    TokenKept cfg result where
  queue := hqueue ▸ h.queue
  controllerAt := by
    rw [hqueue]
    obtain heq | ⟨hbefore, hafter⟩ := hcontroller
    · rw [heq]
      exact h.controllerAt
    · exact mayBeAt_of_outside hbefore hafter h.controllerAt
  workerAt := by
    rw [hqueue]
    obtain heq | ⟨hbefore, hafter⟩ := hworker
    · rw [heq]
      exact h.workerAt
    · exact mayBeAt_of_before hbefore hafter h.workerAt
  puts := by
    have hstored : result.stored = state.stored := by
      obtain heq | ⟨hbefore, hafter⟩ := hworker
      · simp only [State.stored, heq, hqueue]
      · rw [stored_of_before hbefore, stored_of_before hafter]
    rw [hqueue, hstored]
    exact h.puts
  kept := by
    have hawaits : result.awaits = state.awaits := by
      obtain heq | ⟨hbefore, hafter⟩ := hcontroller
      · simp only [State.awaits, heq, hqueue]
      · rw [awaits_of_outside hbefore, awaits_of_outside hafter]
    rw [hqueue, hawaits]
    exact h.kept

theorem afterCall_outside {queue : Tokens} {inside outside : Controller}
    (hinside : inside.outside = true) (houtside : outside.outside = true) :
    (afterCall queue inside outside).outside = true := by
  unfold afterCall
  split
  · exact houtside
  · exact hinside

/-- `Start`. -/
theorem start_tokenKept (h : TokenKept cfg state) (hstart : state.start = some result) :
    TokenKept cfg result ∧ result.controller = state.controller := by
  simp only [State.start] at hstart
  split_ifs at hstart with hworker
  obtain rfl := Option.some.inj hstart
  exact ⟨h.elsewhere rfl (.inl rfl) (.inr ⟨by rw [hworker]; rfl, rfl⟩), rfl⟩

theorem capacity_pos (cfg : Config) : 0 < cfg.capacity :=
  lt_min cfg.queueSize_pos cfg.maxSize_pos

/-- The worker in the push of its stop token. -/
theorem pushStop_tokenKept {queue : Tokens} (h : TokenKept cfg state)
    (hworker : state.worker = .pushStop)
    (hnext : SafeQueue.next cfg state.stopQueue (.step .worker) = some queue) :
    TokenKept cfg { state with
      stopQueue := queue
      worker := if queue.pc .worker = .idle then .finished else .pushStop } := by
  have hqueue := next_invariant h.queue hnext
  have hplace := h.workerAt
  have hputs := h.puts
  rw [hworker] at hplace
  simp only [SafeQueue.next] at hnext
  cases hpc : state.stopQueue.pc .worker with
  | pushLock value =>
    simp only [step, hpc] at hnext hplace
    obtain ⟨-, rfl⟩ := acquire_some hnext
    simp only [State.stored, hworker, hpc] at hputs
    exact h.of_worker rfl hqueue rfl rfl hplace hputs
  | pushTest value =>
    have hstored : state.stored = false := by simp [State.stored, hworker, hpc]
    obtain ⟨hnil, -⟩ := h.unused hstored
    simp only [step, hpc, hnil, List.length_nil] at hnext
    rw [if_neg (not_le.mpr (capacity_pos cfg))] at hnext
    obtain rfl := Option.some.inj hnext
    rw [hpc] at hplace
    rw [hstored] at hputs
    exact h.of_worker rfl hqueue rfl rfl hplace hputs
  | pushWait value =>
    simp only [step, hpc] at hnext hplace
    obtain ⟨count, -, rfl⟩ := waitEmpty_some hnext
    simp only [State.stored, hworker, hpc] at hputs
    exact h.of_worker rfl hqueue rfl rfl hplace hputs
  | store value returns =>
    have hstored : state.stored = false := by simp [State.stored, hworker, hpc]
    rw [hpc] at hplace
    obtain rfl : value = 1 := of_decide_eq_true hplace
    simp only [step, hpc] at hnext
    obtain rfl := Option.some.inj hnext
    rw [hstored] at hputs
    refine h.of_worker rfl hqueue rfl ?_ rfl ?_
    · simp [Fifo.removals, Fifo.Event.removed?]
    · exact (Fifo.puts_append _).trans (congrArg (· ++ [1]) hputs)
  | postFull returns =>
    simp only [step, hpc] at hnext
    obtain rfl := Option.some.inj hnext
    simp only [State.stored, hworker, hpc] at hputs
    exact h.of_worker rfl hqueue rfl rfl rfl hputs
  | unlock returns =>
    simp only [step, hpc] at hnext
    obtain rfl := Option.some.inj hnext
    simp only [State.stored, hworker, hpc] at hputs
    exact h.of_worker rfl hqueue rfl rfl rfl hputs
  | _ => simp [hpc, Worker.mayBeAt, inPush] at hplace

/-- Every step keeps the token. -/
theorem next_tokenKept (h : TokenKept cfg state) (hguard : ClearBeforeToken state action)
    (hnext : next cfg state action = some result) : TokenKept cfg result := by
  cases next_transition hnext with
  | start hidle hstart => exact (start_tokenKept h hstart).1
  | synStart hidle => exact h.elsewhere rfl (.inr ⟨by rw [hidle]; rfl, rfl⟩) (.inl rfl)
  | stop => exact h.elsewhere rfl (.inl rfl) (.inl rfl)
  | synStop hidle hpresent hqueue =>
    have hinvariant := next_invariant h.queue hqueue
    obtain ⟨-, rfl⟩ := next_call_some hqueue
    exact h.of_controller rfl hinvariant rfl rfl rfl fun hawaits ↦ by cases hawaits
  | synStartAssign hcontroller | startTimeout hcontroller =>
    exact h.elsewhere rfl (.inr ⟨by rw [hcontroller]; rfl, rfl⟩) (.inl rfl)
  | synStartClear hcontroller | synStartPop hcontroller =>
    exact h.elsewhere rfl (.inr ⟨by rw [hcontroller]; rfl, afterCall_outside rfl rfl⟩) (.inl rfl)
  | synStartStart hcontroller hstart =>
    obtain ⟨hstarted, hsame⟩ := start_tokenKept h hstart
    exact hstarted.elsewhere rfl (.inr ⟨by rw [hsame, hcontroller]; rfl, rfl⟩) (.inl rfl)
  | synStopClear hcontroller hqueue => exact synStopClear_tokenKept h hguard hcontroller hqueue
  | synStopAssign hcontroller hqueue =>
    have hremovals := h.kept (by simp [State.awaits, hcontroller])
    have hinvariant := next_invariant h.queue hqueue
    obtain ⟨-, rfl⟩ := next_call_some hqueue
    exact h.of_controller rfl hinvariant rfl rfl rfl fun _ ↦ hremovals
  | synStopPop hcontroller hqueue => exact synStopPop_tokenKept h hcontroller hqueue
  | stopTimeout hcontroller hqueue =>
    have hinvariant := next_invariant h.queue hqueue
    obtain ⟨time, -, rfl⟩ := next_timeout_some hqueue
    exact h.of_controller rfl hinvariant rfl rfl rfl fun hawaits ↦ by cases hawaits
  | setRunning hworker | clearRunning hworker | runEnds hworker =>
    exact h.elsewhere rfl (.inl rfl) (.inr ⟨by rw [hworker]; rfl, rfl⟩)
  | pushStart hworker | running hworker =>
    refine h.elsewhere rfl (.inl rfl) (.inr ⟨by rw [hworker]; rfl, ?_⟩)
    dsimp only
    split <;> rfl
  | setHasEnd hworker hqueue =>
    have hinvariant := next_invariant h.queue hqueue
    have hputs := h.puts
    have hstored : state.stored = false := stored_of_before (by rw [hworker]; rfl)
    rw [hstored] at hputs
    obtain ⟨-, rfl⟩ := next_call_some hqueue
    exact h.of_worker rfl hinvariant rfl rfl rfl hputs
  | pushStop hworker hqueue => exact pushStop_tokenKept h hworker hqueue

theorem initial_tokenKept (cfg : Config) : TokenKept cfg (initial cfg) where
  queue := initial_invariant cfg
  controllerAt := rfl
  workerAt := rfl
  puts := rfl
  kept := fun hawaits ↦ by cases hawaits

/-- `SynStop` is waiting in `Pop`. -/
def State.waitsForEnd (state : State) : Prop :=
  state.controller = .synStopPop ∧ ∃ timeout, state.stopQueue.pc .controller = .popWait timeout

theorem total_party (weight : Pc ℤ → ℕ) (pc : Party → Pc ℤ) :
    total weight pc = weight (pc .controller) + weight (pc .worker) := by
  show ∑ party ∈ {.controller, .worker}, weight (pc party) = _
  exact Finset.sum_pair (by decide)

/-- One step of `Pop`. -/
theorem synStopPop_step {queue : Tokens} (hcontroller : state.controller = .synStopPop)
    (hstep : step cfg state.stopQueue .controller = some queue) :
    next cfg state .controller =
      some { state with stopQueue := queue, controller := afterCall queue .synStopPop .idle } := by
  simp only [next, controllerStep, hcontroller, SafeQueue.next, hstep]
  rfl

/-- So many steps of the controlling thread end `SynStop`, and its `Pop` returns the value. -/
def PopReturns (cfg : Config) (state : State) (steps : ℕ) (value : ℤ) : Prop :=
  ∃ result, (List.replicate steps Action.controller).foldlM (next cfg) state = some result ∧
    result.controller = .idle ∧
    result.stopQueue.returned = state.stopQueue.returned ++ [(.controller, .value value)]

/-- A step that returns nothing, before the others. -/
theorem PopReturns.step {queue : Tokens} {steps : ℕ} {value : ℤ}
    (hcontroller : state.controller = .synStopPop)
    (hstep : SafeQueue.step cfg state.stopQueue .controller = some queue)
    (hreturned : queue.returned = state.stopQueue.returned)
    (hpc : queue.pc .controller ≠ .idle)
    (hrest : PopReturns cfg { state with stopQueue := queue } steps value) :
    PopReturns cfg state (steps + 1) value := by
  obtain ⟨result, hrun, hidle, hvalue⟩ := hrest
  have hafter : { state with stopQueue := queue } =
      { state with stopQueue := queue, controller := afterCall queue .synStopPop .idle } := by
    rw [afterCall, if_neg hpc, ← hcontroller]
  refine ⟨result, ?_, hidle, by rw [hvalue, hreturned]⟩
  rw [List.replicate_succ, List.foldlM_cons, synStopPop_step hcontroller hstep, ← hafter]
  exact hrun

theorem unlock_popReturns {value : ℤ} (hcontroller : state.controller = .synStopPop)
    (hpc : state.stopQueue.pc .controller = .unlock (.value value)) :
    PopReturns cfg state 1 value := by
  have hstep : step cfg state.stopQueue .controller =
      some { state.stopQueue.ret .controller (.value value) with lock := none } := by
    simp only [step, hpc]
  have hrun : (List.replicate 1 Action.controller).foldlM (next cfg) state = some _ :=
    congrArg (· >>= pure) (synStopPop_step hcontroller hstep)
  refine ⟨_, hrun, ?_⟩
  simp [afterCall, SafeQueue.State.ret, SafeQueue.State.move]

theorem postEmpty_popReturns {value : ℤ} (hcontroller : state.controller = .synStopPop)
    (hpc : state.stopQueue.pc .controller = .postEmpty (.value value)) :
    PopReturns cfg state 2 value := by
  have hstep : SafeQueue.step cfg state.stopQueue .controller =
      some { state.stopQueue.move .controller (.unlock (.value value)) with
        empty := post cfg state.stopQueue.empty } := by
    simp only [step, hpc]
  refine PopReturns.step hcontroller hstep rfl ?_ ?_
  · simp [SafeQueue.State.move]
  · exact unlock_popReturns hcontroller rfl

theorem popTake_popReturns {value : ℤ} {rest : List ℤ}
    (hcontroller : state.controller = .synStopPop)
    (hpc : state.stopQueue.pc .controller = .popTake)
    (hqueue : state.stopQueue.queue = value :: rest) : PopReturns cfg state 3 value := by
  have hstep : SafeQueue.step cfg state.stopQueue .controller =
      some { state.stopQueue.move .controller (.postEmpty (.value value)) with
        queue := rest, log := state.stopQueue.log ++ [.take .controller value] } := by
    simp only [step, hpc, hqueue]
  refine PopReturns.step hcontroller hstep rfl ?_ ?_
  · simp [SafeQueue.State.move]
  · exact postEmpty_popReturns hcontroller rfl

theorem popLock_popReturns {value : ℤ} {rest : List ℤ}
    (hcontroller : state.controller = .synStopPop)
    (hpc : state.stopQueue.pc .controller = .popLock) (hlock : state.stopQueue.lock = none)
    (hqueue : state.stopQueue.queue = value :: rest) : PopReturns cfg state 4 value := by
  have hstep : SafeQueue.step cfg state.stopQueue .controller =
      some { state.stopQueue.move .controller .popTake with lock := some .controller } := by
    simp only [step, hpc, SafeQueue.State.acquire, hlock]
  refine PopReturns.step hcontroller hstep rfl ?_ ?_
  · simp [SafeQueue.State.move]
  · exact popTake_popReturns hcontroller rfl hqueue

/-- `Pop` with a token in the queue and the lock free takes it. -/
theorem popWait_popReturns {value : ℤ} {rest : List ℤ} {count : ℕ} (hwaits : state.waitsForEnd)
    (hlock : state.stopQueue.lock = none) (hqueue : state.stopQueue.queue = value :: rest)
    (hfull : state.stopQueue.full = count + 1) : PopReturns cfg state 5 value := by
  obtain ⟨hcontroller, timeout, hpc⟩ := hwaits
  have hstep : SafeQueue.step cfg state.stopQueue .controller =
      some { state.stopQueue.move .controller .popLock with full := count } := by
    simp only [step, hpc, SafeQueue.State.waitFull, hfull]
    rfl
  refine PopReturns.step hcontroller hstep rfl ?_ ?_
  · simp [SafeQueue.State.move]
  · exact popLock_popReturns hcontroller rfl hlock hqueue

/-- In every run in which `Clear` looks at the stop queue only before the worker stores its token,
`SynStop` sees the end of the worker: it never waits for a token with the worker finished and the
queue empty, and when it waits with the worker finished its `Pop` goes through and returns the
token. -/
theorem synStop_sees_end
    (hrun : Run (guarded ClearBeforeToken (stepOf (next cfg))) (initial cfg) actions state)
    (hfinished : state.worker = .finished) (hwaits : state.waitsForEnd) :
    state.stopQueue.queue ≠ [] ∧ PopReturns cfg state 5 1 := by
  have h : TokenKept cfg state :=
    hrun.invariant (TokenKept cfg) (initial_tokenKept cfg)
      fun _ _ _ h hstep ↦ next_tokenKept h hstep.1 hstep.2
  obtain ⟨hcontroller, timeout, hpc⟩ := id hwaits
  have hidle : state.stopQueue.pc .worker = .idle := by
    have hplace := h.workerAt
    rw [hfinished] at hplace
    exact of_decide_eq_true hplace
  have hqueue : state.stopQueue.queue = [1] :=
    h.queue_eq (by simp [State.stored, hfinished]) (by simp [State.awaits, hcontroller, hpc])
  have hlock : state.stopQueue.lock = none := by
    cases hheld : state.stopQueue.lock with
    | none => rfl
    | some party =>
      have hinside := (h.queue.exclusive party).mpr hheld
      cases party <;> simp [hpc, hidle, Pc.inside] at hinside
  have hfull : state.stopQueue.full = 0 + 1 := by
    have helements := h.queue.elements
    simp only [total_party, hpc, hidle, hqueue, Pc.claimed, Pc.unposted, Pc.unclaimed,
      List.length_singleton] at helements
    exact helements
  refine ⟨?_, popWait_popReturns hwaits hlock hqueue hfull⟩
  rw [hqueue]
  exact List.cons_ne_nil 1 []

/-- The actions of `SynStart` with a worker that comes up at once. -/
def synStarted : List Action :=
  [.synStart (-1), .controller, .controller, .controller, .controller, .controller, .worker,
    .worker, .worker, .worker, .worker, .worker, .worker, .controller, .controller, .controller,
    .controller, .controller]

/-- The actions of a `SynStop` that gets to its `Pop`. -/
def synStopped : List Action := [.synStop (-1), .controller, .controller, .controller, .controller]

/-- The actions of a worker from the end of `run` on. -/
def workerEnds : List Action :=
  [.worker, .worker, .worker, .worker, .worker, .worker, .worker, .worker]

/-- `SynStart`, `SynStop`, and then the worker sees the flag and ends. -/
theorem synStop_sees_end_stopped :
    ∃ state,
      Run (guarded ClearBeforeToken (stepOf (next smallQueue))) (initial smallQueue)
        (synStarted ++ synStopped ++ .worker :: workerEnds) state ∧
      state.worker = .finished ∧ state.waitsForEnd ∧ state.stopQueue.queue ≠ [] :=
  ⟨_, Run.of_isSome (by decide +kernel), by decide +kernel,
    ⟨by decide +kernel, some (-1), by decide +kernel⟩,
    (synStop_sees_end (Run.of_isSome (by decide +kernel)) (by decide +kernel)
      ⟨by decide +kernel, some (-1), by decide +kernel⟩).1⟩

/-- The worker ends by itself after `SynStart`, and its token is cleared: `SynStop` waits, and no
token will come. -/
theorem end_is_missed :
    ∃ state,
      Run (stepOf (next smallQueue)) (initial smallQueue)
        (synStarted ++ .runEnds :: workerEnds ++ synStopped ++ [.controller, .controller,
          .controller]) state ∧
      state.worker = .finished ∧ state.stopQueue.queue = [] ∧ state.waitsForEnd ∧
      (next smallQueue state .controller).isNone ∧ (next smallQueue state .worker).isNone :=
  ⟨_, Run.of_eval (by decide +kernel), by decide +kernel, by decide +kernel,
    ⟨by decide +kernel, some (-1), by decide +kernel⟩, by decide +kernel, by decide +kernel⟩

end Exc.Thread
