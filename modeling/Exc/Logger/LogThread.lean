import Exc.Logger.Transparency

/-!
# The thread of the logger

`comLib/Logger.cpp`: `LogThread::run`, `process_event`, `push_log`, `push_flush_command` and
`push_check_delete_command`, with `Logger_impl::Close` and `Thread::SynStop`.

Producers push events into `m_log_queue`. The worker takes them out and processes them while
`m_bRunning` is true, and afterwards processes what is left. `Close` sets `m_bRunning` to false,
waits for the end of the worker, and hands over what is left in the line buffer.

`Worker` is the place of the worker in `run`, with the counter of the second loop, and `Closer` the
place of the thread that calls `Close`. `next` makes one step of a producer, of the worker or of the
closer, so that a run is an interleaving of them. The queue is first-in first-out with a bounded
capacity: `push_log` blocks when it is full, and a command is then dropped.

`accepted` and `backlog` are for the reader of a run: the messages that `push_log` has accepted, and
what was in the queue when the worker left its main loop.

Scope. `Pop` gives up only when the queue is empty. `SynStop` does not give up. Nothing is pushed
after `Close` was called. `check_file_delete` does not touch the line buffer or the appenders. When
`strncpy` leaves the buffer the worker takes no further step.
-/

set_option autoImplicit false
set_option relaxedAutoImplicit false

namespace Exc.Logger

open Lib

/-- `LogEvent`. -/
inductive LogEvent
  | log (line : List UInt8)
  | flush
  | checkDelete
  deriving DecidableEq

/-- The text of an event that has one. -/
def LogEvent.line? : LogEvent → Option (List UInt8)
  | .log line => some line
  | _ => none

/-- `process_event`, with `process_log_event`, `process_flush_event` and
`process_check_delete_event`; `get_line` is a null-terminated string. -/
def processEvent (fuel : ℕ) (event : LogEvent) (logger : LoggerImpl) : Except LogFault LoggerImpl :=
  match event with
  | .log line =>
    if (cstring line).length ≤ 0 then .ok logger
    else LoggerImpl.asyncAppendLineInt fuel (cstring line) logger
  | .flush => logger.flushCache
  | .checkDelete => .ok logger

/-- The place of the worker in `run`. -/
inductive Worker
  | test
  | pop
  | process (event : LogEvent)
  | drainTest (i : ℕ)
  | drainPop (i : ℕ)
  | drainProcess (i : ℕ) (event : LogEvent)
  | ended
  deriving DecidableEq

/-- The place of the thread that calls `Close`: before the call, waiting in `SynStop`, or after the
call. -/
inductive Closer
  | before
  | stopping
  | closed
  deriving DecidableEq

/-- The logger and its threads. -/
structure State where
  queue : List LogEvent
  running : Bool
  worker : Worker
  closer : Closer
  logger : LoggerImpl
  accepted : List (List UInt8)
  backlog : List LogEvent

/-- A logger after its worker has started. -/
def initial (nBufferSize : Int32) : State where
  queue := []
  running := true
  worker := .test
  closer := .before
  logger := LoggerImpl.initBuffer nBufferSize.toInt
  accepted := []
  backlog := []

/-- `push_log`. -/
def pushLog (capacity : ℕ) (state : State) (msg : List UInt8) : Option State :=
  if msg = [] then some state
  else if state.queue.length < capacity then
    some { state with
      queue := state.queue ++ [.log msg]
      accepted := state.accepted ++ [msg] }
  else none

/-- `push_flush_command` and `push_check_delete_command`. -/
def pushCommand (capacity : ℕ) (state : State) (command : LogEvent) : State :=
  if state.queue.length < capacity then { state with queue := state.queue ++ [command] } else state

/-- One step of the worker, with a bound on the turns of the loop in `asyncAppendLine`. -/
def work (state : State) (fuel : ℕ) : Option State :=
  match state.worker with
  | .test =>
    if state.running then some { state with worker := .pop }
    else some { state with worker := .drainTest 0, backlog := state.queue }
  | .pop =>
    match state.queue with
    | [] => none
    | event :: rest => some { state with queue := rest, worker := .process event }
  | .process event =>
    match processEvent fuel event state.logger with
    | .ok logger => some { state with logger := logger, worker := .test }
    | .error _ => none
  | .drainTest i =>
    if i < state.queue.length then some { state with worker := .drainPop i }
    else some { state with worker := .ended }
  | .drainPop i =>
    match state.queue with
    | [] => none
    | event :: rest => some { state with queue := rest, worker := .drainProcess i event }
  | .drainProcess i event =>
    match processEvent fuel event state.logger with
    | .ok logger => some { state with logger := logger, worker := .drainTest (i + 1) }
    | .error _ => none
  | .ended => none

/-- A `Pop` of the worker gives up. -/
def giveUp (state : State) : Option State :=
  match state.worker, state.queue with
  | .pop, [] => some { state with worker := .test }
  | .drainPop i, [] => some { state with worker := .drainTest (i + 1) }
  | _, _ => none

/-- The end of `Close`, after the worker. -/
def endClose (state : State) : Option State :=
  match state.logger.flushCache with
  | .ok logger => some { state with logger := logger, closer := .closed }
  | .error _ => none

/-- What can happen next. -/
inductive Action
  | pushLog (msg : List UInt8)
  | pushFlush
  | pushCheckDelete
  | work (fuel : ℕ)
  | giveUp
  | close
  | endClose

/-- One step of one thread. -/
def next (capacity : ℕ) (state : State) (action : Action) : Option State :=
  match action, state.closer with
  | .pushLog msg, .before => pushLog capacity state msg
  | .pushFlush, .before => some (pushCommand capacity state .flush)
  | .pushCheckDelete, .before => some (pushCommand capacity state .checkDelete)
  | .work fuel, _ => work state fuel
  | .giveUp, _ => giveUp state
  | .close, .before => some { state with running := false, closer := .stopping }
  | .endClose, .stopping => if state.worker = .ended then endClose state else none
  | _, _ => none

end Exc.Logger
