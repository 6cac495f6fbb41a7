import Exc.Lib.Run
import Mathlib.Data.BitVec

/-!
# The thread pipeline

`thread_posix/demo5/pipe.c`: `pipe_create` makes `stages + 1` stages and a thread for each of them
but the last. The thread of a stage waits for data in it, adds 1 and hands it to the next stage with
`pipe_send`; the main thread puts values into the first stage with `pipe_start` and takes them out
of the last one with `pipe_result`.

All accesses to a stage are made with its mutex held, so a step is a critical section. The thread
of a stage keeps the mutex of its stage all the time except in `pthread_cond_wait`: while it is in
`pipe_send`, and then until it waits again, no one else can lock it (`State.held`). All other
critical sections end within a step. Nobody but the thread of a stage waits on `avail` of a stage,
or the main thread in the last one, so a signal wakes that thread; a wake-up may also be spurious.
Nobody waits on `ready`: the loop of `pipe_send` that would do so is compiled out, and a value that
is still there is overwritten.

A value carries the number of its `pipe_start`, which the program does not have. `long` has 64 bits
and addition is modulo `2^64`. The calls of the `pthread` functions succeed.
-/

set_option autoImplicit false
set_option relaxedAutoImplicit false

namespace Exc.Pipe

open Lib

/-- A value on its way, with the number of the `pipe_start` it comes from. -/
structure Datum where
  start : ℕ
  value : BitVec 64
  deriving DecidableEq

/-- A `stage_t`: what its mutex protects. -/
structure Stage where
  data : Datum
  dataReady : Bool
  deriving DecidableEq

/-- Where the thread of a stage is. -/
inductive Place
  /-- About to lock the mutex of its stage, at its start or because it was woken. -/
  | locking
  /-- In `pthread_cond_wait`. -/
  | waiting
  /-- In `pipe_send` to the next stage, before it has locked the mutex there. -/
  | sending (data : Datum)
  /-- Back from `pipe_send`. -/
  | clearing
  deriving DecidableEq

/-- Where the main thread is. -/
inductive Main
  /-- Between two calls. -/
  | idle
  /-- In `pipe_start`, before it has locked the mutex of the first stage. -/
  | sending (value : BitVec 64)
  /-- In `pipe_result`, about to lock the mutex of the last stage. -/
  | taking
  /-- In `pthread_cond_wait` of `pipe_result`. -/
  | waiting
  deriving DecidableEq

/-- The stages, the threads and `active`, and what was put in and taken out so far. -/
structure State where
  stages : ℕ → Stage
  places : ℕ → Place
  main : Main
  active : ℤ
  started : List (BitVec 64)
  delivered : List Datum

/-- What `pipe_create` leaves. The data of a stage is not initialised, and is not read before it is
written. -/
def initial : State where
  stages := fun _ ↦ ⟨⟨0, 0⟩, false⟩
  places := fun _ ↦ .locking
  main := .idle
  active := 0
  started := []
  delivered := []

/-- What can happen next. -/
inductive Action
  /-- `pipe_start` is called. -/
  | start (value : BitVec 64)
  /-- `pipe_send` of `pipe_start`. -/
  | startSend
  /-- `pipe_result` is called. -/
  | result
  /-- `pipe_result` locks the mutex of the last stage. -/
  | take
  /-- The thread of a stage locks its mutex. -/
  | lock (i : ℕ)
  /-- `pipe_send` of the thread of a stage. -/
  | send (i : ℕ)
  /-- The thread of a stage has sent its data. -/
  | clear (i : ℕ)
  /-- A spurious wake-up of the thread of a stage. -/
  | spurious (i : ℕ)
  /-- A spurious wake-up of the main thread. -/
  | spuriousMain
  deriving DecidableEq

/-- A thread that waits is woken. -/
def Place.wake : Place → Place
  | .waiting => .locking
  | place => place

/-- The main thread is woken. -/
def Main.wake : Main → Main
  | .waiting => .taking
  | main => main

/-- The thread is at a place where it holds the mutex of its stage. -/
def Place.holds : Place → Bool
  | .sending _ | .clearing => true
  | .locking | .waiting => false

/-- The mutex of a stage is held by its thread. -/
def State.held (state : State) (i : ℕ) : Bool := (state.places i).holds

/-- The critical section of `pipe_send`: `data`, `data_ready` and the signal. -/
def State.pipeSend (stages : ℕ) (state : State) (i : ℕ) (data : Datum) : State :=
  { state with
    stages := Function.update state.stages i ⟨data, true⟩
    places := Function.update state.places i (state.places i).wake
    main := if i = stages then state.main.wake else state.main }

/-- `pipe_start`, up to `pipe_send`. -/
def State.pipeStart (state : State) (value : BitVec 64) : Option State :=
  match state.main with
  | .idle => some { state with active := state.active + 1, main := .sending value }
  | _ => none

/-- The critical section of `pipe_send` in `pipe_start`. -/
def State.startSend (stages : ℕ) (state : State) : Option State :=
  match state.main with
  | .sending value =>
    if state.held 0 then none
    else
      some { { state with main := .idle }.pipeSend stages 0 ⟨state.started.length, value⟩ with
        started := state.started ++ [value] }
  | _ => none

/-- `pipe_result`, up to the mutex of the last stage. -/
def State.pipeResult (state : State) : Option State :=
  match state.main with
  | .idle =>
    if state.active ≤ 0 then some state
    else some { state with active := state.active - 1, main := .taking }
  | _ => none

/-- `pipe_result` with the mutex of the last stage: it takes the data or waits. -/
def State.take (stages : ℕ) (state : State) : Option State :=
  match state.main with
  | .taking =>
    if state.held stages then none
    else if (state.stages stages).dataReady then
      some { state with
        stages := Function.update state.stages stages
          { state.stages stages with dataReady := false }
        main := .idle
        delivered := state.delivered ++ [(state.stages stages).data] }
    else some { state with main := .waiting }
  | _ => none

/-- The thread of a stage locks its mutex: it goes on to `pipe_send` or waits. -/
def State.lock (state : State) (i : ℕ) : Option State :=
  match state.places i with
  | .locking =>
    let stage := state.stages i
    some { state with
      places := Function.update state.places i
        (if stage.dataReady then .sending ⟨stage.data.start, stage.data.value + 1⟩ else .waiting) }
  | _ => none

/-- The critical section of `pipe_send` in the thread of a stage. -/
def State.send (stages : ℕ) (state : State) (i : ℕ) : Option State :=
  match state.places i with
  | .sending data =>
    if state.held (i + 1) then none
    else some ({ state with places := Function.update state.places i .clearing }.pipeSend stages
      (i + 1) data)
  | _ => none

/-- `stage->data_ready = 0`, after which the thread waits again. -/
def State.clear (state : State) (i : ℕ) : Option State :=
  match state.places i with
  | .clearing =>
    some { state with
      stages := Function.update state.stages i { state.stages i with dataReady := false }
      places := Function.update state.places i .waiting }
  | _ => none

/-- One step of a pipeline with `stages` threads. -/
def next (stages : ℕ) (state : State) : Action → Option State
  | .start value => state.pipeStart value
  | .startSend => state.startSend stages
  | .result => state.pipeResult
  | .take => state.take stages
  | .lock i => if i < stages then state.lock i else none
  | .send i => if i < stages then state.send stages i else none
  | .clear i => if i < stages then state.clear i else none
  | .spurious i =>
    if state.places i = .waiting then
      some { state with places := Function.update state.places i .locking }
    else none
  | .spuriousMain => if state.main = .waiting then some { state with main := .taking } else none

end Exc.Pipe
