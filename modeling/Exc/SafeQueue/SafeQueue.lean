import Exc.Lib.Fifo
import Mathlib.Data.Int.Notation
import Mathlib.Logic.Function.Basic

/-!
# The blocking queue

`comLib/SafeQueue.h`: a queue with a mutex and two counting semaphores, of the free places and of
the elements. The seven operations are programs whose steps are single operations on a semaphore, on
the mutex or on `m_Queue`; `Pc` is the place where a thread stands in them, named after the
operation that it is about to make. `next` lets one thread make one step, so that a run is an
interleaving of any number of calls by any number of threads.

`Push` tests the size and waits for a free place with the lock in its hands, and `Clear` waits for
the tokens of the elements it has removed in the same way. The other operations wait first and lock
afterwards.

`log` and `returned` are for the reader of a run: what happened to `m_Queue`, in the order of the
lock, and what the calls have returned.

Scope. `Semaphore::Wait(int)` can give up at any moment; its clock is not modelled. `Post` on a
semaphore at its maximum has no effect. `front` and `pop` of an empty `m_Queue` are undefined, and
the step that would make them does not exist.
-/

set_option autoImplicit false
set_option relaxedAutoImplicit false

namespace Exc.SafeQueue

open Lib

/-- The argument of the constructor, the bound that it is cut to (`MAX_QUEUE_SIZE` or
`SEM_VALUE_MAX`), and the platform. -/
structure Config where
  queueSize : ℕ
  maxSize : ℕ
  win32 : Bool
  queueSize_pos : 0 < queueSize
  maxSize_pos : 0 < maxSize

/-- `m_queue_size`. -/
def Config.capacity (cfg : Config) : ℕ := min cfg.queueSize cfg.maxSize

/-- The largest value of a semaphore: a semaphore of `WIN32` is made with `m_queue_size` for it. -/
def Config.semaphoreMax (cfg : Config) : ℕ := if cfg.win32 then cfg.capacity else cfg.maxSize

/-- `Semaphore::Wait`, which blocks at zero. -/
def wait : ℕ → Option ℕ
  | 0 => none
  | count + 1 => some count

/-- `Semaphore::Post`. -/
def post (cfg : Config) (count : ℕ) : ℕ := if count < cfg.semaphoreMax then count + 1 else count

theorem capacity_le_semaphoreMax (cfg : Config) : cfg.capacity ≤ cfg.semaphoreMax := by
  unfold Config.semaphoreMax
  split
  · exact Nat.le_refl _
  · exact Nat.min_le_right _ _

theorem post_eq {cfg : Config} {count : ℕ} (hcount : count < cfg.capacity) :
    post cfg count = count + 1 :=
  if_pos (Nat.lt_of_lt_of_le hcount (capacity_le_semaphoreMax cfg))

variable {Tid α : Type}

/-- The operations of the queue; the argument of `Pop` is its timeout. -/
inductive Op (α : Type)
  | push (value : α)
  | blockPush (value : α)
  | blockPop
  | pop (timeout : ℤ)
  | getSize
  | isEmpty
  | clear
  deriving DecidableEq

/-- What a call returns: for `Push` whether the value was accepted, for `BlockPop` and for a `Pop`
in time the value. -/
inductive Result (α : Type)
  | accepted (success : Bool)
  | stored
  | value (value : α)
  | timedOut
  | size (size : ℕ)
  | isEmpty (empty : Bool)
  | cleared
  deriving DecidableEq

/-- The place of a thread: the operation that it is about to make. Between `pushTest` and the end,
and after the lock in the other operations, the thread holds `m_Lock`. -/
inductive Pc (α : Type)
  | idle
  | pushLock (value : α)
  | pushTest (value : α)
  | pushWait (value : α)
  | blockPushWait (value : α)
  | blockPushLock (value : α)
  | store (value : α) (result : Result α)
  | postFull (result : Result α)
  | popWait (timeout : Option ℤ)
  | popLock
  | popTake
  | postEmpty (result : Result α)
  | sizeLock
  | sizeRead
  | emptyLock
  | emptyRead
  | clearLock
  | clearTest
  | clearWait
  | clearPost
  | unlock (result : Result α)
  deriving DecidableEq

/-- The first place of an operation. -/
def Op.start : Op α → Pc α
  | .push value => .pushLock value
  | .blockPush value => .blockPushWait value
  | .blockPop => .popWait none
  | .pop timeout => .popWait (some timeout)
  | .getSize => .sizeLock
  | .isEmpty => .emptyLock
  | .clear => .clearLock

/-- The queue and its threads. -/
structure State (Tid α : Type) where
  queue : List α
  lock : Option Tid
  empty : ℕ
  full : ℕ
  pc : Tid → Pc α
  log : List (Fifo.Event Tid α)
  returned : List (Tid × Result α)

/-- `SafeQueue::SafeQueue`. -/
def initial (cfg : Config) : State Tid α where
  queue := []
  lock := none
  empty := cfg.capacity
  full := 0
  pc := fun _ ↦ .idle
  log := []
  returned := []

variable [DecidableEq Tid]

/-- A thread moves to a place. -/
def State.move (state : State Tid α) (thread : Tid) (place : Pc α) : State Tid α :=
  { state with pc := Function.update state.pc thread place }

/-- `m_Lock.Lock()`. -/
def State.acquire (state : State Tid α) (thread : Tid) (place : Pc α) : Option (State Tid α) :=
  match state.lock with
  | none => some { state.move thread place with lock := some thread }
  | some _ => none

variable {state result : State Tid α} {thread : Tid} {place : Pc α}

theorem acquire_some (hstep : state.acquire thread place = some result) :
    state.lock = none ∧ result = { state.move thread place with lock := some thread } := by
  unfold State.acquire at hstep
  split at hstep
  · exact ⟨‹_›, (Option.some.inj hstep).symm⟩
  · cases hstep

/-- `m_EmptySemaphore.Wait()`. -/
def State.waitEmpty (state : State Tid α) (thread : Tid) (place : Pc α) : Option (State Tid α) :=
  (wait state.empty).map fun count ↦ { state.move thread place with empty := count }

theorem waitEmpty_some (hstep : state.waitEmpty thread place = some result) :
    ∃ count, state.empty = count + 1 ∧
      result = { state.move thread place with empty := count } := by
  unfold State.waitEmpty wait at hstep
  split at hstep
  · cases hstep
  · exact ⟨_, ‹_›, (Option.some.inj hstep).symm⟩

/-- `m_FullSemaphore.Wait()`. -/
def State.waitFull (state : State Tid α) (thread : Tid) (place : Pc α) : Option (State Tid α) :=
  (wait state.full).map fun count ↦ { state.move thread place with full := count }

theorem waitFull_some (hstep : state.waitFull thread place = some result) :
    ∃ count, state.full = count + 1 ∧ result = { state.move thread place with full := count } := by
  unfold State.waitFull wait at hstep
  split at hstep
  · cases hstep
  · exact ⟨_, ‹_›, (Option.some.inj hstep).symm⟩

/-- A call returns. -/
def State.ret (state : State Tid α) (thread : Tid) (result : Result α) : State Tid α :=
  { state.move thread .idle with returned := state.returned ++ [(thread, result)] }

/-- One step of a thread inside a call. -/
def step (cfg : Config) (state : State Tid α) (thread : Tid) : Option (State Tid α) :=
  match state.pc thread with
  | .idle => none
  -- `Push`
  | .pushLock value => state.acquire thread (.pushTest value)
  | .pushTest value =>
    if cfg.capacity ≤ state.queue.length then
      some (state.move thread (.unlock (.accepted false)))
    else some (state.move thread (.pushWait value))
  | .pushWait value => state.waitEmpty thread (.store value (.accepted true))
  -- `BlockPush`
  | .blockPushWait value => state.waitEmpty thread (.blockPushLock value)
  | .blockPushLock value => state.acquire thread (.store value .stored)
  -- the end of both
  | .store value result =>
    some { state.move thread (.postFull result) with
      queue := state.queue ++ [value]
      log := state.log ++ [.put value] }
  | .postFull result =>
    some { state.move thread (.unlock result) with full := post cfg state.full }
  -- `BlockPop` and `Pop`
  | .popWait _ => state.waitFull thread .popLock
  | .popLock => state.acquire thread .popTake
  | .popTake =>
    match state.queue with
    | [] => none
    | first :: rest =>
      some { state.move thread (.postEmpty (.value first)) with
        queue := rest
        log := state.log ++ [.take thread first] }
  | .postEmpty result =>
    some { state.move thread (.unlock result) with empty := post cfg state.empty }
  -- `GetSize` and `IsEmpty`
  | .sizeLock => state.acquire thread .sizeRead
  | .sizeRead => some (state.move thread (.unlock (.size state.queue.length)))
  | .emptyLock => state.acquire thread .emptyRead
  | .emptyRead => some (state.move thread (.unlock (.isEmpty state.queue.isEmpty)))
  -- `Clear`
  | .clearLock => state.acquire thread .clearTest
  | .clearTest =>
    match state.queue with
    | [] => some (state.move thread (.unlock .cleared))
    | first :: rest =>
      some { state.move thread .clearWait with
        queue := rest
        log := state.log ++ [.discard first] }
  | .clearWait => state.waitFull thread .clearPost
  | .clearPost => some { state.move thread .clearTest with empty := post cfg state.empty }
  | .unlock result => some { state.ret thread result with lock := none }

/-- What a thread can do: call an operation, make the next step of its call, or give up waiting in
`Pop`. -/
inductive Action (Tid α : Type)
  | call (thread : Tid) (op : Op α)
  | step (thread : Tid)
  | timeout (thread : Tid)
  deriving DecidableEq

/-- One action of one thread. -/
def next (cfg : Config) (state : State Tid α) : Action Tid α → Option (State Tid α)
  | .call thread op =>
    match state.pc thread with
    | .idle => some (state.move thread op.start)
    | _ => none
  | .step thread => step cfg state thread
  | .timeout thread =>
    match state.pc thread with
    | .popWait (some _) => some (state.ret thread .timedOut)
    | _ => none

theorem next_call_some {cfg : Config} {op : Op α}
    (hnext : next cfg state (.call thread op) = some result) :
    state.pc thread = .idle ∧ result = state.move thread op.start := by
  simp only [next] at hnext
  split at hnext
  · exact ⟨‹_›, (Option.some.inj hnext).symm⟩
  · cases hnext

theorem next_timeout_some {cfg : Config} (hnext : next cfg state (.timeout thread) = some result) :
    ∃ time, state.pc thread = .popWait (some time) ∧ result = state.ret thread .timedOut := by
  simp only [next] at hnext
  split at hnext
  · exact ⟨_, ‹_›, (Option.some.inj hnext).symm⟩
  · cases hnext

end Exc.SafeQueue
