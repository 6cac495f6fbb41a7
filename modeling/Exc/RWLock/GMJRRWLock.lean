import Exc.Lib.CondVar
import Mathlib.Data.Int.Notation

/-!
# The reader-writer lock

`comLib/GMRWLockImp.cpp`, the branch for POSIX: two counters under the mutex `cnt_mutex` and one
condition variable `rw_cond` for readers and writers alike. A reader waits while there is a writer,
a writer waits while there is anybody; the release of a writer wakes everybody and that of the last
reader wakes somebody.

A critical section is one step, up to the point where `pthread_cond_wait` gives the mutex away; what
follows a wake-up is another step, the test of the loop condition. `Pc` is where a thread stands
between the steps. `unlock` does not know what its caller holds: it looks at the counters.

Scope. A thread that takes the lock while it holds it counts as one holder more. The counters are
unbounded integers: they overflow with 2^31 holders.
-/

set_option autoImplicit false
set_option relaxedAutoImplicit false

namespace Exc.RWLock

open Lib

/-- What the lock is taken for. -/
inductive Mode
  | read
  | write
  deriving DecidableEq

/-- Where a thread stands: it has nothing to do with the lock, it is blocked in `pthread_cond_wait`,
it was woken and has not tested its condition again, or it holds the lock. -/
inductive Pc
  | idle
  | blocked (mode : Mode)
  | woken (mode : Mode)
  | holding (mode : Mode)
  deriving DecidableEq

/-- Whether a thread is blocked on `rw_cond`. -/
def Pc.waits : Pc → Bool
  | .blocked _ => true
  | _ => false

/-- The wake-up of a blocked thread. -/
def Pc.wake : Pc → Pc
  | .blocked mode => .woken mode
  | place => place

/-- Whether a thread can call a release: it is not inside another call. -/
def Pc.isOutside : Pc → Bool
  | .idle | .holding _ => true
  | _ => false

/-- Whether a thread holds the lock. -/
def Pc.isHolding : Pc → Bool
  | .holding _ => true
  | _ => false

/-- A holder counts for one in the mode that it holds. -/
def Pc.holds (mode : Mode) : Pc → ℕ
  | .holding held => if held = mode then 1 else 0
  | _ => 0

/-- The lock and its threads. -/
structure State (Tid : Type) where
  rdCnt : ℤ
  wrCnt : ℤ
  pc : Tid → Pc

variable {Tid : Type} [Fintype Tid] [DecidableEq Tid]

omit [Fintype Tid] [DecidableEq Tid] in
/-- `GMJRRWLock::GMJRRWLock`. -/
def initial : State Tid := ⟨0, 0, fun _ ↦ .idle⟩

namespace State

omit [Fintype Tid] [DecidableEq Tid] in
/-- The condition of the loop in `readLock` and in `writeLock`. -/
def mustWait (state : State Tid) : Mode → Prop
  | .read => 0 < state.wrCnt
  | .write => 0 < state.rdCnt + state.wrCnt

omit [Fintype Tid] [DecidableEq Tid] in
instance (state : State Tid) (mode : Mode) : Decidable (state.mustWait mode) :=
  match mode with
  | .read => inferInstanceAs (Decidable (_ < _))
  | .write => inferInstanceAs (Decidable (_ < _))

omit [Fintype Tid] in
/-- The loop of `readLock` and `writeLock` from the test of its condition on: the thread blocks, or
it counts itself. -/
def attempt (state : State Tid) (thread : Tid) (mode : Mode) : State Tid :=
  if state.mustWait mode then
    { state with pc := Function.update state.pc thread (.blocked mode) }
  else
    { rdCnt := if mode = .read then state.rdCnt + 1 else state.rdCnt
      wrCnt := if mode = .write then state.wrCnt + 1 else state.wrCnt
      pc := Function.update state.pc thread (.holding mode) }

omit [Fintype Tid] in
/-- The threads of a set are woken, and the caller of a release goes on. -/
def leave (state : State Tid) (thread : Tid) (woken : Finset Tid) : State Tid :=
  { state with pc := Function.update (wakeUp Pc.wake woken state.pc) thread .idle }

/-- `UnWritelock`, with its broadcast. -/
def unWritelock (state : State Tid) (thread : Tid) : State Tid :=
  leave { state with wrCnt := state.wrCnt - 1 } thread (waiters Pc.waits state.pc)

/-- `UnReadlock`, with its signal to some waiting threads when the last reader leaves. -/
def unReadlock (state : State Tid) (thread : Tid) (woken : Finset Tid) : Option (State Tid) :=
  let left := { state with rdCnt := state.rdCnt - 1 }
  if left.rdCnt = 0 then
    if Signals Pc.waits state.pc woken then some (left.leave thread woken) else none
  else if woken = ∅ then some (left.leave thread ∅)
  else none

/-- `unlock`: it goes by the counters. -/
def unlock (state : State Tid) (thread : Tid) (woken : Finset Tid) : Option (State Tid) :=
  if 0 < state.wrCnt then some (state.unWritelock thread)
  else if 0 < state.rdCnt then state.unReadlock thread woken
  else some (state.leave thread ∅)

end State

/-- What a thread can do: call `readLock` or `writeLock`, test the condition again after a wake-up,
call one of the three releases, or wake up for no reason. The set of a release is the threads that
its signal wakes. -/
inductive Action (Tid : Type)
  | lock (thread : Tid) (mode : Mode)
  | retest (thread : Tid)
  | unlock (thread : Tid) (woken : Finset Tid)
  | unReadlock (thread : Tid) (woken : Finset Tid)
  | unWritelock (thread : Tid)
  | spurious (thread : Tid)

/-- One action: `none` when the thread does not stand where it could do it. -/
def next (state : State Tid) : Action Tid → Option (State Tid)
  | .lock thread mode =>
    match state.pc thread with
    | .idle => some (state.attempt thread mode)
    | _ => none
  | .retest thread =>
    match state.pc thread with
    | .woken mode => some (state.attempt thread mode)
    | _ => none
  | .unlock thread woken =>
    if (state.pc thread).isOutside then state.unlock thread woken else none
  | .unReadlock thread woken =>
    if (state.pc thread).isOutside then state.unReadlock thread woken else none
  | .unWritelock thread =>
    if (state.pc thread).isOutside then some (state.unWritelock thread) else none
  | .spurious thread =>
    if (state.pc thread).waits then
      some { state with pc := wakeUp Pc.wake {thread} state.pc }
    else none

/-- A thread releases only a lock that it holds, and in the matching mode. -/
def Matching (state : State Tid) : Action Tid → Prop
  | .unlock thread _ => (state.pc thread).isHolding = true
  | .unReadlock thread _ => state.pc thread = .holding .read
  | .unWritelock thread => state.pc thread = .holding .write
  | _ => True

instance (state : State Tid) (action : Action Tid) : Decidable (Matching state action) :=
  match action with
  | .lock _ _ | .retest _ | .spurious _ => .isTrue trivial
  | .unlock _ _ | .unReadlock _ _ | .unWritelock _ => inferInstanceAs (Decidable (_ = _))

end Exc.RWLock
