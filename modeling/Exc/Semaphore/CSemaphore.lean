import Exc.Lib.CondVar
import Exc.Lib.Run

/-!
# Counting semaphores and their grants

`CSemaphore` and `CSemaphoreGrant` of `util/sem/csem.hpp`. A semaphore is a counter under a mutex
with a condition variable; a grant is an object that has taken a semaphore, or not, and gives it
back when it is destroyed. `MoveTo` hands the semaphore from one grant to another.

A critical section is one step, up to the point where `condition.wait` gives the mutex away. `post`
is two steps: it notifies after it has left its critical section. `Pc` is where a thread stands
between the steps, with what is left to do in the method of the grant that it is in.

Scope. The counters are unbounded integers here; they never exceed their first value
(`CSemaphore.permits_conserved`). A method that calls a semaphore through a null pointer, as
`Acquire` does on a grant without one, has no next state.
-/

set_option autoImplicit false
set_option relaxedAutoImplicit false

namespace Exc.CSemaphore

open Lib

/-- `CSemaphoreGrant`. -/
structure Grant (Sem : Type) where
  sem : Option Sem
  fHaveGrant : Bool
  deriving DecidableEq

/-- The methods that release a grant: `Release`, `MoveTo` for its argument, and the destructor. -/
inductive Method (Obj : Type)
  | release (grant : Obj)
  | moveTo (source grant : Obj)
  | destroy (grant : Obj)
  deriving DecidableEq

/-- Where a thread stands: outside all methods, blocked in `condition.wait` under `Acquire`, woken
there and about to test the value again, or in `post` before `notify_one`. -/
inductive Pc (Obj Sem : Type)
  | idle
  | blocked (grant : Obj) (sem : Sem)
  | woken (grant : Obj) (sem : Sem)
  | posting (method : Method Obj) (sem : Sem)
  deriving DecidableEq

/-- The semaphores, the threads, and the grants that are alive. -/
structure State (Tid Obj Sem : Type) where
  value : Sem → ℤ
  pc : Tid → Pc Obj Sem
  grant : Obj → Option (Grant Sem)

section Places

variable {Obj Sem : Type} [DecidableEq Obj] [DecidableEq Sem]

/-- The grant that a method releases. -/
def Method.released : Method Obj → Obj
  | .release grant | .moveTo _ grant | .destroy grant => grant

/-- The grants that a method reads or changes. -/
def Method.uses : Method Obj → List Obj
  | .release grant | .destroy grant => [grant]
  | .moveTo source grant => [source, grant]

/-- The grants that the place of a thread is about. -/
def Pc.uses : Pc Obj Sem → List Obj
  | .idle => []
  | .blocked grant _ | .woken grant _ => [grant]
  | .posting method _ => method.uses

/-- Whether a thread is blocked on the condition variable of a semaphore. -/
def Pc.waitsOn (sem : Sem) : Pc Obj Sem → Bool
  | .blocked _ other => other = sem
  | _ => false

/-- The wake-up of a blocked thread. -/
def Pc.wake : Pc Obj Sem → Pc Obj Sem
  | .blocked grant sem => .woken grant sem
  | place => place

/-- `fHaveGrant = …`. -/
def setHaveGrant (grants : Obj → Option (Grant Sem)) (grant : Obj) (fHaveGrant : Bool) :
    Obj → Option (Grant Sem) :=
  Function.update grants grant ((grants grant).map fun object ↦ { object with fHaveGrant })

/-- What a method does once its grant is released. -/
def Method.finish (grants : Obj → Option (Grant Sem)) : Method Obj → Obj → Option (Grant Sem)
  | .release grant => setHaveGrant grants grant false
  | .moveTo source grant =>
    let released := setHaveGrant grants grant false
    Function.update (Function.update released grant (released source)) source (some ⟨none, false⟩)
  | .destroy grant => Function.update grants grant none

end Places

/-- The calls of a thread on grants. -/
inductive Call (Obj Sem : Type)
  | construct (grant : Obj)
  | constructOn (grant : Obj) (sema : Sem) (fTry : Bool)
  | acquire (grant : Obj)
  | tryAcquire (grant : Obj)
  | leave (method : Method Obj)

/-- What a thread can do: call a method, test the value again after a wake-up, notify at the end of
`post`, or wake up for no reason. The set of a notification is the threads that it wakes. -/
inductive Action (Tid Obj Sem : Type)
  | call (thread : Tid) (call : Call Obj Sem)
  | retest (thread : Tid)
  | notify (thread : Tid) (woken : Finset Tid)
  | spurious (thread : Tid)

variable {Tid Obj Sem : Type} [Fintype Tid] [DecidableEq Tid] [DecidableEq Obj] [DecidableEq Sem]

namespace State

omit [Fintype Tid] in
/-- `sem->wait()` from the test of the value on, and the end of `Acquire`. -/
def wait (state : State Tid Obj Sem) (thread : Tid) (grant : Obj) (sem : Sem) :
    State Tid Obj Sem :=
  if state.value sem < 1 then
    { state with pc := Function.update state.pc thread (.blocked grant sem) }
  else
    { value := Function.update state.value sem (state.value sem - 1)
      pc := Function.update state.pc thread .idle
      grant := setHaveGrant state.grant grant true }

omit [Fintype Tid] in
/-- `Acquire`. -/
def acquire (state : State Tid Obj Sem) (thread : Tid) (grant : Obj) :
    Option (State Tid Obj Sem) :=
  match state.grant grant with
  | none => none
  | some ⟨_, true⟩ => some state
  | some ⟨none, false⟩ => none
  | some ⟨some sem, false⟩ => some (state.wait thread grant sem)

omit [Fintype Tid] [DecidableEq Tid] in
/-- `TryAcquire`. -/
def tryAcquire (state : State Tid Obj Sem) (grant : Obj) : Option (State Tid Obj Sem) :=
  match state.grant grant with
  | none => none
  | some ⟨_, true⟩ => some state
  | some ⟨none, false⟩ => none
  | some ⟨some sem, false⟩ =>
    if state.value sem < 1 then some state
    else some { state with
      value := Function.update state.value sem (state.value sem - 1)
      grant := setHaveGrant state.grant grant true }

omit [Fintype Tid] in
/-- The end of a method, and the thread leaves it. -/
def finish (state : State Tid Obj Sem) (thread : Tid) (method : Method Obj) : State Tid Obj Sem :=
  { state with
    pc := Function.update state.pc thread .idle
    grant := method.finish state.grant }

omit [Fintype Tid] in
/-- A method that begins with `Release`, up to the notification in `post`. -/
def release (state : State Tid Obj Sem) (thread : Tid) (method : Method Obj) :
    Option (State Tid Obj Sem) :=
  if method.uses.all fun grant ↦ (state.grant grant).isSome then
    match state.grant method.released with
    | none => none
    | some ⟨_, false⟩ => some (state.finish thread method)
    | some ⟨none, true⟩ => none
    | some ⟨some sem, true⟩ => some { state with
        value := Function.update state.value sem (state.value sem + 1)
        pc := Function.update state.pc thread (.posting method sem) }
  else none

omit [Fintype Tid] in
/-- A call on grants. A constructor makes a new object. -/
def call (state : State Tid Obj Sem) (thread : Tid) : Call Obj Sem → Option (State Tid Obj Sem)
  | .construct grant =>
    if (state.grant grant).isNone then
      some { state with grant := Function.update state.grant grant (some ⟨none, false⟩) }
    else none
  | .constructOn grant sema fTry =>
    if (state.grant grant).isNone then
      let made : State Tid Obj Sem :=
        { state with grant := Function.update state.grant grant (some ⟨some sema, false⟩) }
      if fTry then made.tryAcquire grant else made.acquire thread grant
    else none
  | .acquire grant => state.acquire thread grant
  | .tryAcquire grant => state.tryAcquire grant
  | .leave method => state.release thread method

end State

/-- One action: `none` when the thread does not stand where it could do it. -/
def next (state : State Tid Obj Sem) : Action Tid Obj Sem → Option (State Tid Obj Sem)
  | .call thread call =>
    match state.pc thread with
    | .idle => state.call thread call
    | _ => none
  | .retest thread =>
    match state.pc thread with
    | .woken grant sem => some (state.wait thread grant sem)
    | _ => none
  | .notify thread woken =>
    match state.pc thread with
    | .posting method sem =>
      if Signals (Pc.waitsOn sem) state.pc woken then
        some ({ state with pc := wakeUp Pc.wake woken state.pc }.finish thread method)
      else none
    | _ => none
  | .spurious thread =>
    match state.pc thread with
    | .blocked _ _ => some { state with pc := wakeUp Pc.wake {thread} state.pc }
    | _ => none

/-- The grants that a call reads or changes. -/
def Call.uses : Call Obj Sem → List Obj
  | .construct grant | .constructOn grant _ _ | .acquire grant | .tryAcquire grant => [grant]
  | .leave method => method.uses

/-- A grant is not shared: a thread calls it only while no other thread is inside a call on it. -/
def Unshared (state : State Tid Obj Sem) : Action Tid Obj Sem → Prop
  | .call _ call => ∀ other, ∀ grant ∈ call.uses, grant ∉ (state.pc other).uses
  | _ => True

instance (state : State Tid Obj Sem) (action : Action Tid Obj Sem) :
    Decidable (Unshared state action) :=
  match action with
  | .call _ _ => inferInstanceAs (Decidable (∀ _, _))
  | .retest _ | .notify _ _ | .spurious _ => .isTrue trivial

/-- Semaphores with their first values, before any grant is made. -/
def initial (init : Sem → ℕ) : State Tid Obj Sem :=
  ⟨fun sem ↦ init sem, fun _ ↦ .idle, fun _ ↦ none⟩

end Exc.CSemaphore
