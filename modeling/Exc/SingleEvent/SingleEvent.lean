import Exc.Lib.CondVar
import Exc.Lib.Run

/-!
# The event

`comLib/SingleEvent.h`. On `WIN32` the class is an event of the system; the branch for POSIX is
built from a mutex, a condition variable and the flag `m_signalled`. A critical section is one step,
up to the point where `pthread_cond_wait` gives the mutex away.

`Win32.next` is what the class is for, the event of the other branch. A manual-reset event that is
set releases every waiting thread and stays signalled until it is reset; an auto-reset event that is
set releases one waiting thread, and is signalled when there is none, until a wait takes that.

The branch for POSIX does not implement this. `Set` wakes one waiting thread even of a manual-reset
event, `Wait` looks at the flag of a manual-reset event only, so that a `Set` nobody waits for is
lost, and `Wait` takes every return of `pthread_cond_wait` for a release. `Served` is the condition
on the steps under which none of this shows, and `event_implements` says that a run whose steps meet
it is a run of the `WIN32` event.
-/

set_option autoImplicit false
set_option relaxedAutoImplicit false

namespace Exc.SingleEvent

open Lib

/-- The arguments of the constructor. -/
structure Config where
  manualReset : Bool
  initialState : Bool

/-- Where a thread stands: outside, blocked in `Wait()` or, if `timed`, in `Wait(int)`, or about to
return true from it. -/
inductive Pc
  | idle
  | waiting (timed : Bool)
  | released
  deriving DecidableEq

/-- Whether a thread is blocked. -/
def Pc.waits : Pc → Bool
  | .waiting _ => true
  | _ => false

/-- The release of a blocked thread. -/
def Pc.wake : Pc → Pc
  | .waiting _ => .released
  | place => place

/-- What threads can do: call `Set`, which releases the threads of the set, `Reset`, `Wait()` or
`Wait(int)`, return true from a wait or false when its time is over, and wake up from
`pthread_cond_wait` for no reason. -/
inductive Action (Tid : Type)
  | set (woken : Finset Tid)
  | reset
  | wait (thread : Tid) (timed : Bool)
  | ret (thread : Tid)
  | timeout (thread : Tid)
  | spurious (thread : Tid)

variable {Tid : Type} [Fintype Tid] [DecidableEq Tid]

/-! ### The event of `WIN32` -/

namespace Win32

/-- An event and its threads. -/
structure Event (Tid : Type) where
  signalled : Bool
  pc : Tid → Pc

omit [Fintype Tid] [DecidableEq Tid] in
/-- `CreateEvent`. -/
def initial (cfg : Config) : Event Tid := ⟨cfg.initialState, fun _ ↦ .idle⟩

/-- The threads that `SetEvent` may release: all that wait, or one that waits, if any. -/
def Releases (cfg : Config) (pc : Tid → Pc) (woken : Finset Tid) : Prop :=
  if cfg.manualReset then woken = waiters Pc.waits pc
  else woken ⊆ waiters Pc.waits pc ∧ (waiters Pc.waits pc ≠ ∅ → woken.card = 1)

instance (cfg : Config) (pc : Tid → Pc) (woken : Finset Tid) : Decidable (Releases cfg pc woken) :=
  inferInstanceAs (Decidable (ite _ _ _))

/-- One action on the event. -/
def next (cfg : Config) (event : Event Tid) : Action Tid → Option (Event Tid)
  | .set woken =>
    if Releases cfg event.pc woken then
      some ⟨if cfg.manualReset ∨ waiters Pc.waits event.pc = ∅ then true else event.signalled,
        wakeUp Pc.wake woken event.pc⟩
    else none
  | .reset => some { event with signalled := false }
  | .wait thread timed =>
    match event.pc thread with
    | .idle =>
      if event.signalled then
        some ⟨cfg.manualReset, Function.update event.pc thread .released⟩
      else some { event with pc := Function.update event.pc thread (.waiting timed) }
    | _ => none
  | .ret thread =>
    match event.pc thread with
    | .released => some { event with pc := Function.update event.pc thread .idle }
    | _ => none
  | .timeout thread =>
    match event.pc thread with
    | .waiting true => some { event with pc := Function.update event.pc thread .idle }
    | _ => none
  | .spurious _ => none

end Win32

/-! ### The branch for POSIX -/

/-- The members of the class and the threads. The last field is not in the source: whether there was
a `Set` that found nobody waiting, or the event was made signalled, and no `Reset` since. -/
structure State (Tid : Type) where
  signalled : Bool
  pc : Tid → Pc
  unclaimed : Bool

omit [Fintype Tid] [DecidableEq Tid] in
/-- `SingleEvent::SingleEvent`. -/
def initial (cfg : Config) : State Tid := ⟨cfg.initialState, fun _ ↦ .idle, cfg.initialState⟩

/-- One action on the event. The two waits differ in that the second one can run out of time. -/
def next (cfg : Config) (state : State Tid) : Action Tid → Option (State Tid)
  | .set woken =>
    if Signals Pc.waits state.pc woken then
      some ⟨true, wakeUp Pc.wake woken state.pc,
        if waiters Pc.waits state.pc = ∅ then true else state.unclaimed⟩
    else none
  | .reset => some { state with signalled := false, unclaimed := false }
  | .wait thread timed =>
    match state.pc thread with
    | .idle =>
      if cfg.manualReset = true ∧ state.signalled = true then
        some { state with pc := Function.update state.pc thread .released }
      else some { state with pc := Function.update state.pc thread (.waiting timed) }
    | _ => none
  | .ret thread =>
    match state.pc thread with
    | .released => some { state with pc := Function.update state.pc thread .idle }
    | _ => none
  | .timeout thread =>
    match state.pc thread with
    | .waiting true => some { state with pc := Function.update state.pc thread .idle }
    | _ => none
  | .spurious thread =>
    if (state.pc thread).waits then
      some { state with pc := wakeUp Pc.wake {thread} state.pc }
    else none

/-! ### The condition -/

/-- The condition under which the branch for POSIX serves its callers. The signal of a `Set` wakes
every thread that waits for a manual-reset event, and one of those that wait for an auto-reset
event; nobody waits for an auto-reset event while a `Set` is unclaimed; no wake-up is spurious. -/
def Served (cfg : Config) (state : State Tid) : Action Tid → Prop
  | .set woken =>
    if cfg.manualReset then woken = waiters Pc.waits state.pc
    else waiters Pc.waits state.pc ≠ ∅ → woken.card = 1
  | .wait _ _ => cfg.manualReset = true ∨ state.unclaimed = false
  | .spurious _ => False
  | _ => True

instance (cfg : Config) (state : State Tid) (action : Action Tid) :
    Decidable (Served cfg state action) :=
  match action with
  | .set _ => inferInstanceAs (Decidable (ite _ _ _))
  | .wait _ _ => inferInstanceAs (Decidable (_ ∨ _))
  | .spurious _ => .isFalse id
  | .reset | .ret _ | .timeout _ => .isTrue trivial

/-- The class and the event that it stands for: the threads are at the same places, the event is
signalled when the flag is set, or when there is an unclaimed `Set`, and nobody waits for a
signalled event. -/
structure Represents (cfg : Config) (state : State Tid) (event : Win32.Event Tid) : Prop where
  pc : event.pc = state.pc
  manual : cfg.manualReset = true → event.signalled = state.signalled
  auto : cfg.manualReset = false → event.signalled = state.unclaimed
  nobody : event.signalled = true → ∀ thread, (event.pc thread).waits = false

variable {cfg : Config} {state result : State Tid} {event : Win32.Event Tid}

theorem Pc.not_waits_wake (place : Pc) : place.wake.waits = false := by
  cases place <;> rfl

omit [DecidableEq Tid] in
theorem waits_eq_false (hnone : waiters Pc.waits state.pc = ∅) (thread : Tid) :
    (state.pc thread).waits = false := by
  have hnot : thread ∉ waiters Pc.waits state.pc := by simp [hnone]
  simpa using hnot

omit [Fintype Tid] in
/-- Waking threads leaves nobody waiting who did not wait before. -/
theorem not_waits_wakeUp {pc : Tid → Pc} {woken : Finset Tid} {thread : Tid}
    (hnot : (pc thread).waits = false) : (wakeUp Pc.wake woken pc thread).waits = false := by
  by_cases hmem : thread ∈ woken
  · rw [wakeUp_of_mem hmem]
    exact Pc.not_waits_wake _
  · rwa [wakeUp_of_notMem hmem]

/-- `Set` releases whom `SetEvent` releases. -/
theorem Represents.set (h : Represents cfg state event) {woken : Finset Tid}
    (hserved : Served cfg state (.set woken)) (hnext : next cfg state (.set woken) = some result) :
    ∃ later, Win32.next cfg event (.set woken) = some later ∧ Represents cfg result later := by
  have hsignals : Signals Pc.waits state.pc woken := by
    by_contra hnot
    rw [next, if_neg hnot] at hnext
    cases hnext
  rw [next, if_pos hsignals] at hnext
  obtain rfl := Option.some.inj hnext
  have hreleases : Win32.Releases cfg event.pc woken := by
    rw [h.pc, Win32.Releases]
    rw [Served] at hserved
    split_ifs at hserved ⊢ with hmanual
    · exact hserved
    · exact ⟨hsignals.1, hserved⟩
  refine ⟨_, if_pos hreleases, ?_⟩
  rw [h.pc]
  constructor
  · rfl
  · intro hmanual
    simp [hmanual]
  · intro hauto
    simp only [hauto, Bool.false_eq_true, false_or]
    split_ifs
    · rfl
    · exact h.auto hauto
  · intro hset thread
    by_cases hmanual : cfg.manualReset = true
    · -- Everybody was woken.
      rw [Served, if_pos hmanual] at hserved
      subst hserved
      by_cases hwaits : (state.pc thread).waits = true
      · show (wakeUp Pc.wake (waiters Pc.waits state.pc) state.pc thread).waits = false
        rw [wakeUp_of_mem (mem_waiters.mpr hwaits)]
        exact Pc.not_waits_wake _
      · exact not_waits_wakeUp (by simpa using hwaits)
    · refine not_waits_wakeUp ?_
      by_cases hnone : waiters Pc.waits state.pc = ∅
      · exact waits_eq_false hnone thread
      · have hold : event.signalled = true := by simpa [hmanual, hnone] using hset
        exact h.pc ▸ h.nobody hold thread

/-- `Wait` blocks when `WaitForSingleObject` does. -/
theorem Represents.wait (h : Represents cfg state event) {thread : Tid} {timed : Bool}
    (hserved : Served cfg state (.wait thread timed))
    (hnext : next cfg state (.wait thread timed) = some result) :
    ∃ later, Win32.next cfg event (.wait thread timed) = some later ∧
      Represents cfg result later := by
  cases hpc : state.pc thread with
  | waiting | released => simp [next, hpc] at hnext
  | idle =>
    rw [next, hpc] at hnext
    simp only at hnext
    have hevent : event.pc thread = .idle := by rw [h.pc, hpc]
    by_cases hsignalled : event.signalled = true
    · -- The event is signalled, so it is a manual-reset event, or the wait is not served.
      have hmanual : cfg.manualReset = true := by
        by_contra hauto
        have hunclaimed := h.auto (by simpa using hauto)
        rcases hserved with hyes | hno
        · exact hauto hyes
        · rw [hunclaimed, hno] at hsignalled
          cases hsignalled
      rw [if_pos ⟨hmanual, (h.manual hmanual).symm.trans hsignalled⟩] at hnext
      obtain rfl := Option.some.inj hnext
      refine ⟨⟨cfg.manualReset, Function.update event.pc thread .released⟩, ?_, ?_⟩
      · simp [Win32.next, hevent, hsignalled]
      · constructor
        · rw [h.pc]
        · intro _
          rw [← h.manual hmanual, hsignalled, hmanual]
        · intro hauto
          rw [hmanual] at hauto
          cases hauto
        · intro _ other
          by_cases hother : other = thread
          · subst hother
            simp [Pc.waits]
          · simpa [Function.update_of_ne hother] using h.nobody hsignalled other
    · have hblocks : ¬ (cfg.manualReset = true ∧ state.signalled = true) := by
        rintro ⟨hmanual, hflag⟩
        exact hsignalled ((h.manual hmanual).trans hflag)
      rw [if_neg hblocks] at hnext
      obtain rfl := Option.some.inj hnext
      refine ⟨{ event with pc := Function.update event.pc thread (.waiting timed) }, ?_, ?_⟩
      · simp [Win32.next, hevent, hsignalled]
      · exact ⟨by rw [h.pc], h.manual, h.auto, fun hyes ↦ absurd hyes hsignalled⟩

omit [Fintype Tid] in
/-- A thread that leaves its wait changes nothing for the others. -/
theorem Represents.leave (h : Represents cfg state event) (thread : Tid) :
    Represents cfg { state with pc := Function.update state.pc thread .idle }
      { event with pc := Function.update event.pc thread .idle } := by
  refine ⟨by rw [h.pc], h.manual, h.auto, fun hsignalled other ↦ ?_⟩
  by_cases hother : other = thread
  · subst hother
    simp [Pc.waits]
  · simpa [Function.update_of_ne hother] using h.nobody hsignalled other

/-- An action that meets the condition is an action of the event. -/
theorem Represents.next (h : Represents cfg state event) {action : Action Tid}
    (hserved : Served cfg state action) (hnext : next cfg state action = some result) :
    ∃ later, Win32.next cfg event action = some later ∧ Represents cfg result later := by
  cases action with
  | set woken => exact h.set hserved hnext
  | reset =>
    obtain rfl := Option.some.inj hnext
    exact ⟨{ event with signalled := false }, rfl, h.pc, fun _ ↦ rfl, fun _ ↦ rfl,
      fun hsignalled ↦ by cases hsignalled⟩
  | wait thread timed => exact h.wait hserved hnext
  | ret thread =>
    cases hpc : state.pc thread with
    | idle | waiting => simp [SingleEvent.next, hpc] at hnext
    | released =>
      simp only [SingleEvent.next, hpc, Option.some.injEq] at hnext
      subst hnext
      refine ⟨_, ?_, h.leave thread⟩
      simp [Win32.next, h.pc, hpc]
  | timeout thread =>
    cases hpc : state.pc thread with
    | idle | released => simp [SingleEvent.next, hpc] at hnext
    | waiting timed =>
      cases timed with
      | false => simp [SingleEvent.next, hpc] at hnext
      | true =>
        simp only [SingleEvent.next, hpc, Option.some.injEq] at hnext
        subst hnext
        refine ⟨_, ?_, h.leave thread⟩
        simp [Win32.next, h.pc, hpc]
  | spurious thread => exact absurd hserved id

/-- A run whose steps all meet `Served` is a run of the event of `WIN32`, with every thread at the
same place, and nobody is blocked while the event is signalled. -/
theorem event_implements {actions : List (Action Tid)}
    (hrun : Run (guarded (Served cfg) (stepOf (next cfg))) (initial cfg) actions state) :
    ∃ event : Win32.Event Tid, Run (stepOf (Win32.next cfg)) (Win32.initial cfg) actions event ∧
      event.pc = state.pc ∧
      (event.signalled = true → ∀ thread, (state.pc thread).waits = false) := by
  have hinitial : Represents cfg (initial cfg : State Tid) (Win32.initial cfg) :=
    ⟨rfl, fun _ ↦ rfl, fun _ ↦ rfl, fun _ _ ↦ rfl⟩
  obtain ⟨event, hevent, h⟩ := hrun.simulation hinitial
    fun state abstract action result h hstep ↦ h.next hstep.1 hstep.2
  exact ⟨event, hevent, h.pc, h.pc ▸ h.nobody⟩

/-- Two threads wait for an auto-reset event, and two calls of `Set` release them. -/
theorem event_implements_two_waiting :
    ∃ state : State (Fin 2),
      Run (guarded (Served ⟨false, false⟩) (stepOf (next ⟨false, false⟩))) (initial ⟨false, false⟩)
        [.wait 0 false, .wait 1 true, .set {1}, .ret 1, .set {0}, .ret 0] state ∧
      ∃ event : Win32.Event (Fin 2), Run (stepOf (Win32.next ⟨false, false⟩))
        (Win32.initial ⟨false, false⟩)
        [.wait 0 false, .wait 1 true, .set {1}, .ret 1, .set {0}, .ret 0] event ∧
        event.pc = state.pc ∧
        (event.signalled = true → ∀ thread, (state.pc thread).waits = false) :=
  have hsome : (List.foldlM (guardedNext (Served ⟨false, false⟩) (next ⟨false, false⟩))
      (initial ⟨false, false⟩ : State (Fin 2))
      [.wait 0 false, .wait 1 true, .set {1}, .ret 1, .set {0}, .ret 0]).isSome := by
    decide +kernel
  ⟨_, Run.of_isSome hsome, event_implements (Run.of_isSome hsome)⟩

/-- A `Set` that nobody waits for is lost: the next `Wait` for an auto-reset event blocks. -/
theorem set_is_lost :
    ¬ ∀ (cfg : Config) (actions : List (Action (Fin 1))) (state : State (Fin 1)),
      Run (stepOf (next cfg)) (initial cfg) actions state →
        ∃ event : Win32.Event (Fin 1),
          Run (stepOf (Win32.next cfg)) (Win32.initial cfg) actions event ∧
            event.pc = state.pc := by
  intro hall
  have hsome : (List.foldlM (next ⟨false, false⟩) (initial ⟨false, false⟩ : State (Fin 1))
      [.set ∅, .wait 0 false]).isSome := by decide +kernel
  have hblocked : (Option.get _ hsome).pc 0 = .waiting false := by decide +kernel +revert
  obtain ⟨event, hevent, hpc⟩ := hall _ _ _ (Run.of_eval hsome)
  have hreleased : (List.foldlM (Win32.next ⟨false, false⟩)
      (Win32.initial ⟨false, false⟩ : Win32.Event (Fin 1)) [.set ∅, .wait 0 false]).map
        (fun event ↦ event.pc 0) = some .released := by decide +kernel
  rw [hevent.foldlM_eq, Option.map_some, hpc, hblocked] at hreleased
  cases hreleased

end Exc.SingleEvent
