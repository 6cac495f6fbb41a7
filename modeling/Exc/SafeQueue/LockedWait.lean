import Exc.SafeQueue.BoundedFifo

/-!
# Waiting with the lock held

`Push` and `Clear` wait for a semaphore inside of the critical section. The thread that could post
it needs the lock, so this must never block. It can: `push_blocks_inside` is the run in which a
`BlockPush` has taken the last free place and now waits for the lock, while a `Push` holds the lock,
has found the queue not full and waits for a free place. In the same way a `Clear` waits for the
token of an element that a consumer has claimed.

`Unraced` is the condition that no other thread comes in between: a `Push` goes on to wait only when
the free places are not all claimed by calls of `BlockPush` on their way to the lock, and while it
stands before its wait such a call takes a place only if it leaves one; the same for `Clear`, the
elements and the consumers. `lock_holder_proceeds` shows that in the runs whose steps all meet it
the holder of the lock is never blocked. The invariant is `WaitsFree`.
-/

set_option autoImplicit false
set_option relaxedAutoImplicit false

namespace Exc.SafeQueue

open Lib

variable {Tid α : Type} [DecidableEq Tid] [Fintype Tid] {cfg : Config} {state result : State Tid α}
  {thread : Tid}

/-- A `BlockPush` that has a free place and waits for the lock. -/
def Pc.blockPushing : Pc α → ℕ
  | .blockPushLock _ => 1
  | _ => 0

/-- A `Push` that is about to wait for a free place. -/
def Pc.isPushWait : Pc α → Bool
  | .pushWait _ => true
  | _ => false

/-- A `Clear` that is about to wait for an element. -/
def Pc.isClearWait : Pc α → Bool
  | .clearWait => true
  | _ => false

/-- The condition on the state before a step. -/
def Unraced (cfg : Config) (state : State Tid α) (action : Action Tid α) : Prop :=
  match action with
  | .step thread =>
    match state.pc thread with
    | .pushTest _ => cfg.capacity ≤ state.queue.length ∨
        state.queue.length + total Pc.blockPushing state.pc < cfg.capacity
    | .blockPushWait _ => (∀ other, (state.pc other).isPushWait = false) ∨
        state.queue.length + total Pc.blockPushing state.pc + 1 < cfg.capacity
    | .clearTest => state.queue.length = 0 ∨ total Pc.claimed state.pc < state.queue.length
    | .popWait _ => (∀ other, (state.pc other).isClearWait = false) ∨
        total Pc.claimed state.pc < state.queue.length
    | _ => True
  | _ => True

instance (cfg : Config) (state : State Tid α) (action : Action Tid α) :
    Decidable (Unraced cfg state action) :=
  match action with
  | .call _ _ | .timeout _ => inferInstanceAs (Decidable True)
  | .step thread => by
    unfold Unraced
    dsimp only
    cases state.pc thread <;> dsimp only <;> infer_instance

/-- A thread that is about to wait with the lock in its hands will not block. -/
def WaitsFree (state : State Tid α) (thread : Tid) : Prop :=
  ((state.pc thread).isPushWait = true → 0 < state.empty) ∧
    ((state.pc thread).isClearWait = true → 0 < state.full)

/-! ### Counting under the lock -/

theorem inside_of_isPushWait {place : Pc α} (hwait : place.isPushWait = true) :
    place.inside = true ∧ place.reserved = 0 := by
  cases place <;> first | exact ⟨rfl, rfl⟩ | cases hwait

theorem inside_of_isClearWait {place : Pc α} (hwait : place.isClearWait = true) :
    place.inside = true ∧ place.unclaimed = 1 ∧ place.unposted = 0 := by
  cases place <;> first | exact ⟨rfl, rfl, rfl⟩ | cases hwait

theorem reserved_of_outside {place : Pc α} (hout : place.inside = false) :
    place.reserved = place.blockPushing := by
  cases place <;> first | rfl | cases hout

theorem blockPushing_of_inside {place : Pc α} (hin : place.inside = true) :
    place.blockPushing = 0 := by
  cases place <;> first | rfl | cases hin

/-- While a thread without a free place in hand holds the lock, the free places in hand are those of
the calls of `BlockPush` that wait for the lock. -/
theorem Invariant.places_inside (h : Invariant cfg state) (thread : Tid)
    (hinside : (state.pc thread).inside = true) (hreserved : (state.pc thread).reserved = 0) :
    state.empty + state.queue.length + total Pc.blockPushing state.pc = cfg.capacity := by
  have hsame : total Pc.blockPushing state.pc = total Pc.reserved state.pc := by
    refine Finset.sum_congr rfl fun other _ ↦ ?_
    by_cases hother : (state.pc other).inside = true
    · obtain rfl := h.exclusive.unique hinside hother
      rw [blockPushing_of_inside hinside, hreserved]
    · exact (reserved_of_outside (by simpa using hother)).symm
  rw [hsame]
  exact h.places

/-! ### Steps -/

omit [Fintype Tid] in
/-- While another thread holds the lock, a step of a thread takes a free place for `BlockPush`, or
it claims an element. -/
theorem step_outside (hout : (state.pc thread).inside = false) (hlock : state.lock ≠ none)
    (hstep : step cfg state thread = some result) :
    (∃ value, state.pc thread = .blockPushWait value ∧ state.empty = result.empty + 1 ∧
      result.full = state.full) ∨
    (∃ timeout, state.pc thread = .popWait timeout ∧ state.full = result.full + 1 ∧
      result.empty = state.empty) := by
  cases hpc : state.pc thread with
  | blockPushWait value =>
    simp only [step, hpc] at hstep
    obtain ⟨count, hcount, rfl⟩ := waitEmpty_some hstep
    exact Or.inl ⟨value, rfl, hcount, rfl⟩
  | popWait timeout =>
    simp only [step, hpc] at hstep
    obtain ⟨count, hcount, rfl⟩ := waitFull_some hstep
    exact Or.inr ⟨timeout, rfl, hcount, rfl⟩
  | pushLock | blockPushLock | popLock | sizeLock | emptyLock | clearLock =>
    simp only [step, hpc] at hstep
    exact absurd (acquire_some hstep).1 hlock
  | idle =>
    simp only [step, hpc] at hstep
    cases hstep
  | _ =>
    rw [hpc] at hout
    cases hout

omit [Fintype Tid] in
/-- A step moves its thread, and it brings it before a wait with the lock held only from the test of
`Push` or of `Clear`. -/
theorem step_moves (hstep : step cfg state thread = some result) :
    ∃ place, result.pc = Function.update state.pc thread place ∧
      (place.isPushWait = true → (∃ value, state.pc thread = .pushTest value) ∧
        state.queue.length < cfg.capacity ∧ result.empty = state.empty) ∧
      (place.isClearWait = true → state.pc thread = .clearTest ∧ 0 < state.queue.length ∧
        result.full = state.full) := by
  have hnever : ∀ {claim : Prop}, false = true → claim :=
    fun hfalse ↦ absurd hfalse Bool.false_ne_true
  cases hpc : state.pc thread with
  | idle =>
    simp only [step, hpc] at hstep
    cases hstep
  | pushTest value =>
    simp only [step, hpc] at hstep
    split_ifs at hstep with hfull <;> obtain rfl := Option.some.inj hstep
    · exact ⟨_, rfl, hnever, hnever⟩
    · exact ⟨_, rfl, fun _ ↦ ⟨⟨value, rfl⟩, Nat.lt_of_not_le hfull, rfl⟩, hnever⟩
  | clearTest =>
    simp only [step, hpc] at hstep
    split at hstep <;> obtain rfl := Option.some.inj hstep
    · exact ⟨_, rfl, hnever, hnever⟩
    · refine ⟨_, rfl, hnever, fun _ ↦ ⟨rfl, ?_, rfl⟩⟩
      rw [‹state.queue = _›]
      exact Nat.succ_pos _
  | popTake =>
    simp only [step, hpc] at hstep
    split at hstep
    · cases hstep
    · obtain rfl := Option.some.inj hstep
      exact ⟨_, rfl, hnever, hnever⟩
  | pushLock | blockPushLock | popLock | sizeLock | emptyLock | clearLock =>
    simp only [step, hpc] at hstep
    obtain ⟨-, rfl⟩ := acquire_some hstep
    exact ⟨_, rfl, hnever, hnever⟩
  | pushWait | blockPushWait =>
    simp only [step, hpc] at hstep
    obtain ⟨count, -, rfl⟩ := waitEmpty_some hstep
    exact ⟨_, rfl, hnever, hnever⟩
  | popWait | clearWait =>
    simp only [step, hpc] at hstep
    obtain ⟨count, -, rfl⟩ := waitFull_some hstep
    exact ⟨_, rfl, hnever, hnever⟩
  | store | postFull | postEmpty | sizeRead | emptyRead | clearPost | unlock =>
    simp only [step, hpc] at hstep
    obtain rfl := Option.some.inj hstep
    exact ⟨_, rfl, hnever, hnever⟩

/-- A step that meets the condition leaves its own thread free. -/
theorem step_waitsFree_self (h : Invariant cfg state) (hunraced : Unraced cfg state (.step thread))
    (hstep : step cfg state thread = some result) : WaitsFree result thread := by
  obtain ⟨place, hpc, hpush, hclear⟩ := step_moves hstep
  rw [WaitsFree, hpc, Function.update_self]
  refine ⟨fun hwait ↦ ?_, fun hwait ↦ ?_⟩
  · obtain ⟨⟨value, htest⟩, hless, hempty⟩ := hpush hwait
    have hplaces := h.places_inside thread (by rw [htest]; rfl) (by rw [htest]; rfl)
    simp only [Unraced, htest] at hunraced
    omega
  · obtain ⟨htest, hpos, hfull⟩ := hclear hwait
    have helements := h.elements_inside thread (by rw [htest]; rfl)
    simp only [Unraced, htest] at hunraced
    rw [htest] at helements
    simp only [Pc.unposted, Pc.unclaimed] at helements
    omega

/-- A step that meets the condition keeps the other threads free. -/
theorem step_waitsFree_other {other : Tid} (h : Invariant cfg state) (hother : other ≠ thread)
    (hfree : WaitsFree state other) (hunraced : Unraced cfg state (.step thread))
    (hstep : step cfg state thread = some result) : WaitsFree result other := by
  obtain ⟨place, hpc, -, -⟩ := step_moves hstep
  have hsame : result.pc other = state.pc other := by rw [hpc, Function.update_of_ne hother]
  have houtside : (state.pc other).inside = true →
      (state.pc thread).inside = false ∧ state.lock ≠ none := by
    intro hinside
    refine ⟨?_, by rw [(h.exclusive other).mp hinside]; exact Option.some_ne_none _⟩
    by_contra hin
    exact hother (h.exclusive.unique (by simpa using hin) hinside)
  rw [WaitsFree, hsame]
  refine ⟨fun hwait ↦ ?_, fun hwait ↦ ?_⟩
  · obtain ⟨hinside, hreserved⟩ := inside_of_isPushWait hwait
    obtain ⟨hout, hlock⟩ := houtside hinside
    have hplaces := h.places_inside other hinside hreserved
    have hpos := hfree.1 hwait
    obtain ⟨value, hpush, hempty, -⟩ | ⟨timeout, -, -, hempty⟩ := step_outside hout hlock hstep
    · simp only [Unraced, hpush] at hunraced
      rcases hunraced with hnone | hleft
      · rw [hnone other] at hwait
        cases hwait
      · omega
    · omega
  · obtain ⟨hinside, hunclaimed, hunposted⟩ := inside_of_isClearWait hwait
    obtain ⟨hout, hlock⟩ := houtside hinside
    have helements := h.elements_inside other hinside
    have hpos := hfree.2 hwait
    obtain ⟨value, -, -, hfull⟩ | ⟨timeout, hpop, hfull, -⟩ := step_outside hout hlock hstep
    · omega
    · simp only [Unraced, hpop] at hunraced
      rcases hunraced with hnone | hleft
      · rw [hnone other] at hwait
        cases hwait
      · omega

theorem start_outside (op : Op α) : op.start.inside = false := by
  cases op <;> rfl

omit [Fintype Tid] in
/-- A call or a timeout leaves the semaphores alone and moves its thread outside of the lock. -/
theorem move_waitsFree (thread : Tid) (place : Pc α) (hfree : ∀ other, WaitsFree state other)
    (hpc : result.pc = Function.update state.pc thread place) (hempty : result.empty = state.empty)
    (hfull : result.full = state.full) (hplace : place.inside = false) (other : Tid) :
    WaitsFree result other := by
  rw [WaitsFree, hpc, hempty, hfull]
  by_cases hother : other = thread
  · subst hother
    rw [Function.update_self]
    constructor <;> intro hwait
    · rw [(inside_of_isPushWait hwait).1] at hplace
      cases hplace
    · rw [(inside_of_isClearWait hwait).1] at hplace
      cases hplace
  · rw [Function.update_of_ne hother]
    exact hfree other

/-- Every action that meets the condition keeps all threads free. -/
theorem next_waitsFree {action : Action Tid α} (h : Invariant cfg state)
    (hfree : ∀ other, WaitsFree state other) (hunraced : Unraced cfg state action)
    (hnext : next cfg state action = some result) (other : Tid) : WaitsFree result other := by
  cases action with
  | call thread op =>
    obtain ⟨-, rfl⟩ := next_call_some hnext
    refine move_waitsFree thread op.start hfree ?_ ?_ ?_ (start_outside op) other <;> rfl
  | step thread =>
    by_cases hother : other = thread
    · subst hother
      exact step_waitsFree_self h hunraced hnext
    · exact step_waitsFree_other h hother (hfree other) hunraced hnext
  | timeout thread =>
    obtain ⟨time, -, rfl⟩ := next_timeout_some hnext
    refine move_waitsFree thread .idle hfree ?_ ?_ ?_ ?_ other <;> rfl

/-- The holder of the lock can make its next step. -/
theorem Invariant.step_isSome (h : Invariant cfg state) (hfree : WaitsFree state thread)
    (hlock : state.lock = some thread) : (step cfg state thread).isSome := by
  have hinside := (h.exclusive thread).mpr hlock
  cases hpc : state.pc thread with
  | pushWait value =>
    have hpos := hfree.1 (by rw [hpc]; rfl)
    obtain ⟨count, hcount⟩ := Nat.exists_eq_succ_of_ne_zero hpos.ne'
    simp [step, hpc, State.waitEmpty, wait, hcount]
  | clearWait =>
    have hpos := hfree.2 (by rw [hpc]; rfl)
    obtain ⟨count, hcount⟩ := Nat.exists_eq_succ_of_ne_zero hpos.ne'
    simp [step, hpc, State.waitFull, wait, hcount]
  | popTake =>
    obtain ⟨first, rest, hqueue⟩ := List.exists_cons_of_ne_nil (h.queue_ne_nil hpc)
    simp [step, hpc, hqueue]
  | pushTest value =>
    simp only [step, hpc]
    split_ifs <;> rfl
  | clearTest =>
    simp only [step, hpc]
    split <;> rfl
  | store | postFull | postEmpty | sizeRead | emptyRead | clearPost | unlock =>
    simp [step, hpc]
  | _ =>
    rw [hpc] at hinside
    cases hinside

/-! ### Runs -/

/-- The holder of the lock is never blocked. Assumes: every step of the run meets `Unraced`. Then
the semaphore that the holder is about to wait for is positive, and whatever it is about to do, it
can do it. -/
theorem lock_holder_proceeds {actions : List (Action Tid α)}
    (hrun : Run (guarded (Unraced cfg) (stepOf (next cfg))) (initial cfg) actions state)
    (thread : Tid) (hlock : state.lock = some thread) :
    (∀ value, state.pc thread = .pushWait value → 0 < state.empty) ∧
    (state.pc thread = .clearWait → 0 < state.full) ∧
    (next cfg state (.step thread)).isSome := by
  have hall : Invariant cfg state ∧ ∀ other, WaitsFree state other := by
    refine hrun.invariant (fun state ↦ Invariant cfg state ∧ ∀ other, WaitsFree state other)
      ⟨initial_invariant cfg, fun other ↦ ⟨nofun, nofun⟩⟩ ?_
    rintro state action result ⟨h, hfree⟩ ⟨hunraced, hnext⟩
    exact ⟨next_invariant h hnext, next_waitsFree h hfree hunraced hnext⟩
  obtain ⟨h, hfree⟩ := hall
  exact ⟨fun value hpc ↦ (hfree thread).1 (by rw [hpc]; rfl),
    fun hpc ↦ (hfree thread).2 (by rw [hpc]; rfl), h.step_isSome (hfree thread) hlock⟩

/-- A queue for two elements. -/
def pairQueue : Config := { smallQueue with queueSize := 2, queueSize_pos := by decide }

/-- A `Push` before its wait while a `BlockPush` has the other place of the queue in hand. -/
theorem lock_holder_proceeds_beside :
    ∃ state : State (Fin 2) ℕ,
      Run (guarded (Unraced pairQueue) (stepOf (next pairQueue))) (initial pairQueue)
        [.call 0 (.blockPush 7), .call 1 (.push 8), .step 0, .step 1, .step 1] state ∧
      state.lock = some 1 ∧ state.pc 1 = .pushWait 8 ∧ 0 < state.empty :=
  ⟨_, Run.of_isSome (by decide +kernel), by decide +kernel, by decide +kernel,
    (lock_holder_proceeds (Run.of_isSome (by decide +kernel)) 1 (by decide +kernel)).1 8
      (by decide +kernel)⟩

/-- A deadlock: a `BlockPush` has taken the last free place and waits for the lock, a `Push` has
found room, holds the lock and waits for a free place, and no thread can go on. -/
theorem push_blocks_inside :
    ∃ state : State (Fin 2) ℕ,
      Reaches smallQueue
        [.call 0 (.blockPush 7), .call 1 (.push 8), .step 0, .step 1, .step 1] state ∧
      state.lock = some 1 ∧ state.pc 1 = .pushWait 8 ∧ state.empty = 0 ∧
      ∀ thread, (next smallQueue state (.step thread)).isNone ∧
        (next smallQueue state (.timeout thread)).isNone :=
  ⟨_, Run.of_eval (by decide +kernel), by decide +kernel, by decide +kernel, by decide +kernel,
    by decide +kernel⟩

/-- The same for `Clear` and a consumer that has claimed the only element. -/
example : ∃ state : State (Fin 2) ℕ,
    Reaches smallQueue
      [.call 0 (.push 7), .step 0, .step 0, .step 0, .step 0, .step 0, .step 0, .call 1 .blockPop,
        .step 1, .call 0 .clear, .step 0, .step 0] state ∧
    state.lock = some 0 ∧ state.pc 0 = .clearWait ∧ state.full = 0 ∧
    ∀ thread, (next smallQueue state (.step thread)).isNone :=
  ⟨_, Run.of_eval (by decide +kernel), by decide +kernel, by decide +kernel, by decide +kernel,
    by decide +kernel⟩

end Exc.SafeQueue
