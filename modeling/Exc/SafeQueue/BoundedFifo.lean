import Exc.Lib.Threads
import Exc.SafeQueue.SafeQueue

/-!
# The queue is a bounded queue

Every interleaving of the operations is a history of a first-in first-out queue of the given
capacity, and `front` is never called on an empty queue.

`Invariant` relates the two semaphores to the length of the queue and to the threads that are on
their way between a semaphore and the queue: the free places are counted by `m_EmptySemaphore`, by
the elements and by the threads with a place in hand (`Pc.reserved`), and the elements are counted
by `m_FullSemaphore`, by the consumers on their way (`Pc.claimed`), and, inside of the critical
section, by a push that has not posted yet (`Pc.unposted`) and a `Clear` that has not waited yet
(`Pc.unclaimed`). `Invariant.moved` is the rule that every step is an instance of, `step_invariant`
goes through the steps, and `bounded_fifo` is the result.
-/

set_option autoImplicit false
set_option relaxedAutoImplicit false

namespace Exc.SafeQueue

open Lib

variable {Tid α : Type}

/-! ### Places -/

/-- The places where a thread holds the lock. -/
def Pc.inside : Pc α → Bool
  | .pushTest _ | .pushWait _ | .store _ _ | .postFull _ | .popTake | .postEmpty _ | .sizeRead
  | .emptyRead | .clearTest | .clearWait | .clearPost | .unlock _ => true
  | _ => false

/-- A thread that has a free place in hand, for a value to store or after removing one. -/
def Pc.reserved : Pc α → ℕ
  | .blockPushLock _ | .store _ _ | .postEmpty _ | .clearWait | .clearPost => 1
  | _ => 0

/-- A consumer that has waited for an element and not yet taken it. -/
def Pc.claimed : Pc α → ℕ
  | .popLock | .popTake => 1
  | _ => 0

/-- A push that has stored its value and not yet posted it. -/
def Pc.unposted : Pc α → ℕ
  | .postFull _ => 1
  | _ => 0

/-- A `Clear` that has removed an element and not yet waited for it. -/
def Pc.unclaimed : Pc α → ℕ
  | .clearWait => 1
  | _ => 0

/-- The value of a result. -/
def Result.value? : Result α → Option α
  | .value returned => some returned
  | _ => none

/-- The value that a call will return. -/
def Pc.inHand : Pc α → List α
  | .store _ result | .postFull result | .postEmpty result | .unlock result => result.value?.toList
  | _ => []

variable [DecidableEq Tid]

/-- The values that calls of a thread have returned. -/
def valuesReturned (thread : Tid) (returned : List (Tid × Result α)) : List α :=
  returned.filterMap fun entry ↦ if entry.1 = thread then entry.2.value? else none

/-! ### The invariant -/

variable [Fintype Tid] {cfg : Config} {state result : State Tid α} {thread : Tid} {place : Pc α}

/-- What holds in every state of every run. -/
structure Invariant (cfg : Config) (state : State Tid α) : Prop where
  exclusive : Exclusive Pc.inside state.lock state.pc
  places : state.empty + state.queue.length + total Pc.reserved state.pc = cfg.capacity
  elements : state.full + total Pc.claimed state.pc + total Pc.unposted state.pc =
    state.queue.length + total Pc.unclaimed state.pc
  history : Run (Fifo.Step cfg.capacity) [] state.log state.queue
  handed : ∀ thread, Fifo.takenBy thread state.log =
    valuesReturned thread state.returned ++ (state.pc thread).inHand

theorem initial_invariant (cfg : Config) : Invariant cfg (initial cfg : State Tid α) where
  exclusive := fun thread ↦ by simp [initial, Pc.inside]
  places := congrArg (cfg.capacity + 0 + ·) (total_const Pc.reserved rfl)
  elements := by
    simp only [initial, List.length_nil]
    rw [total_const Pc.claimed rfl, total_const Pc.unposted rfl, total_const Pc.unclaimed rfl]
  history := .refl
  handed := fun thread ↦ rfl

/-- The rule for a step of one thread: what it does to the semaphores and to the length of the queue
is made up for by its new place. -/
theorem Invariant.moved (h : Invariant cfg state)
    (hpc : result.pc = Function.update state.pc thread place)
    (hexclusive : Exclusive Pc.inside result.lock result.pc)
    (hplaces : result.empty + result.queue.length + place.reserved =
      state.empty + state.queue.length + (state.pc thread).reserved)
    (helements : result.full + place.claimed + place.unposted + state.queue.length +
        (state.pc thread).unclaimed =
      state.full + (state.pc thread).claimed + (state.pc thread).unposted + result.queue.length +
        place.unclaimed)
    (hhistory : Run (Fifo.Step cfg.capacity) [] result.log result.queue)
    (hhanded : ∀ other, Fifo.takenBy other result.log =
      valuesReturned other result.returned ++ (result.pc other).inHand) :
    Invariant cfg result where
  exclusive := hexclusive
  places := by
    have hreserved := total_update Pc.reserved state.pc thread place
    have hbefore := h.places
    rw [hpc]
    omega
  elements := by
    have hclaimed := total_update Pc.claimed state.pc thread place
    have hunposted := total_update Pc.unposted state.pc thread place
    have hunclaimed := total_update Pc.unclaimed state.pc thread place
    have hbefore := h.elements
    rw [hpc]
    omega
  history := hhistory
  handed := hhanded

/-- The ledger of a step that takes no value and returns none. -/
theorem Invariant.handed_move (h : Invariant cfg state)
    (hhand : place.inHand = (state.pc thread).inHand) (other : Tid) :
    Fifo.takenBy other state.log = valuesReturned other state.returned ++
      (Function.update state.pc thread place other).inHand := by
  rw [h.handed other]
  by_cases hother : other = thread
  · subst hother
    rw [Function.update_self, hhand]
  · rw [Function.update_of_ne hother]

/-- Two places that no count tells apart. -/
structure Pc.Alike (place other : Pc α) : Prop where
  reserved : place.reserved = other.reserved
  claimed : place.claimed = other.claimed
  unposted : place.unposted = other.unposted
  unclaimed : place.unclaimed = other.unclaimed
  inHand : place.inHand = other.inHand

/-! ### The kinds of steps -/

/-- A thread moves on, on the same side of the lock. -/
theorem Invariant.move (h : Invariant cfg state) (halike : place.Alike (state.pc thread))
    (hinside : place.inside = (state.pc thread).inside) : Invariant cfg (state.move thread place) :=
  h.moved rfl (h.exclusive.move hinside) (by rw [halike.reserved]; rfl)
    (by rw [halike.claimed, halike.unposted, halike.unclaimed]; rfl) h.history
    (h.handed_move halike.inHand)

/-- A thread takes the lock. -/
theorem Invariant.acquire (h : Invariant cfg state)
    (hstep : state.acquire thread place = some result) (halike : place.Alike (state.pc thread))
    (hinside : place.inside = true) : Invariant cfg result := by
  obtain ⟨hlock, rfl⟩ := acquire_some hstep
  have hexclusive := h.exclusive
  rw [hlock] at hexclusive
  exact h.moved rfl (hexclusive.acquire hinside) (by rw [halike.reserved]; rfl)
    (by rw [halike.claimed, halike.unposted, halike.unclaimed]; rfl) h.history
    (h.handed_move halike.inHand)

/-- A thread gets a free place. -/
theorem Invariant.waitEmpty (h : Invariant cfg state)
    (hstep : state.waitEmpty thread place = some result)
    (hreserved : place.reserved = (state.pc thread).reserved + 1)
    (hclaimed : place.claimed = (state.pc thread).claimed)
    (hunposted : place.unposted = (state.pc thread).unposted)
    (hunclaimed : place.unclaimed = (state.pc thread).unclaimed)
    (hhand : place.inHand = (state.pc thread).inHand)
    (hinside : place.inside = (state.pc thread).inside) : Invariant cfg result := by
  obtain ⟨count, hcount, rfl⟩ := waitEmpty_some hstep
  refine h.moved rfl (h.exclusive.move hinside) ?_ ?_ h.history (h.handed_move hhand)
  · change count + state.queue.length + place.reserved = _
    omega
  · rw [hclaimed, hunposted, hunclaimed]
    rfl

/-- A thread gets an element: it claims it, or it makes up for one that it has removed. -/
theorem Invariant.waitFull (h : Invariant cfg state)
    (hstep : state.waitFull thread place = some result)
    (hreserved : place.reserved = (state.pc thread).reserved)
    (hclaimed : place.claimed + (state.pc thread).unclaimed =
      (state.pc thread).claimed + place.unclaimed + 1)
    (hunposted : place.unposted = (state.pc thread).unposted)
    (hhand : place.inHand = (state.pc thread).inHand)
    (hinside : place.inside = (state.pc thread).inside) : Invariant cfg result := by
  obtain ⟨count, hcount, rfl⟩ := waitFull_some hstep
  refine h.moved rfl (h.exclusive.move hinside) (by rw [hreserved]; rfl) ?_ h.history
    (h.handed_move hhand)
  change count + place.claimed + place.unposted + state.queue.length + _ =
    state.full + _ + _ + state.queue.length + _
  omega

/-- A thread with a free place in hand can post it. -/
theorem Invariant.empty_lt (h : Invariant cfg state) (thread : Tid)
    (hreserved : (state.pc thread).reserved = 1) :
    state.empty + state.queue.length < cfg.capacity := by
  have hplaces := h.places
  have htotal : (state.pc thread).reserved ≤ total Pc.reserved state.pc := le_total
  omega

/-- A thread gives a free place back. -/
theorem Invariant.postEmpty (h : Invariant cfg state)
    (hreserved : (state.pc thread).reserved = 1) (hnone : place.reserved = 0)
    (hclaimed : place.claimed = (state.pc thread).claimed)
    (hunposted : place.unposted = (state.pc thread).unposted)
    (hunclaimed : place.unclaimed = (state.pc thread).unclaimed)
    (hhand : place.inHand = (state.pc thread).inHand)
    (hinside : place.inside = (state.pc thread).inside) :
    Invariant cfg { state.move thread place with empty := post cfg state.empty } := by
  have hless := h.empty_lt thread hreserved
  rw [post_eq (by omega)]
  refine h.moved rfl (h.exclusive.move hinside) ?_ ?_ h.history (h.handed_move hhand)
  · rw [hreserved, hnone]
    change state.empty + 1 + state.queue.length + 0 = state.empty + state.queue.length + 1
    omega
  · rw [hclaimed, hunposted, hunclaimed]
    rfl

theorem unposted_of_outside {place : Pc α} (hout : place.inside = false) : place.unposted = 0 := by
  cases place <;> first | rfl | cases hout

theorem unclaimed_of_outside {place : Pc α} (hout : place.inside = false) :
    place.unclaimed = 0 := by
  cases place <;> first | rfl | cases hout

/-- What the holder of the lock knows about `m_FullSemaphore`. -/
theorem Invariant.elements_inside (h : Invariant cfg state) (thread : Tid)
    (hinside : (state.pc thread).inside = true) :
    state.full + total Pc.claimed state.pc + (state.pc thread).unposted =
      state.queue.length + (state.pc thread).unclaimed := by
  have helements := h.elements
  rwa [h.exclusive.total_eq Pc.unposted hinside fun _ ↦ unposted_of_outside,
    h.exclusive.total_eq Pc.unclaimed hinside fun _ ↦ unclaimed_of_outside] at helements

/-- A push posts the value that it has stored. -/
theorem Invariant.postFull {returns : Result α} (h : Invariant cfg state)
    (hpc : state.pc thread = .postFull returns) :
    Invariant cfg { state.move thread (.unlock returns) with full := post cfg state.full } := by
  have hless : state.full < cfg.capacity := by
    have helements := h.elements_inside thread (by rw [hpc]; rfl)
    have hplaces := h.places
    rw [hpc] at helements
    simp only [Pc.unposted, Pc.unclaimed] at helements
    omega
  rw [post_eq hless]
  refine h.moved rfl (h.exclusive.move (by rw [hpc]; rfl)) (by rw [hpc]; rfl) ?_ h.history
    (h.handed_move (by rw [hpc]; rfl))
  rw [hpc]
  change state.full + 1 + 0 + 0 + state.queue.length + 0 =
    state.full + 0 + 1 + state.queue.length + 0
  omega

/-- A push stores its value in the place that it has in hand. -/
theorem Invariant.store {value : α} {returns : Result α} (h : Invariant cfg state)
    (hpc : state.pc thread = .store value returns) :
    Invariant cfg { state.move thread (.postFull returns) with
      queue := state.queue ++ [value]
      log := state.log ++ [.put value] } := by
  have hless := h.empty_lt thread (by rw [hpc]; rfl)
  refine h.moved rfl (h.exclusive.move (by rw [hpc]; rfl)) ?_ ?_
    (h.history.tail ⟨by omega, rfl⟩) fun other ↦ ?_
  · rw [hpc, List.length_append]
    change state.empty + (state.queue.length + 1) + 0 = state.empty + state.queue.length + 1
    omega
  · rw [hpc, List.length_append]
    change state.full + 0 + 1 + state.queue.length + 0 =
      state.full + 0 + 0 + (state.queue.length + 1) + 0
    omega
  · rw [Fifo.takenBy_append]
    exact (List.append_nil _).trans (h.handed_move (by rw [hpc]; rfl) other)

/-- A consumer takes the element that it has claimed. -/
theorem Invariant.take {first : α} {rest : List α} (h : Invariant cfg state)
    (hpc : state.pc thread = .popTake) (hqueue : state.queue = first :: rest) :
    Invariant cfg { state.move thread (.postEmpty (.value first)) with
      queue := rest
      log := state.log ++ [.take thread first] } := by
  refine h.moved rfl (h.exclusive.move (by rw [hpc]; rfl)) ?_ ?_ (h.history.tail hqueue)
    fun other ↦ ?_
  · rw [hpc, hqueue]
    change state.empty + rest.length + 1 = state.empty + (rest.length + 1) + 0
    omega
  · rw [hpc, hqueue]
    change state.full + 0 + 0 + (rest.length + 1) + 0 = state.full + 1 + 0 + rest.length + 0
    omega
  · rw [Fifo.takenBy_append, h.handed other]
    change _ = valuesReturned other state.returned ++
      (Function.update state.pc thread (.postEmpty (.value first)) other).inHand
    by_cases hother : other = thread
    · subst hother
      rw [hpc, Function.update_self]
      simp [Fifo.takenBy, Fifo.removals, Fifo.Event.removed?, Pc.inHand, Result.value?]
    · rw [Function.update_of_ne hother]
      simp [Fifo.takenBy, Fifo.removals, Fifo.Event.removed?, Ne.symm hother]

/-- `Clear` removes an element. -/
theorem Invariant.discard {first : α} {rest : List α} (h : Invariant cfg state)
    (hpc : state.pc thread = .clearTest) (hqueue : state.queue = first :: rest) :
    Invariant cfg { state.move thread .clearWait with
      queue := rest
      log := state.log ++ [.discard first] } := by
  refine h.moved rfl (h.exclusive.move (by rw [hpc]; rfl)) ?_ ?_ (h.history.tail hqueue)
    fun other ↦ ?_
  · rw [hpc, hqueue]
    change state.empty + rest.length + 1 = state.empty + (rest.length + 1) + 0
    omega
  · rw [hpc, hqueue]
    change state.full + 0 + 0 + (rest.length + 1) + 0 = state.full + 0 + 0 + rest.length + 1
    omega
  · rw [Fifo.takenBy_append]
    exact (List.append_nil _).trans (h.handed_move (by rw [hpc]; rfl) other)

/-- The ledger of a call that returns what it has in hand. -/
theorem Invariant.handed_ret {returns : Result α} (h : Invariant cfg state)
    (hhand : (state.pc thread).inHand = returns.value?.toList) (other : Tid) :
    Fifo.takenBy other state.log =
      valuesReturned other (state.ret thread returns).returned ++
        ((state.ret thread returns).pc other).inHand := by
  rw [h.handed other]
  simp only [State.ret, State.move, valuesReturned, List.filterMap_append]
  by_cases hother : other = thread
  · subst hother
    rw [Function.update_self, hhand]
    cases returns <;> simp [Result.value?, Pc.inHand]
  · rw [Function.update_of_ne hother]
    simp [Ne.symm hother]

/-- A call releases the lock and returns. -/
theorem Invariant.unlock {returns : Result α} (h : Invariant cfg state)
    (hpc : state.pc thread = .unlock returns) :
    Invariant cfg { state.ret thread returns with lock := none } :=
  h.moved rfl (h.exclusive.release (by rw [hpc]; rfl) rfl) (by rw [hpc]; rfl) (by rw [hpc]; rfl)
    h.history (h.handed_ret (by rw [hpc]; rfl))

/-- A `Pop` gives up. -/
theorem Invariant.timeout {timeout : Option ℤ} (h : Invariant cfg state)
    (hpc : state.pc thread = .popWait timeout) : Invariant cfg (state.ret thread .timedOut) :=
  h.moved rfl (h.exclusive.move (by rw [hpc]; rfl)) (by rw [hpc]; rfl) (by rw [hpc]; rfl) h.history
    (h.handed_ret (by rw [hpc]; rfl))

/-! ### Runs -/

/-- Every step keeps the invariant. -/
theorem step_invariant (h : Invariant cfg state) (hstep : step cfg state thread = some result) :
    Invariant cfg result := by
  cases hpc : state.pc thread with
  | idle =>
    simp only [step, hpc] at hstep
    cases hstep
  | pushLock | blockPushLock | popLock | sizeLock | emptyLock | clearLock =>
    simp only [step, hpc] at hstep
    exact h.acquire hstep (by rw [hpc]; exact ⟨rfl, rfl, rfl, rfl, rfl⟩) rfl
  | pushTest value =>
    simp only [step, hpc] at hstep
    split_ifs at hstep <;> obtain rfl := Option.some.inj hstep
    · exact h.move (by rw [hpc]; exact ⟨rfl, rfl, rfl, rfl, rfl⟩) (by rw [hpc]; rfl)
    · exact h.move (by rw [hpc]; exact ⟨rfl, rfl, rfl, rfl, rfl⟩) (by rw [hpc]; rfl)
  | pushWait | blockPushWait =>
    simp only [step, hpc] at hstep
    apply h.waitEmpty hstep <;> rw [hpc] <;> rfl
  | popWait | clearWait =>
    simp only [step, hpc] at hstep
    apply h.waitFull hstep <;> rw [hpc] <;> rfl
  | store value returns =>
    simp only [step, hpc] at hstep
    obtain rfl := Option.some.inj hstep
    exact h.store hpc
  | postFull returns =>
    simp only [step, hpc] at hstep
    obtain rfl := Option.some.inj hstep
    exact h.postFull hpc
  | popTake =>
    simp only [step, hpc] at hstep
    split at hstep
    · cases hstep
    · obtain rfl := Option.some.inj hstep
      exact h.take hpc ‹_›
  | postEmpty | clearPost =>
    simp only [step, hpc] at hstep
    obtain rfl := Option.some.inj hstep
    apply h.postEmpty <;> first | rfl | rw [hpc]; rfl
  | sizeRead | emptyRead =>
    simp only [step, hpc] at hstep
    obtain rfl := Option.some.inj hstep
    exact h.move (by rw [hpc]; exact ⟨rfl, rfl, rfl, rfl, rfl⟩) (by rw [hpc]; rfl)
  | clearTest =>
    simp only [step, hpc] at hstep
    split at hstep <;> obtain rfl := Option.some.inj hstep
    · exact h.move (by rw [hpc]; exact ⟨rfl, rfl, rfl, rfl, rfl⟩) (by rw [hpc]; rfl)
    · exact h.discard hpc ‹_›
  | unlock returns =>
    simp only [step, hpc] at hstep
    obtain rfl := Option.some.inj hstep
    exact h.unlock hpc

/-- Every action keeps the invariant. -/
theorem next_invariant {action : Action Tid α} (h : Invariant cfg state)
    (hnext : next cfg state action = some result) : Invariant cfg result := by
  cases action with
  | call thread op =>
    obtain ⟨hidle, rfl⟩ := next_call_some hnext
    cases op <;> exact h.move (by rw [hidle]; exact ⟨rfl, rfl, rfl, rfl, rfl⟩) (by rw [hidle]; rfl)
  | step thread => exact step_invariant h hnext
  | timeout thread =>
    obtain ⟨time, hwaits, rfl⟩ := next_timeout_some hnext
    exact h.timeout hwaits

/-- A run of the queue from its construction. -/
abbrev Reaches (cfg : Config) (actions : List (Action Tid α)) (state : State Tid α) : Prop :=
  Run (stepOf (next cfg)) (initial cfg) actions state

theorem Reaches.invariant {actions : List (Action Tid α)} (hrun : Reaches cfg actions state) :
    Invariant cfg state :=
  Run.invariant (Invariant cfg) hrun (initial_invariant cfg)
    fun _ _ _ h hnext ↦ next_invariant h hnext

/-- A consumer that holds the lock finds an element. -/
theorem Invariant.queue_ne_nil (h : Invariant cfg state) (hpc : state.pc thread = .popTake) :
    state.queue ≠ [] := by
  have helements := h.elements_inside thread (by rw [hpc]; rfl)
  have hclaimed : (state.pc thread).claimed ≤ total Pc.claimed state.pc := le_total
  rw [hpc] at helements hclaimed
  simp only [Pc.unposted, Pc.unclaimed, Pc.claimed] at helements hclaimed
  intro hnil
  rw [hnil, List.length_nil] at helements
  omega

/-- The queue is a bounded queue. In every state of every run, for any number of threads: no thread
is about to call `front` on an empty queue, the capacity is kept, and what happened to the queue, in
the order of the lock, is a history of a first-in first-out queue; so the values pushed are the
values removed, by consumers or by `Clear`, followed by those in the queue. Each thread is given, in
order, the values that it took. -/
theorem bounded_fifo {actions : List (Action Tid α)} (hrun : Reaches cfg actions state) :
    (∀ thread, state.pc thread = .popTake → state.queue ≠ []) ∧
    state.queue.length ≤ cfg.capacity ∧
    Run (Fifo.Step cfg.capacity) [] state.log state.queue ∧
    Fifo.puts state.log = (Fifo.removals state.log).map Prod.fst ++ state.queue ∧
    ∀ thread, Fifo.takenBy thread state.log =
      valuesReturned thread state.returned ++ (state.pc thread).inHand := by
  have h := hrun.invariant
  exact ⟨fun thread hpc ↦ h.queue_ne_nil hpc, Fifo.length_le h.history, h.history,
    Fifo.puts_eq h.history, h.handed⟩

/-- A queue for one element. -/
def smallQueue : Config := ⟨1, 4096000, true, by decide, by decide⟩

/-- A value is handed over while the consumer is already waiting for the lock, and another one is
cleared. -/
theorem bounded_fifo_handed_over :
    ∃ state : State (Fin 2) ℕ,
      Reaches smallQueue
        [.call 0 (.push 7), .step 0, .step 0, .step 0, .step 0, .call 1 .blockPop, .step 0, .step 1,
          .step 0, .step 1, .step 1, .step 1, .step 1, .call 0 (.blockPush 8), .step 0, .step 0,
          .step 0, .step 0, .step 0, .call 1 .clear, .step 1, .step 1] state ∧
      state.returned = [(0, .accepted true), (1, .value 7), (0, .stored)] ∧
      Fifo.puts state.log = (Fifo.removals state.log).map Prod.fst ++ state.queue :=
  ⟨_, Run.of_eval (by decide +kernel), by decide +kernel,
    (bounded_fifo (Run.of_eval (by decide +kernel))).2.2.2.1⟩

end Exc.SafeQueue
