import Exc.Timer.WheelInvariant

/-!
# The invariant along every run of the timer queue

One lemma for each function of the queue says everything it can do to the pending nodes
(`cancelNode_cases`, `schedule_cases`, `dispatchBegin_cases`, `dispatchEnd_cases`), and one lemma
for `step` collects them (`step_cases`). The proofs about runs use these and never unfold the
functions.

`reachable_invariant` is the representation invariant of the wheel over every run of clients and
callbacks in which every absolute expiry time is positive, together with the fact that
`remove_first_expired` never reads through a null first node. The clock is free: nothing here needs
it to be monotone.
-/

set_option autoImplicit false
set_option relaxedAutoImplicit false

namespace Exc.Timer

open Lib

variable {cfg : WheelConfig}

namespace TimerWheel

/-! ### Finding and cancelling -/

theorem findSpokeNode_some {wheel : TimerWheel cfg} {spoke : Fin cfg.spokeCount} {timerId : ℤ}
    {n : Node} (hfind : wheel.findSpokeNode spoke timerId = some n) :
    n ∈ (wheel.spokes spoke).nodes ∧ n.timerId = timerId :=
  ⟨List.mem_of_find?_eq_some hfind, by simpa using List.find?_some hfind⟩

theorem findSpokeNode_none {wheel : TimerWheel cfg} {spoke : Fin cfg.spokeCount} {timerId : ℤ}
    (hfind : wheel.findSpokeNode spoke timerId = none) :
    ∀ n ∈ (wheel.spokes spoke).nodes, n.timerId ≠ timerId := by
  intro n hn
  simpa using List.find?_eq_none.mp hfind n hn

/-- A node that `find_node` returns is linked on the spoke it was found on and carries the id. -/
theorem findNode_some {wheel : TimerWheel cfg} {timerId : ℤ} {spoke : Fin cfg.spokeCount}
    {n : Node} (hfind : wheel.findNode timerId = some (spoke, n)) :
    n ∈ (wheel.spokes spoke).nodes ∧ n.timerId = timerId ∧ timerId ≠ -1 := by
  unfold findNode at hfind
  split_ifs at hfind with hid
  split at hfind
  · rename_i m hstart
    obtain ⟨rfl, rfl⟩ : startSpoke cfg timerId = spoke ∧ m = n := by simpa using hfind
    obtain ⟨hmem, heq⟩ := findSpokeNode_some hstart
    exact ⟨hmem, heq, hid⟩
  · obtain ⟨i, -, hi⟩ := List.exists_of_findSome?_eq_some hfind
    split_ifs at hi with hne
    obtain ⟨m, hm, hpair⟩ := Option.map_eq_some_iff.mp hi
    obtain ⟨rfl, rfl⟩ : i = spoke ∧ m = n := by simpa using hpair
    obtain ⟨hmem, heq⟩ := findSpokeNode_some hm
    exact ⟨hmem, heq, hid⟩

/-- When `find_node` finds nothing no linked node carries the id. -/
theorem findNode_none {wheel : TimerWheel cfg} {timerId : ℤ}
    (hfind : wheel.findNode timerId = none) (hid : timerId ≠ -1) :
    ∀ n ∈ wheel.pending, n.timerId ≠ timerId := by
  intro n hn
  obtain ⟨spoke, hspoke⟩ := mem_pending.mp hn
  rw [findNode, if_neg hid] at hfind
  split at hfind
  · cases hfind
  · rename_i hstart
    by_cases heq : spoke = startSpoke cfg timerId
    · subst heq
      exact findSpokeNode_none hstart n hspoke
    · have hnone := List.findSome?_eq_none_iff.mp hfind spoke (List.mem_finRange spoke)
      rw [if_pos heq, Option.map_eq_none_iff] at hnone
      exact findSpokeNode_none hnone n hspoke

/-- Two wheels with the same roots, and the same counters in them. -/
def SameRoots (wheel wheel' : TimerWheel cfg) : Prop :=
  ∀ spoke, (wheel'.spokes spoke).timerId = (wheel.spokes spoke).timerId ∧
    (wheel'.spokes spoke).act1 = (wheel.spokes spoke).act1 ∧
    (wheel'.spokes spoke).root = (wheel.spokes spoke).root

/-- Writing the nodes of a spoke leaves the roots alone. -/
theorem setNodes_sameRoots (wheel : TimerWheel cfg) (spoke : Fin cfg.spokeCount)
    (nodes : List Node) : SameRoots wheel (wheel.setNodes spoke nodes) := by
  intro other
  by_cases hother : other = spoke
  · subst hother
    simp [setNodes]
  · simp [setNodes, Function.update_of_ne hother]

/-- What `cancel_timer` does to the wheel: nothing when no linked node carries the id, and else it
takes one node with the id away and leaves everything else linked. -/
theorem cancelNode_cases (wheel : TimerWheel cfg) (timerId : ℤ) :
    (wheel.cancelNode timerId = (none, wheel) ∧
        (timerId = -1 ∨ ∀ n ∈ wheel.pending, n.timerId ≠ timerId)) ∨
      ∃ n wheel', wheel.cancelNode timerId = (some n, wheel') ∧ n.timerId = timerId ∧
        timerId ≠ -1 ∧ (WellFormed wheel → WellFormed wheel') ∧
        wheel.pending = n ::ₘ wheel'.pending ∧ SameRoots wheel wheel' := by
  unfold cancelNode
  cases hfind : wheel.findNode timerId with
  | none =>
    refine Or.inl ⟨rfl, ?_⟩
    by_cases hid : timerId = -1
    · exact Or.inl hid
    · exact Or.inr (findNode_none hfind hid)
  | some found =>
    obtain ⟨spoke, n⟩ := found
    obtain ⟨hmem, heq, hid⟩ := findNode_some hfind
    have hroots : SameRoots wheel (wheel.unlink spoke n) := setNodes_sameRoots wheel spoke _
    refine Or.inr ⟨n, _, rfl, heq, hid, fun h ↦ ?_, ?_, ?_⟩
    · split_ifs with hfirst
      · have hspoke : spoke = wheel.earliestSpoke :=
          (h.placed spoke n hmem).symm.trans (h.placed _ n (getFirstI_mem hfirst))
        rw [hspoke]
        exact h.unlinkFirst hfirst
      · exact h.unlinkOther hmem hfirst
    · split_ifs with hfirst
      · rw [recalcEarliest_pending]
        exact pending_unlink hmem
      · exact pending_unlink hmem
    · split_ifs with hfirst
      · intro other
        rw [recalcEarliest_spokes]
        exact hroots other
      · exact hroots

/-! ### Generating an id -/

@[simp] theorem setRoot_nodes (wheel : TimerWheel cfg) (spoke other : Fin cfg.spokeCount)
    (timerId act1 : ℕ) :
    ((wheel.setRoot spoke timerId act1).spokes other).nodes = (wheel.spokes other).nodes := by
  by_cases hother : other = spoke
  · subst hother
    simp [setRoot]
  · simp [setRoot, Function.update_of_ne hother]

@[simp] theorem setRoot_timerCount (wheel : TimerWheel cfg) (spoke : Fin cfg.spokeCount)
    (timerId act1 : ℕ) : (wheel.setRoot spoke timerId act1).timerCount = wheel.timerCount := rfl

@[simp] theorem setRoot_inserted (wheel : TimerWheel cfg) (spoke : Fin cfg.spokeCount)
    (timerId act1 : ℕ) : (wheel.setRoot spoke timerId act1).inserted = wheel.inserted := rfl

@[simp] theorem setRoot_earliestSpoke (wheel : TimerWheel cfg) (spoke : Fin cfg.spokeCount)
    (timerId act1 : ℕ) :
    (wheel.setRoot spoke timerId act1).earliestSpoke = wheel.earliestSpoke := rfl

@[simp] theorem setRoot_pending (wheel : TimerWheel cfg) (spoke : Fin cfg.spokeCount)
    (timerId act1 : ℕ) : (wheel.setRoot spoke timerId act1).pending = wheel.pending := by
  simp [pending]

/-- The counters in the roots are no part of the invariant. -/
theorem WellFormed.setRoot {wheel : TimerWheel cfg} (h : WellFormed wheel)
    (spoke : Fin cfg.spokeCount) (timerId act1 : ℕ) :
    WellFormed (wheel.setRoot spoke timerId act1) := by
  refine ⟨⟨?_, ?_, ?_, ?_, ?_, ?_⟩, ?_⟩
  · simpa using h.placed
  · simpa using h.counted
  · simpa using h.ordered
  · simpa using h.stamped
  · simpa using h.positive
  · simpa using h.normalised
  · simpa [EarliestFirst, getFirstI] using h.earliest

theorem searchCnt_cases (wheel : TimerWheel cfg) (spoke : Fin cfg.spokeCount) :
    ∀ rounds cnt : ℕ, wheel.searchCnt spoke rounds cnt = .ok (-1) ∨
      wheel.searchCnt spoke rounds cnt = .error .nullNode
  | 0, _ => Or.inl rfl
  | rounds + 1, cnt => by
    rw [searchCnt]
    split
    · exact Or.inr rfl
    · exact searchCnt_cases wheel spoke rounds (cnt + 1)

/-- `generate_timer_id` writes the root of its spoke and nothing else, or follows the null node of
its search loop. -/
theorem generateTimerId_cases (wheel : TimerWheel cfg) (spoke : Fin cfg.spokeCount) :
    (∃ id timerId act1,
        wheel.generateTimerId spoke = .ok (id, wheel.setRoot spoke timerId act1)) ∨
      wheel.generateTimerId spoke = .error .nullNode := by
  unfold generateTimerId
  dsimp only
  generalize (if (wheel.spokes spoke).nodes = [] then 0 else (wheel.spokes spoke).act1) = nextCnt
  split_ifs
  · exact Or.inl ⟨_, _, _, rfl⟩
  · rcases searchCnt_cases wheel spoke (maxCnt cfg spoke - 1) 0 with hfull | hnull
    · rw [hfull]
      exact Or.inl ⟨_, _, _, rfl⟩
    · rw [hnull]
      exact Or.inr rfl
  · exact Or.inl ⟨_, _, _, rfl⟩
  · rcases searchCnt_cases wheel spoke (maxCnt cfg spoke - 1 - (wheel.spokes spoke).timerId)
      (wheel.spokes spoke).timerId with hfull | hnull
    · rw [hfull]
      exact Or.inl ⟨_, _, _, rfl⟩
    · rw [hnull]
      exact Or.inr rfl

/-- The first node of the earliest spoke is due before every other node. -/
theorem dueBefore_of_mem_unlink {wheel : TimerWheel cfg} (h : WellFormed wheel) {first n : Node}
    (hfirst : wheel.getFirstI = some first)
    (hn : n ∈ (wheel.unlink wheel.earliestSpoke first).pending) : DueBefore first n := by
  have hmem := getFirstI_mem hfirst
  have hlinked : n ∈ wheel.pending := pending_unlink hmem ▸ Multiset.mem_cons_of_mem hn
  have hcount : 0 < wheel.timerCount := by
    rw [h.counted]
    exact Multiset.card_pos_iff_exists_mem.mpr ⟨n, hlinked⟩
  obtain ⟨least, hleast, hle⟩ := h.earliest hcount
  obtain rfl : first = least := Option.some.inj (hfirst.symm.trans hleast)
  rcases (hle n hlinked).lt_or_eq with hlt | heq
  · exact Or.inl hlt
  · -- A node with the same expiry is on the same spoke, behind the first one.
    obtain ⟨spoke, hspoke⟩ := mem_pending.mp hn
    have hplaced : calculateSpoke cfg n.timerValue = spoke :=
      (h.toArranged.unlink hmem).placed spoke n hspoke
    obtain rfl : wheel.earliestSpoke = spoke := by
      rw [← hplaced, ← heq, h.placed _ first hmem]
    obtain ⟨rest, hnodes⟩ := List.head?_eq_some_iff.mp hfirst
    have hordered := h.ordered wheel.earliestSpoke
    change n ∈ ((wheel.setNodes wheel.earliestSpoke _).spokes wheel.earliestSpoke).nodes at hspoke
    rw [setNodes_nodes_self, hnodes, List.erase_cons_head] at hspoke
    rw [hnodes] at hordered
    exact List.rel_of_pairwise_cons hordered hspoke

/-- What `remove_first` does: it takes the first node of the earliest spoke away and leaves
everything else linked, or there is none and it reads through a null pointer. On a well formed wheel
that is not empty the node is there and it is due before all others. -/
theorem removeFirst_cases (wheel : TimerWheel cfg) :
    (wheel.removeFirst = .error .nullFirst ∧ (WellFormed wheel → wheel.timerCount = 0)) ∨
      ∃ n wheel', wheel.earliestTime = n.timerValue ∧ wheel.removeFirst = .ok (some n, wheel') ∧
        wheel.pending = n ::ₘ wheel'.pending ∧ SameRoots wheel wheel' ∧
        (WellFormed wheel → WellFormed wheel' ∧ ∀ m ∈ wheel'.pending, DueBefore n m) := by
  unfold removeFirst removeFirstExpired
  cases hfirst : wheel.getFirstI with
  | none =>
    refine Or.inl ⟨rfl, fun h ↦ ?_⟩
    by_contra hcount
    obtain ⟨first, hsome, -⟩ := h.earliest (Nat.pos_of_ne_zero hcount)
    rw [hfirst] at hsome
    cases hsome
  | some first =>
    have hmem := getFirstI_mem hfirst
    have hpending := pending_unlink hmem
    refine Or.inr ⟨first, _, by rw [earliestTime, hfirst], if_pos (by simp), ?_, ?_, fun h ↦
      ⟨h.unlinkFirst hfirst, ?_⟩⟩
    · rw [recalcEarliest_pending]
      exact hpending
    · intro spoke
      rw [recalcEarliest_spokes]
      exact setNodes_sameRoots wheel _ _ spoke
    · intro m hm
      rw [recalcEarliest_pending] at hm
      exact dueBefore_of_mem_unlink h hfirst hm

/-- A wheel with no nodes on any spoke is well formed. -/
theorem openI_wellFormed (cfg : WheelConfig) (prealloc : ℕ) :
    WellFormed (openI cfg prealloc).1 := by
  have hpending : (openI cfg prealloc).1.pending = 0 := by simp [openI, pending]
  refine ⟨⟨?_, ?_, ?_, ?_, ?_, ?_⟩, ?_⟩
  · intro spoke n hn
    simp [openI] at hn
  · rw [hpending]
    rfl
  · intro spoke
    simp [openI]
  · simp [hpending]
  · simp [hpending]
  · simp [hpending]
  · intro hcount
    exact absurd hcount (lt_irrefl 0)

end TimerWheel

/-- The free list never runs out: an empty one is filled first. -/
theorem FreeList.exists_remove (list : FreeList) :
    ∃ addr rest, list.remove = (some addr, rest) := by
  have halloc : ∀ (n : ℕ) (start : FreeList), start.nodes ≠ [] → (alloc n start).nodes ≠ [] := by
    intro n
    induction n with
    | zero => exact fun _ hne ↦ hne
    | succ n ih => exact fun _ _ ↦ ih _ (List.cons_ne_nil _ _)
  have hfilled : (if list.size ≤ defaultFreeListLwm then alloc defaultFreeListInc list
      else list).nodes ≠ [] := by
    split_ifs with hlow
    · exact halloc 99 _ (List.cons_ne_nil _ _)
    · intro hnil
      rw [list.size_eq, hnil] at hlow
      exact hlow (Nat.zero_le _)
  unfold remove
  dsimp only
  split
  · rename_i hnil
    exact absurd hnil hfilled
  · exact ⟨_, _, rfl⟩

namespace TimerQueue

/-! ### What each function of the queue does -/

/-- `schedule` takes a node, generates an id on the spoke of the absolute expiry and, unless the id
is `-1`, links the node with it. It fails only in the search loop of `generate_timer_id`. -/
theorem schedule_cases (queue : TimerQueue cfg) (type : Option Task) (act1 act2 : ℕ)
    (future interval : TimeValue) :
    (queue.wheel.generateTimerId
          (TimerWheel.calculateSpoke cfg (queue.env.clock + future)) = .error .nullNode ∧
        queue.schedule type act1 act2 future interval = .error .nullNode) ∨
      ∃ addr freeList id timerId nextCnt wheel,
        queue.freeList.remove = (some addr, freeList) ∧
          queue.wheel.generateTimerId
            (TimerWheel.calculateSpoke cfg (queue.env.clock + future)) = .ok (id, wheel) ∧
          wheel = queue.wheel.setRoot (TimerWheel.calculateSpoke cfg (queue.env.clock + future))
            timerId nextCnt ∧
          queue.schedule type act1 act2 future interval = .ok (id,
            ⟨if id = -1 then wheel
              else wheel.reschedule ⟨addr, type, act1, act2, queue.env.clock + future, interval, id,
                queue.scheduled, 0⟩,
              freeList, queue.env, queue.scheduled + 1⟩) := by
  obtain ⟨addr, rest, hremove⟩ := queue.freeList.exists_remove
  rcases TimerWheel.generateTimerId_cases queue.wheel
    (TimerWheel.calculateSpoke cfg (queue.env.clock + future)) with
    ⟨id, timerId, nextCnt, hgenerate⟩ | hnull
  · refine Or.inr ⟨addr, rest, id, timerId, nextCnt, _, hremove, hgenerate, rfl, ?_⟩
    simp only [schedule, hremove, hgenerate, TimerWheel.reschedule]
    rfl
  · refine Or.inl ⟨hnull, ?_⟩
    simp only [schedule, hremove, hnull]
    rfl

/-- `dispatch_info_i` returns without a call, reads through a null first node, or takes a node that
is due away from the wheel. On a well formed wheel nothing is due in the first case, the second does
not happen, and in the third the node is due before all others. -/
theorem dispatchBegin_cases (queue : TimerQueue cfg) (cur : TimeValue) :
    (queue.dispatchBegin cur = .ok (none, queue) ∧
        (queue.wheel.WellFormed → ∀ n ∈ queue.wheel.pending, cur < n.timerValue)) ∨
      (queue.dispatchBegin cur = .error .nullFirst ∧ ¬ queue.wheel.WellFormed) ∨
      ∃ n wheel, queue.dispatchBegin cur = .ok (n.type.map (·, n), { queue with wheel := wheel }) ∧
        n.timerValue ≤ cur ∧ queue.wheel.pending = n ::ₘ wheel.pending ∧
        TimerWheel.SameRoots queue.wheel wheel ∧
        (queue.wheel.WellFormed →
          wheel.WellFormed ∧ ∀ m ∈ wheel.pending, TimerWheel.DueBefore n m) := by
  unfold dispatchBegin
  by_cases hempty : queue.wheel.isEmpty = true
  · refine Or.inl ⟨if_pos hempty, fun h n hn ↦ ?_⟩
    have hzero : queue.wheel.timerCount = 0 := by simpa [TimerWheel.isEmpty] using hempty
    rw [h.counted, Multiset.card_eq_zero] at hzero
    rw [hzero] at hn
    exact absurd hn (Multiset.notMem_zero n)
  rw [if_neg hempty]
  have hcount : queue.wheel.timerCount ≠ 0 := by simpa [TimerWheel.isEmpty] using hempty
  rcases TimerWheel.removeFirst_cases queue.wheel with
    ⟨hremove, hnone⟩ | ⟨n, wheel, hearliest, hremove, hpending, hroots, hwell⟩
  · have hill : ¬ queue.wheel.WellFormed := fun h ↦ hcount (hnone h)
    rw [hremove]
    split_ifs
    · exact Or.inr (Or.inl ⟨rfl, hill⟩)
    · exact Or.inl ⟨rfl, fun h ↦ absurd h hill⟩
  · rw [hearliest]
    split_ifs with hle
    · refine Or.inr (Or.inr ⟨n, wheel, ?_, hle, hpending, hroots, hwell⟩)
      rw [hremove]
      cases htype : n.type with
      | none => simp [htype, bind, Except.bind, pure, Except.pure]
      | some ev => simp [htype, bind, Except.bind, pure, Except.pure]
    · refine Or.inl ⟨rfl, fun h m hm ↦ ?_⟩
      rw [hpending] at hm
      rcases Multiset.mem_cons.mp hm with rfl | hrest
      · exact not_le.mp hle
      · exact lt_of_lt_of_le (not_le.mp hle) ((hwell h).2 m hrest).le

/-- The catch-up loop leaves the first of the times `value + k * interval`, `k ≥ 1`, that is past
the current time. -/
theorem catchUp_some {interval cur : TimeValue} : ∀ {rounds : ℕ} {value later : TimeValue},
    catchUp interval cur rounds value = some later →
      ∃ k, IsLeast {k | 1 ≤ k ∧ cur < (· + interval)^[k] value} k ∧
        later = (· + interval)^[k] value
  | 0, _, _, hcatch => by simp [catchUp] at hcatch
  | rounds + 1, value, later, hcatch => by
    rw [catchUp] at hcatch
    split_ifs at hcatch with hle
    · obtain ⟨k, ⟨⟨hk, hlater⟩, hleast⟩, heq⟩ := catchUp_some hcatch
      refine ⟨k + 1, ⟨⟨by omega, hlater⟩, ?_⟩, heq⟩
      rintro j ⟨hj, hpast⟩
      obtain ⟨i, rfl⟩ : ∃ i, j = i + 1 := ⟨j - 1, by omega⟩
      rcases Nat.eq_zero_or_pos i with rfl | hi
      · exact absurd hle (not_le.mpr hpast)
      · exact Nat.succ_le_succ (hleast ⟨hi, hpast⟩)
    · obtain rfl : value + interval = later := by simpa using hcatch
      exact ⟨1, ⟨⟨le_rfl, not_le.mp hle⟩, fun j hj ↦ hj.1⟩, rfl⟩

theorem catchUp_normalised {interval cur value later : TimeValue} {rounds : ℕ}
    (hcatch : catchUp interval cur rounds value = some later) : later.Normalised := by
  obtain ⟨k, ⟨⟨hk, -⟩, -⟩, rfl⟩ := catchUp_some hcatch
  obtain ⟨j, rfl⟩ : ∃ j, k = j + 1 := ⟨k - 1, by omega⟩
  rw [Function.iterate_succ_apply']
  exact TimeValue.add_normalised _ _

/-- After `handle_timeout` a one-shot timer is freed; a periodic one is freed when its task is
stopped and linked again at its next expiry otherwise. The catch-up loop may not end. -/
theorem dispatchEnd_cases (queue : TimerQueue cfg) (cur : TimeValue) (ev : Task) (expired : Node) :
    queue.dispatchEnd cur ev expired = .error .diverges ∨
      (¬ TimeValue.zero < expired.interval ∧
        queue.dispatchEnd cur ev expired =
          .ok (.oneShot, { queue with freeList := queue.freeList.add expired.addr })) ∨
      (TimeValue.zero < expired.interval ∧ queue.env.stopRepeated ev = true ∧
        queue.dispatchEnd cur ev expired =
          .ok (.stopped, { queue with freeList := queue.freeList.add expired.addr })) ∨
      (TimeValue.zero < expired.interval ∧ queue.env.stopRepeated ev = false ∧ ∃ later,
        catchUp expired.interval cur (catchUpRounds cur expired.timerValue) expired.timerValue =
          some later ∧
        queue.dispatchEnd cur ev expired = .ok (.rescheduled, { queue with
          wheel := queue.wheel.reschedule { expired with timerValue := later } })) := by
  unfold dispatchEnd
  by_cases hperiodic : TimeValue.zero < expired.interval
  · rw [if_pos hperiodic]
    cases hcatch : catchUp expired.interval cur (catchUpRounds cur expired.timerValue)
      expired.timerValue with
    | none => exact Or.inl rfl
    | some later =>
      cases hstop : queue.env.stopRepeated ev with
      | true => exact Or.inr (Or.inr (Or.inl ⟨hperiodic, rfl, rfl⟩))
      | false => exact Or.inr (Or.inr (Or.inr ⟨hperiodic, rfl, later, rfl, rfl⟩))
  · rw [if_neg hperiodic]
    exact Or.inr (Or.inl ⟨hperiodic, rfl⟩)

end TimerQueue

/-! ### Runs -/

namespace State

/-- A wheel of eight spokes of two milliseconds. -/
def smallWheel : WheelConfig := ⟨⟨64, Or.inr rfl⟩, 3, 1, by decide, by decide⟩

/-- Every absolute expiry time that an action computes is positive: that of a new timer, and the
next one of a periodic timer. -/
def ExpiryPositive (state : State cfg) : Action → Prop
  | .schedule _ _ _ future _ => TimeValue.zero < state.queue.env.clock + future
  | .returnCallback =>
    match state.phase with
    | .handling cur _ expired _ =>
      ∀ later, TimerQueue.catchUp expired.interval cur
        (TimerQueue.catchUpRounds cur expired.timerValue) expired.timerValue = some later →
          TimeValue.zero < later
    | _ => True
  | _ => True

instance (state : State cfg) (action : Action) : Decidable (state.ExpiryPositive action) :=
  match action with
  | .schedule _ _ _ _ _ => inferInstanceAs (Decidable (_ < _))
  | .cancelTimer _ => .isTrue trivial
  | .env _ => .isTrue trivial
  | .expire _ => .isTrue trivial
  | .returnCallback =>
    match hphase : state.phase with
    | .idle => .isTrue (by simp [ExpiryPositive, hphase])
    | .stopping _ _ => .isTrue (by simp [ExpiryPositive, hphase])
    | .handling cur _ expired _ =>
      decidable_of_iff ((TimerQueue.catchUp expired.interval cur
          (TimerQueue.catchUpRounds cur expired.timerValue) expired.timerValue).all
            (TimeValue.zero < ·) = true) (by simp [ExpiryPositive, hphase, Option.all_eq_true])

/-- One round of the loop of `expire`, by what it does to the pending nodes: it returns, it drops a
node without a task and returns, or it enters `handle_timeout`. -/
inductive Round (queue : TimerQueue cfg) (cur : TimeValue) (count : ℕ) (log : List Event) :
    State cfg → Prop
  | returned : Round queue cur count log ⟨queue, .idle, log ++ [.expireReturned count]⟩
  | dropped (n : Node) (wheel : TimerWheel cfg)
      (hwell : queue.wheel.WellFormed → wheel.WellFormed)
      (hpending : queue.wheel.pending = n ::ₘ wheel.pending)
      (hroots : TimerWheel.SameRoots queue.wheel wheel) (htype : n.type = none) :
      Round queue cur count log
        ⟨{ queue with wheel := wheel }, .idle, log ++ [.expireReturned count]⟩
  | entered (n : Node) (wheel : TimerWheel cfg) (ev : Task)
      (hwell : queue.wheel.WellFormed → wheel.WellFormed)
      (hpending : queue.wheel.pending = n ::ₘ wheel.pending)
      (hroots : TimerWheel.SameRoots queue.wheel wheel) (htype : n.type = some ev) :
      Round queue cur count log ⟨{ queue with wheel := wheel }, .handling cur ev n count,
        log ++ [.handleTimeout ev n.serial (toInt n.timerId) queue.env.clock n.act1 n.act2]⟩

/-- An action of a client or a callback, by what it does to the pending nodes. -/
inductive Effect (state : State cfg) : Action → State cfg → Prop
  | scheduled {type : Option Task} {act1 act2 : ℕ} {future interval : TimeValue} (addr : Addr)
      (freeList : FreeList) (id : ℤ) (timerId nextCnt : ℕ) (wheel : TimerWheel cfg)
      (hgenerate : state.queue.wheel.generateTimerId
        (TimerWheel.calculateSpoke cfg (state.queue.env.clock + future)) = .ok (id, wheel))
      (hwheel : wheel = state.queue.wheel.setRoot
        (TimerWheel.calculateSpoke cfg (state.queue.env.clock + future)) timerId nextCnt)
      (hremove : state.queue.freeList.remove = (some addr, freeList)) :
      Effect state (.schedule type act1 act2 future interval)
        ⟨⟨if id = -1 then wheel
            else wheel.reschedule ⟨addr, type, act1, act2, state.queue.env.clock + future, interval,
              id, state.queue.scheduled, 0⟩,
          freeList, state.queue.env, state.queue.scheduled + 1⟩, state.phase,
          state.log ++ [.scheduleReturned state.queue.scheduled id]⟩
  | missed {timerId : ℤ}
      (hnone : timerId = -1 ∨ ∀ n ∈ state.queue.wheel.pending, n.timerId ≠ timerId)
      (hcancel : state.queue.wheel.cancelNode timerId = (none, state.queue.wheel)) :
      Effect state (.cancelTimer timerId)
        { state with log := state.log ++ [.cancelReturned timerId 0] }
  | cancelled {timerId : ℤ} (n : Node) (wheel : TimerWheel cfg)
      (hid : n.timerId = timerId) (hwell : state.queue.wheel.WellFormed → wheel.WellFormed)
      (hpending : state.queue.wheel.pending = n ::ₘ wheel.pending)
      (hroots : TimerWheel.SameRoots state.queue.wheel wheel)
      (hcancel : state.queue.wheel.cancelNode timerId = (some n, wheel)) :
      Effect state (.cancelTimer timerId)
        ⟨{ state.queue with wheel := wheel, freeList := state.queue.freeList.add n.addr },
          state.phase, state.log ++ [.cancelReturned timerId 1]⟩
  | env (op : EnvOp) :
      Effect state (.env op)
        { state with queue := { state.queue with env := state.queue.env.apply op } }
  | expireEmpty {cur : TimeValue} (hphase : state.phase = .idle) :
      Effect state (.expire cur) { state with log := state.log ++ [.expireReturned 0] }
  | expire {cur : TimeValue} {state' : State cfg}
      (hphase : state.phase = .idle) (hround : Round state.queue cur 0 state.log state') :
      Effect state (.expire cur) state'
  | oneShot {cur : TimeValue} {ev : Task} {expired : Node} {count : ℕ} {state' : State cfg}
      (hphase : state.phase = .handling cur ev expired count)
      (honce : ¬ TimeValue.zero < expired.interval)
      (hround : Round { state.queue with freeList := state.queue.freeList.add expired.addr } cur
        (count + 1) (state.log ++ outcomeEvents ev .oneShot) state') :
      Effect state .returnCallback state'
  | stopped {cur : TimeValue} {ev : Task} {expired : Node} {count : ℕ}
      (hphase : state.phase = .handling cur ev expired count)
      (hperiodic : TimeValue.zero < expired.interval)
      (hrepeated : state.queue.env.stopRepeated ev = true) :
      Effect state .returnCallback
        ⟨{ state.queue with freeList := state.queue.freeList.add expired.addr },
          .stopping cur count,
          state.log ++ outcomeEvents ev .stopped⟩
  | rescheduled {cur : TimeValue} {ev : Task} {expired : Node} {count : ℕ} {state' : State cfg}
      (later : TimeValue) (hphase : state.phase = .handling cur ev expired count)
      (hperiodic : TimeValue.zero < expired.interval)
      (hrepeated : state.queue.env.stopRepeated ev = false)
      (hcatch : TimerQueue.catchUp expired.interval cur
        (TimerQueue.catchUpRounds cur expired.timerValue) expired.timerValue = some later)
      (hround : Round
        { state.queue with
          wheel := state.queue.wheel.reschedule { expired with timerValue := later } }
        cur (count + 1) (state.log ++ outcomeEvents ev .rescheduled) state') :
      Effect state .returnCallback state'
  | resumed {cur : TimeValue} {count : ℕ} {state' : State cfg}
      (hphase : state.phase = .stopping cur count)
      (hround : Round state.queue cur (count + 1) state.log state') :
      Effect state .returnCallback state'

/-- A round of `expire` has no fault on a well formed wheel. -/
theorem expireRound_cases (queue : TimerQueue cfg) (cur : TimeValue) (count : ℕ)
    (log : List Event) :
    (expireRound queue cur count log = .error .nullFirst ∧ ¬ queue.wheel.WellFormed) ∨
      ∃ state', expireRound queue cur count log = .ok state' ∧
        Round queue cur count log state' := by
  unfold expireRound
  rcases TimerQueue.dispatchBegin_cases queue cur with
    ⟨hbegin, -⟩ | ⟨hbegin, hill⟩ | ⟨n, wheel, hbegin, -, hpending, hroots, hwell⟩
  · rw [hbegin]
    exact Or.inr ⟨_, rfl, .returned⟩
  · rw [hbegin]
    exact Or.inl ⟨rfl, hill⟩
  · rw [hbegin]
    have hwell' := fun h ↦ (hwell h).1
    cases htype : n.type with
    | none => exact Or.inr ⟨_, rfl, .dropped n wheel hwell' hpending hroots htype⟩
    | some ev => exact Or.inr ⟨_, rfl, .entered n wheel ev hwell' hpending hroots htype⟩

/-- The next expiry of a timer that is linked again is positive and normalised. -/
theorem reschedule_wellFormed {state : State cfg} {cur later : TimeValue} {ev : Task}
    {expired : Node} {count : ℕ} (h : state.queue.wheel.WellFormed)
    (hpositive : state.ExpiryPositive .returnCallback)
    (hphase : state.phase = .handling cur ev expired count)
    (hcatch : TimerQueue.catchUp expired.interval cur
      (TimerQueue.catchUpRounds cur expired.timerValue) expired.timerValue = some later) :
    (state.queue.wheel.reschedule { expired with timerValue := later }).WellFormed := by
  have hlater : TimeValue.zero < later := by
    simp only [ExpiryPositive, hphase] at hpositive
    exact hpositive later hcatch
  exact h.scheduleNode hlater (TimerQueue.catchUp_normalised hcatch)

/-- What a possible action does. It can follow a null node in the search for an id and it can fail
to return from a catch-up loop; on a well formed wheel, and with positive expiry times, it never
reads a null first node. -/
theorem step_cases {state : State cfg} {action : Action} {result : Except Fault (State cfg)}
    (hstep : state.step action = some result) :
    result = .error .nullNode ∨ result = .error .diverges ∨
      (result = .error .nullFirst ∧
        ¬ (state.queue.wheel.WellFormed ∧ state.ExpiryPositive action)) ∨
      ∃ state', result = .ok state' ∧ Effect state action state' := by
  cases action with
  | schedule type act1 act2 future interval =>
    simp only [step, Option.some.injEq] at hstep
    rcases TimerQueue.schedule_cases state.queue type act1 act2 future interval with
      ⟨-, herror⟩ | ⟨addr, freeList, id, timerId, nextCnt, wheel, hremove, hgenerate, hwheel, hok⟩
    · rw [herror] at hstep
      exact Or.inl hstep.symm
    · rw [hok] at hstep
      exact Or.inr (Or.inr (Or.inr ⟨_, hstep.symm, .scheduled addr freeList id timerId nextCnt wheel
        hgenerate hwheel hremove⟩))
  | cancelTimer timerId =>
    refine Or.inr (Or.inr (Or.inr ?_))
    simp only [step, TimerQueue.cancelTimer] at hstep
    rcases TimerWheel.cancelNode_cases state.queue.wheel timerId with
      ⟨hcancel, hnone⟩ | ⟨n, wheel, hcancel, hid, -, hwell, hpending, hroots⟩
    · rw [hcancel] at hstep
      exact ⟨_, (Option.some.inj hstep).symm, .missed hnone hcancel⟩
    · rw [hcancel] at hstep
      exact ⟨_, (Option.some.inj hstep).symm, .cancelled n wheel hid hwell hpending hroots hcancel⟩
  | env op => exact Or.inr (Or.inr (Or.inr ⟨_, (Option.some.inj hstep).symm, .env op⟩))
  | expire cur =>
    refine Or.inr (Or.inr ?_)
    simp only [step] at hstep
    split at hstep
    · rename_i hphase
      split_ifs at hstep
      · exact Or.inr ⟨_, (Option.some.inj hstep).symm, .expireEmpty hphase⟩
      · obtain rfl := Option.some.inj hstep
        rcases expireRound_cases state.queue cur 0 state.log with
          ⟨herror, hill⟩ | ⟨state', hok, hround⟩
        · exact Or.inl ⟨herror, fun h ↦ hill h.1⟩
        · exact Or.inr ⟨state', hok, .expire hphase hround⟩
    · cases hstep
  | returnCallback =>
    simp only [step] at hstep
    split at hstep
    · cases hstep
    · rename_i cur ev expired count hphase
      obtain rfl := Option.some.inj hstep
      rcases TimerQueue.dispatchEnd_cases state.queue cur ev expired with
        hend | ⟨honce, hend⟩ | ⟨hperiodic, hrepeated, hend⟩ |
          ⟨hperiodic, hrepeated, later, hcatch, hend⟩
      · rw [hend]
        exact Or.inr (Or.inl rfl)
      · rw [hend]
        rcases expireRound_cases
          { state.queue with freeList := state.queue.freeList.add expired.addr } cur (count + 1)
          (state.log ++ outcomeEvents ev .oneShot) with ⟨herror, hill⟩ | ⟨state', hok, hround⟩
        · exact Or.inr (Or.inr (Or.inl ⟨herror, fun h ↦ hill h.1⟩))
        · exact Or.inr (Or.inr (Or.inr ⟨state', hok, .oneShot hphase honce hround⟩))
      · rw [hend]
        exact Or.inr (Or.inr (Or.inr ⟨_, rfl, .stopped hphase hperiodic hrepeated⟩))
      · rw [hend]
        rcases expireRound_cases
          { state.queue with
            wheel := state.queue.wheel.reschedule { expired with timerValue := later } }
          cur (count + 1) (state.log ++ outcomeEvents ev .rescheduled) with
          ⟨herror, hill⟩ | ⟨state', hok, hround⟩
        · exact Or.inr (Or.inr (Or.inl ⟨herror, fun h ↦
            hill (reschedule_wellFormed h.1 h.2 hphase hcatch)⟩))
        · exact Or.inr (Or.inr (Or.inr ⟨state', hok, .rescheduled later hphase hperiodic hrepeated
            hcatch hround⟩))
    · rename_i cur count hphase
      obtain rfl := Option.some.inj hstep
      rcases expireRound_cases state.queue cur (count + 1) state.log with
        ⟨herror, hill⟩ | ⟨state', hok, hround⟩
      · exact Or.inr (Or.inr (Or.inl ⟨herror, fun h ↦ hill h.1⟩))
      · exact Or.inr (Or.inr (Or.inr ⟨state', hok, .resumed hphase hround⟩))

theorem Round.wellFormed {queue : TimerQueue cfg} {cur : TimeValue} {count : ℕ} {log : List Event}
    {state' : State cfg} (hround : Round queue cur count log state')
    (h : queue.wheel.WellFormed) : state'.queue.wheel.WellFormed := by
  cases hround with
  | returned => exact h
  | dropped n wheel hwell => exact hwell h
  | entered n wheel ev hwell => exact hwell h

/-- Every action keeps the wheel well formed. -/
theorem Effect.wellFormed {state state' : State cfg} {action : Action}
    (heffect : Effect state action state') (h : state.queue.wheel.WellFormed)
    (hpositive : state.ExpiryPositive action) : state'.queue.wheel.WellFormed := by
  cases heffect with
  | scheduled addr freeList id timerId nextCnt wheel hgenerate hwheel =>
    subst hwheel
    dsimp only
    split_ifs
    · exact h.setRoot _ _ _
    · exact (h.setRoot _ _ _).scheduleNode hpositive (TimeValue.add_normalised _ _)
  | missed => exact h
  | cancelled n wheel hid hwell => exact hwell h
  | env op => exact h
  | expireEmpty => exact h
  | expire hphase hround => exact hround.wellFormed h
  | oneShot hphase honce hround => exact hround.wellFormed h
  | stopped => exact h
  | rescheduled later hphase hperiodic hrepeated hcatch hround =>
    exact hround.wellFormed (reschedule_wellFormed h hpositive hphase hcatch)
  | resumed hphase hround => exact hround.wellFormed h

/-- An action that goes well, by its effect. -/
theorem next_cases {state state' : State cfg} {action : Action}
    (hnext : state.next action = some state') : Effect state action state' := by
  obtain ⟨result, hstep, hok⟩ := Option.bind_eq_some_iff.mp hnext
  rcases step_cases hstep with rfl | rfl | ⟨rfl, -⟩ | ⟨_, rfl, heffect⟩
  · cases hok
  · cases hok
  · cases hok
  · obtain rfl := Option.some.inj hok
    exact heffect

/-- The runs of the queue in which every absolute expiry time is positive. -/
def Reaches (prealloc : ℕ) (env : Env) (actions : List Action) (state : State cfg) : Prop :=
  Run (guarded ExpiryPositive (stepOf next)) (init cfg prealloc env) actions state

theorem Reaches.wellFormed {prealloc : ℕ} {env : Env} {actions : List Action} {state : State cfg}
    (hrun : Reaches prealloc env actions state) : state.queue.wheel.WellFormed := by
  refine Run.invariant (fun state ↦ state.queue.wheel.WellFormed) hrun
    (TimerWheel.openI_wellFormed cfg prealloc) ?_
  rintro middle action last h ⟨hpositive, hnext⟩
  exact (next_cases hnext).wellFormed h hpositive

/-- The representation invariant of the wheel holds in every state that a run of clients and
callbacks reaches, and no action there reads through a null first node. Assumes: every absolute
expiry time of the run is positive. -/
theorem reachable_invariant {prealloc : ℕ} {env : Env} {actions : List Action} {state : State cfg}
    (hrun : Reaches prealloc env actions state) :
    state.queue.wheel.Invariant ∧
      ∀ action, state.ExpiryPositive action → state.step action ≠ some (.error .nullFirst) := by
  refine ⟨hrun.wellFormed.invariant, fun action hpositive hstep ↦ ?_⟩
  rcases step_cases hstep with hnull | hloop | ⟨-, hill⟩ | ⟨state', hok, -⟩
  · cases hnull
  · cases hloop
  · exact hill ⟨hrun.wellFormed, hpositive⟩
  · cases hok

/-- A periodic timer is dispatched, and its callback cancels the other timer. -/
theorem reachable_invariant_periodic :
    ∃ state : State smallWheel,
      Reaches 0 ⟨⟨100, 0⟩, fun _ ↦ false⟩
        [.schedule (some 1) 0 0 ⟨1, 0⟩ ⟨2, 0⟩, .schedule (some 2) 0 0 ⟨1, 500⟩ ⟨0, 0⟩,
          .expire ⟨104, 0⟩, .cancelTimer 1, .returnCallback] state ∧
        state.queue.wheel.Invariant ∧
        ∀ action, state.ExpiryPositive action → state.step action ≠ some (.error .nullFirst) :=
  ⟨_, Run.of_isSome (by decide +kernel), reachable_invariant (Run.of_isSome (by decide +kernel))⟩

end State

end Exc.Timer
