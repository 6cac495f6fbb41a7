import Exc.Timer.TimerIds
import Mathlib.Data.Multiset.Range

/-!
# Where the nodes are

A node that `alloc_node` takes from the free list is a root, is linked on a spoke, is dispatched, or
goes back through `free_node`, onto the free list or, above its high-water mark, to `delete`.
`FreeList.Accounts` says that the nodes of a free list, the deleted ones and those that are
elsewhere are all that were ever made, each once.

`schedule_i` takes its node before it asks for an id and does not give it back when there is none
(`node_is_lost`). There is none when the search for a free count ends in vain, and, since the id
goes through an `int`, when its 32 bits are all ones: `max_cnt` is meant to be one less for the last
spoke, but the test is made with `spoke_count_`, which no spoke has. `NodeKept` is the condition
that neither happens, and `nodes_conserved` is about the runs whose steps all meet it.
-/

set_option autoImplicit false
set_option relaxedAutoImplicit false

namespace Exc.Timer

open Lib TimerWheel

variable {cfg : WheelConfig}

/-! ### The free list -/

/-- Every node that was made is on the free list, deleted, or one of the others, and at only one of
these places. -/
def FreeList.Accounts (others : Multiset Addr) (list : FreeList) : Prop :=
  others + (list.nodes : Multiset Addr) + (list.deleted : Multiset Addr) =
    Multiset.range list.fresh

namespace FreeList.Accounts

variable {others : Multiset Addr} {list : FreeList} {addr : Addr}

theorem empty : Accounts 0 FreeList.empty := rfl

/-- New nodes go to the free list. -/
theorem alloc (h : Accounts others list) (n : ℕ) : Accounts others (FreeList.alloc n list) := by
  induction n generalizing list with
  | zero => exact h
  | succ n ih =>
    refine ih ?_
    rw [Accounts] at h ⊢
    rw [← Multiset.cons_coe, Multiset.add_cons, Multiset.cons_add, h, Multiset.range_succ]

/-- Nodes of the free list are deleted. -/
theorem dealloc (h : Accounts others list) (n : ℕ) : Accounts others (FreeList.dealloc n list) := by
  induction n generalizing list with
  | zero => exact h
  | succ n ih =>
    unfold FreeList.dealloc
    split
    · exact h
    · rename_i first rest hnodes
      refine ih ?_
      rw [Accounts, hnodes] at h
      rw [Accounts, ← h, ← Multiset.cons_coe, ← Multiset.cons_coe, Multiset.add_cons,
        Multiset.add_cons, Multiset.cons_add]

theorem resize (h : Accounts others list) (newsize : ℕ) :
    Accounts others (FreeList.resize newsize list) := by
  unfold FreeList.resize
  split_ifs
  · exact h.dealloc _
  · exact h.alloc _

/-- The node that is taken comes to the others. -/
theorem remove {rest : FreeList} (h : Accounts others list)
    (hremove : list.remove = (some addr, rest)) : Accounts (addr ::ₘ others) rest := by
  have hfilled : Accounts others
      (if list.size ≤ defaultFreeListLwm then FreeList.alloc defaultFreeListInc list
        else list) := by
    split_ifs
    · exact h.alloc _
    · exact h
  unfold FreeList.remove at hremove
  dsimp only at hremove
  split at hremove
  · cases hremove
  · rename_i first tail hnodes
    cases hremove
    rw [Accounts, hnodes] at hfilled
    rw [Accounts, ← hfilled, ← Multiset.cons_coe, Multiset.add_cons, Multiset.cons_add]

/-- A node that is given back comes from the others. -/
theorem add (h : Accounts (addr ::ₘ others) list) : Accounts others (list.add addr) := by
  rw [Accounts] at h
  unfold FreeList.add
  split_ifs
  · rw [Accounts, ← h, ← Multiset.cons_coe, Multiset.add_cons, Multiset.cons_add,
      Multiset.cons_add, Multiset.cons_add]
  · rw [Accounts, ← h, ← Multiset.cons_coe, Multiset.add_cons, Multiset.cons_add,
      Multiset.cons_add]

/-- The roots of the spokes are taken from the list for good. -/
theorem allocRoots (h : Accounts others list) (n : ℕ) :
    Accounts ((TimerWheel.allocRoots n list).1 + others) (TimerWheel.allocRoots n list).2 := by
  induction n generalizing others list with
  | zero => rwa [TimerWheel.allocRoots, Multiset.coe_nil, zero_add]
  | succ n ih =>
    obtain ⟨addr, rest, hremove⟩ := list.exists_remove
    have hrest := ih (h.remove hremove)
    rw [TimerWheel.allocRoots, hremove]
    rwa [Multiset.add_cons, ← Multiset.cons_add, Multiset.cons_coe] at hrest

end FreeList.Accounts

theorem FreeList.deleted_remove {list rest : FreeList} {addr : Addr}
    (hremove : list.remove = (some addr, rest)) : rest.deleted = list.deleted := by
  have halloc : ∀ (n : ℕ) (start : FreeList), (alloc n start).deleted = start.deleted := by
    intro n
    induction n with
    | zero => exact fun _ ↦ rfl
    | succ n ih => exact fun start ↦ ih _
  unfold remove at hremove
  dsimp only at hremove
  split at hremove
  · cases hremove
  · cases hremove
    dsimp only
    split_ifs
    · exact halloc _ _
    · rfl

/-- A node is deleted only above the high water mark. -/
theorem FreeList.deleted_add (list : FreeList) (addr : Addr) :
    (list.add addr).deleted = list.deleted ∨
      defaultFreeListHwm ≤ list.size ∧ (list.add addr).deleted = addr :: list.deleted := by
  unfold add
  split_ifs with hroom
  · exact Or.inl rfl
  · exact Or.inr ⟨not_lt.mp hroom, rfl⟩

theorem length_allocRoots (n : ℕ) (list : FreeList) :
    (TimerWheel.allocRoots n list).1.length = n := by
  induction n generalizing list with
  | zero => rfl
  | succ n ih => exact congrArg (· + 1) (ih _)

/-! ### The roots -/

/-- The nodes that are roots of spokes. -/
def TimerWheel.roots (wheel : TimerWheel cfg) : Multiset Addr :=
  Finset.univ.val.map fun spoke ↦ (wheel.spokes spoke).root

theorem TimerWheel.SameRoots.roots_eq {wheel wheel' : TimerWheel cfg}
    (h : SameRoots wheel wheel') : wheel'.roots = wheel.roots :=
  Multiset.map_congr rfl fun spoke _ ↦ (h spoke).2.2

theorem TimerWheel.setRoot_roots (wheel : TimerWheel cfg) (spoke : Fin cfg.spokeCount)
    (timerId act1 : ℕ) : (wheel.setRoot spoke timerId act1).roots = wheel.roots := by
  refine Multiset.map_congr rfl fun other _ ↦ ?_
  by_cases hother : other = spoke
  · subst hother
    simp [setRoot]
  · simp [setRoot, Function.update_of_ne hother]

/-- The nodes of a new wheel are its roots and those on its free list. -/
theorem openI_accounts (cfg : WheelConfig) (prealloc : ℕ) :
    (openI cfg prealloc).2.Accounts (openI cfg prealloc).1.roots := by
  have haccounts := (FreeList.Accounts.empty.resize (prealloc + cfg.spokeCount)).allocRoots
    cfg.spokeCount
  have hroots : (openI cfg prealloc).1.roots = (allocRoots cfg.spokeCount
      (FreeList.resize (prealloc + cfg.spokeCount) FreeList.empty)).1 := by
    have hlength := length_allocRoots cfg.spokeCount
      (FreeList.resize (prealloc + cfg.spokeCount) FreeList.empty)
    rw [TimerWheel.roots, Fin.univ_val_map]
    refine congrArg _ (List.ext_getElem ?_ fun i hfirst hsecond ↦ ?_)
    · rw [List.length_ofFn, hlength]
    · rw [List.getElem_ofFn]
      exact (List.getElem_eq_getD 0).symm
  rw [hroots, ← add_zero (Multiset.ofList _)]
  exact haccounts

/-! ### Getting an id -/

/-- `generate_timer_id` has an id for the spoke: it does not search for a free count, and the 32
bits of the id are not all ones. -/
def TimerWheel.GivesId (wheel : TimerWheel cfg) (spoke : Fin cfg.spokeCount) : Prop :=
  let root := wheel.spokes spoke
  (maxCnt cfg spoke ≤ root.timerId → root.nodes = []) ∧
    (root.timerId < maxCnt cfg spoke →
      (root.nodes = [] ∨ root.act1 = 0 ∨ root.timerId < root.act1) ∧
        ¬ 2 ^ 32 ∣ root.timerId * 2 ^ cfg.spokeBits + spoke + 1)

instance (wheel : TimerWheel cfg) (spoke : Fin cfg.spokeCount) : Decidable (wheel.GivesId spoke) :=
  inferInstanceAs (Decidable ((_ → _) ∧ (_ → _ ∧ _)))

theorem packId_ne_neg_one_of_not_dvd {cnt : ℕ} {spoke : Fin cfg.spokeCount}
    (hdvd : ¬ 2 ^ 32 ∣ cnt * 2 ^ cfg.spokeBits + spoke + 1) :
    toInt (packId cfg cnt spoke) ≠ -1 := by
  rw [toInt_packId]
  intro heq
  have hmod := congrArg (· % ((2 ^ 32 : ℕ) : ℤ)) heq
  simp only [Int.bmod_emod] at hmod
  omega

/-- An id that `generate_timer_id` has is not `-1`. -/
theorem TimerWheel.GivesId.ne_neg_one {wheel wheel' : TimerWheel cfg} {spoke : Fin cfg.spokeCount}
    {id : ℤ} (h : wheel.GivesId spoke)
    (hgenerate : wheel.generateTimerId spoke = .ok (id, wheel')) :
    id ≠ -1 := by
  unfold GivesId at h
  unfold generateTimerId at hgenerate
  dsimp only at h hgenerate
  by_cases hmax : maxCnt cfg spoke ≤ (wheel.spokes spoke).timerId
  · rw [if_pos ⟨hmax, h.1 hmax⟩] at hgenerate
    cases hgenerate
    omega
  · obtain ⟨hcount, hones⟩ := h.2 (not_le.mp hmax)
    have hnext : (if (wheel.spokes spoke).nodes = [] then 0 else (wheel.spokes spoke).act1) = 0 ∨
        (wheel.spokes spoke).timerId <
          if (wheel.spokes spoke).nodes = [] then 0 else (wheel.spokes spoke).act1 := by
      split_ifs with hnodes
      · exact Or.inl rfl
      · exact hcount.resolve_left hnodes
    rw [if_neg (fun hboth ↦ hmax hboth.1), if_neg hmax, if_pos hnext] at hgenerate
    cases hgenerate
    exact packId_ne_neg_one_of_not_dvd hones

/-! ### The places of a node -/

namespace State

/-- The nodes that are linked on a spoke or dispatched. -/
def inUse (state : State cfg) : Multiset Addr :=
  (state.queue.wheel.pending + state.handled).map Node.addr

/-- `schedule` is called with a task, for a spoke for which there is an id. -/
def NodeKept (state : State cfg) : Action → Prop
  | .schedule type _ _ future _ =>
    type ≠ none ∧
      state.queue.wheel.GivesId (calculateSpoke cfg (state.queue.env.clock + future))
  | _ => True

instance (state : State cfg) (action : Action) : Decidable (state.NodeKept action) :=
  match action with
  | .schedule _ _ _ _ _ => inferInstanceAs (Decidable (_ ∧ _))
  | .cancelTimer _ => .isTrue trivial
  | .env _ => .isTrue trivial
  | .expire _ => .isTrue trivial
  | .returnCallback => .isTrue trivial

/-- What a step does with the nodes: it takes one from the free list, gives one back, or neither. -/
inductive Moves (state state' : State cfg) : Prop
  | stays (hfree : state'.queue.freeList = state.queue.freeList)
      (hinUse : state'.inUse = state.inUse)
  | taken (addr : Addr)
      (hremove : state.queue.freeList.remove = (some addr, state'.queue.freeList))
      (hinUse : state'.inUse = addr ::ₘ state.inUse)
  | givenBack (addr : Addr) (hfree : state'.queue.freeList = state.queue.freeList.add addr)
      (hinUse : state.inUse = addr ::ₘ state'.inUse)

/-- The nodes are accounted for, every timer has its task, and every call of `schedule` got an id.
-/
structure Accounted (state : State cfg) : Prop where
  accounts : state.queue.freeList.Accounts (state.queue.wheel.roots + state.inUse)
  tasks : ∀ n ∈ state.queue.wheel.pending + state.handled, n.type ≠ none
  ids : ∀ serial, .scheduleReturned serial (-1) ∉ state.log

/-- Moves keep the account. -/
theorem Moves.accounts {state state' : State cfg} (hmoves : Moves state state')
    (hroots : state'.queue.wheel.roots = state.queue.wheel.roots)
    (h : state.queue.freeList.Accounts (state.queue.wheel.roots + state.inUse)) :
    state'.queue.freeList.Accounts (state'.queue.wheel.roots + state'.inUse) := by
  rw [hroots]
  cases hmoves with
  | stays hfree hinUse => rwa [hfree, hinUse]
  | taken addr hremove hinUse =>
    rw [hinUse, Multiset.add_cons]
    exact h.remove hremove
  | givenBack addr hfree hinUse =>
    rw [hinUse, Multiset.add_cons] at h
    exact hfree ▸ h.add

/-- A step deletes at most the node that is given back, and only above the high water mark. -/
theorem Moves.deleted {state state' : State cfg} (hmoves : Moves state state') :
    state'.queue.freeList.deleted = state.queue.freeList.deleted ∨
      defaultFreeListHwm ≤ state.queue.freeList.size ∧ ∃ addr ∈ state.inUse,
        state'.queue.freeList.deleted = addr :: state.queue.freeList.deleted := by
  cases hmoves with
  | stays hfree => exact Or.inl (congrArg FreeList.deleted hfree)
  | taken addr hremove => exact Or.inl (FreeList.deleted_remove hremove)
  | givenBack addr hfree hinUse =>
    rw [hfree, hinUse]
    refine (FreeList.deleted_add _ addr).imp_right fun ⟨habove, hdeleted⟩ ↦ ?_
    exact ⟨habove, addr, Multiset.mem_cons_self _ _, hdeleted⟩

/-- A node is given back when it is neither linked nor dispatched any more. -/
theorem Moves.of_node {state state' : State cfg} {n : Node}
    (hnodes : state.queue.wheel.pending + state.handled =
      n ::ₘ (state'.queue.wheel.pending + state'.handled))
    (hfree : state'.queue.freeList = state.queue.freeList.add n.addr) : Moves state state' := by
  refine .givenBack n.addr hfree ?_
  rw [inUse, hnodes, Multiset.map_cons, ← inUse]

/-- A round of `expire` moves a node from a spoke to its callback, or none. -/
theorem Round.nodes {queue : TimerQueue cfg} {cur : TimeValue} {count : ℕ} {log : List Event}
    {state' : State cfg} (hround : Round queue cur count log state')
    (htasks : ∀ n ∈ queue.wheel.pending, n.type ≠ none) :
    state'.queue.wheel.pending + state'.handled = queue.wheel.pending ∧
      state'.queue.freeList = queue.freeList ∧
      ∀ serial id, .scheduleReturned serial id ∈ state'.log →
        .scheduleReturned serial id ∈ log := by
  cases hround with
  | returned => exact ⟨by simp [handled], rfl, by simp⟩
  | dropped n wheel hwell hpending hroots htype =>
    exact absurd htype (htasks n (hpending ▸ Multiset.mem_cons_self n _))
  | entered n wheel ev hwell hpending =>
    refine ⟨?_, rfl, by simp⟩
    simp [handled, hpending, add_comm wheel.pending, Multiset.singleton_add]

/-- The calls on a task after its `handle_timeout` are no returns of `schedule`. -/
theorem mem_append_outcomeEvents {log : List Event} {ev : Task} {outcome : Outcome} {serial : ℕ}
    {id : ℤ} (hmem : .scheduleReturned serial id ∈ log ++ outcomeEvents ev outcome) :
    .scheduleReturned serial id ∈ log := by
  cases outcome <;> simpa [outcomeEvents] using hmem

/-- Roots stay roots. -/
theorem Effect.roots_eq {state state' : State cfg} {action : Action}
    (heffect : Effect state action state') :
    state'.queue.wheel.roots = state.queue.wheel.roots := by
  rcases heffect.roots with
    ⟨type, act1, act2, future, interval, id, wheel, -, hgenerate, hroots, -⟩ | ⟨-, hroots⟩
  · rw [hroots.roots_eq]
    rcases generateTimerId_cases state.queue.wheel
      (calculateSpoke cfg (state.queue.env.clock + future)) with
      ⟨other, timerId, nextCnt, hok⟩ | herror
    · rw [hok, Except.ok.injEq, Prod.mk.injEq] at hgenerate
      rw [← hgenerate.2]
      exact setRoot_roots _ _ _ _
    · rw [herror] at hgenerate
      cases hgenerate
  · exact hroots.roots_eq

/-- What every action for which there is an id does with the nodes. -/
theorem Effect.moves {state state' : State cfg} {action : Action}
    (heffect : Effect state action state') (h : Accounted state) (hkept : state.NodeKept action) :
    Moves state state' ∧ (∀ n ∈ state'.queue.wheel.pending + state'.handled, n.type ≠ none) ∧
      ∀ serial, .scheduleReturned serial (-1) ∈ state'.log →
        .scheduleReturned serial (-1) ∈ state.log := by
  have htasks : ∀ n ∈ state.queue.wheel.pending, n.type ≠ none :=
    fun n hn ↦ h.tasks n (Multiset.mem_add.mpr (Or.inl hn))
  have hrest {n : Node} {others : Multiset Node}
      (hnodes : state.queue.wheel.pending + state.handled = n ::ₘ others) :
      ∀ other ∈ others, other.type ≠ none :=
    fun other hother ↦ h.tasks other (hnodes ▸ Multiset.mem_cons_of_mem hother)
  cases heffect with
  | scheduled addr freeList id timerId nextCnt wheel hgenerate hwheel hremove =>
    rename_i type act1 act2 future interval
    have hid := hkept.2.ne_neg_one hgenerate
    subst hwheel
    rw [if_neg hid]
    have hlinked := pending_scheduleNode (state.queue.wheel.setRoot
      (calculateSpoke cfg (state.queue.env.clock + future)) timerId nextCnt)
      ⟨addr, type, act1, act2, state.queue.env.clock + future, interval, id,
        state.queue.scheduled, 0⟩
      (calculateSpoke cfg (state.queue.env.clock + future)) (state.queue.env.clock + future)
    rw [setRoot_pending] at hlinked
    refine ⟨.taken addr hremove ?_, ?_, fun serial hmem ↦ ?_⟩
    · simp only [inUse, handled, reschedule, hlinked, Multiset.cons_add, Multiset.map_cons]
    · intro n hn
      simp only [reschedule, hlinked, Multiset.cons_add, Multiset.mem_cons] at hn
      obtain rfl | hold := hn
      · exact hkept.1
      · exact h.tasks n hold
    · simp only [List.mem_append, List.mem_singleton, Event.scheduleReturned.injEq] at hmem
      exact hmem.resolve_right fun heq ↦ hid heq.2.symm
  | missed hnone hcancel => exact ⟨.stays rfl rfl, h.tasks, by simp⟩
  | cancelled n wheel hid hwell hpending hroots hcancel =>
    have hnodes : state.queue.wheel.pending + state.handled =
        n ::ₘ (wheel.pending + state.handled) := by
      rw [hpending, Multiset.cons_add]
    exact ⟨.of_node hnodes rfl, hrest hnodes, by simp⟩
  | env op => exact ⟨.stays rfl rfl, h.tasks, fun _ hmem ↦ hmem⟩
  | expireEmpty hphase => exact ⟨.stays rfl rfl, h.tasks, by simp⟩
  | expire hphase hround =>
    obtain ⟨hnodes, hfree, hlog⟩ := hround.nodes htasks
    refine ⟨.stays hfree ?_, hnodes ▸ htasks, fun serial ↦ hlog serial (-1)⟩
    rw [inUse, hnodes, inUse, handled, hphase, add_zero]
  | oneShot hphase honce hround =>
    rename_i cur ev expired count
    obtain ⟨hnodes, hfree, hlog⟩ := hround.nodes htasks
    have hback : state.queue.wheel.pending + state.handled =
        expired ::ₘ (state'.queue.wheel.pending + state'.handled) := by
      rw [hnodes, handled, hphase, add_comm, Multiset.singleton_add]
    exact ⟨.of_node hback hfree, hrest hback,
      fun serial hmem ↦ mem_append_outcomeEvents (hlog serial (-1) hmem)⟩
  | stopped hphase hperiodic hrepeated =>
    rename_i cur ev expired count
    have hback : state.queue.wheel.pending + state.handled =
        expired ::ₘ (state.queue.wheel.pending + 0) := by
      rw [handled, hphase, add_comm, Multiset.singleton_add, add_zero]
    exact ⟨.of_node hback rfl, hrest hback, fun serial hmem ↦ mem_append_outcomeEvents hmem⟩
  | rescheduled later hphase hperiodic hrepeated hcatch hround =>
    rename_i cur ev expired count
    -- the node goes back to a spoke under its address and with its task
    have hpending := pending_scheduleNode state.queue.wheel { expired with timerValue := later }
      (calculateSpoke cfg later) later
    have hhandled : expired.type ≠ none := h.tasks expired (by simp [handled, hphase])
    have htasks' : ∀ n ∈ (state.queue.wheel.reschedule
        { expired with timerValue := later }).pending, n.type ≠ none := by
      intro n hn
      rw [reschedule, hpending, Multiset.mem_cons] at hn
      obtain rfl | hold := hn
      · exact hhandled
      · exact htasks n hold
    obtain ⟨hnodes, hfree, hlog⟩ := hround.nodes htasks'
    refine ⟨.stays hfree ?_, hnodes ▸ htasks',
      fun serial hmem ↦ mem_append_outcomeEvents (hlog serial (-1) hmem)⟩
    rw [inUse, hnodes, inUse, handled, hphase, reschedule, hpending, add_comm,
      Multiset.singleton_add, Multiset.map_cons, Multiset.map_cons]
  | resumed hphase hround =>
    obtain ⟨hnodes, hfree, hlog⟩ := hround.nodes htasks
    refine ⟨.stays hfree ?_, hnodes ▸ htasks, fun serial ↦ hlog serial (-1)⟩
    rw [inUse, hnodes, inUse, handled, hphase, add_zero]

/-! ### Runs -/

theorem init_accounted (cfg : WheelConfig) (prealloc : ℕ) (env : Env) :
    Accounted (init cfg prealloc env) := by
  have hnodes :
      (init cfg prealloc env).queue.wheel.pending + (init cfg prealloc env).handled = 0 := by
    simp [init, handled, TimerQueue.init, openI, pending]
  refine ⟨?_, by simp [hnodes], fun serial hmem ↦ by cases hmem⟩
  rw [inUse, hnodes, Multiset.map_zero, add_zero]
  exact openI_accounts cfg prealloc

/-- A step with an id keeps the account. -/
theorem Accounted.next {state state' : State cfg} {action : Action} (h : Accounted state)
    (hkept : state.NodeKept action) (hnext : state.next action = some state') :
    Accounted state' := by
  have heffect := next_cases hnext
  obtain ⟨hmoves, htasks, hlog⟩ := heffect.moves h hkept
  exact ⟨hmoves.accounts heffect.roots_eq h.accounts, htasks,
    fun serial hmem ↦ h.ids serial (hlog serial hmem)⟩

/-- In every run whose steps all meet `NodeKept`: the roots, the nodes linked on a spoke or
dispatched, those on the free list and the deleted ones are all nodes that were ever made, each
once; no call of `schedule` has returned `-1`; and a further step deletes at most one node, which
was in use, and only above the high water mark. -/
theorem nodes_conserved {prealloc : ℕ} {env : Env} {actions : List Action} {state : State cfg}
    (hrun : Run (guarded NodeKept (stepOf next)) (init cfg prealloc env) actions state) :
    (state.queue.wheel.roots + state.inUse + (state.queue.freeList.nodes : Multiset Addr) +
        (state.queue.freeList.deleted : Multiset Addr) =
      Multiset.range state.queue.freeList.fresh) ∧
    (∀ serial, .scheduleReturned serial (-1) ∉ state.log) ∧
    ∀ action state', guarded NodeKept (stepOf next) state action state' →
      state'.queue.freeList.deleted = state.queue.freeList.deleted ∨
        defaultFreeListHwm ≤ state.queue.freeList.size ∧ ∃ addr ∈ state.inUse,
          state'.queue.freeList.deleted = addr :: state.queue.freeList.deleted := by
  have h : Accounted state := Run.invariant Accounted hrun (init_accounted cfg prealloc env)
    fun _ _ _ h hstep ↦ h.next hstep.1 hstep.2
  exact ⟨h.accounts, h.ids,
    fun _ _ hstep ↦ ((next_cases hstep.2).moves h hstep.1).1.deleted⟩

/-- A periodic timer and two others: one is cancelled by its callback, and the other one fires. Of
the 108 nodes of the new wheel 8 are roots and 1 is in use at the end. -/
theorem nodes_conserved_cancelled :
    ∃ state : State smallWheel,
      Run (guarded NodeKept (stepOf next)) (init smallWheel 0 ⟨⟨100, 0⟩, fun _ ↦ false⟩)
        [.schedule (some 1) 0 0 ⟨1, 0⟩ ⟨0, 2000⟩, .schedule (some 2) 0 0 ⟨1, 0⟩ ⟨0, 0⟩,
          .schedule (some 3) 0 0 ⟨1, 0⟩ ⟨0, 0⟩, .expire ⟨101, 0⟩, .cancelTimer 20, .returnCallback,
          .returnCallback] state ∧
      state.inUse.card = 1 ∧ state.queue.freeList.size = 99 ∧ state.queue.freeList.fresh = 108 ∧
      state.queue.wheel.roots + state.inUse + (state.queue.freeList.nodes : Multiset Addr) +
          (state.queue.freeList.deleted : Multiset Addr) =
        Multiset.range state.queue.freeList.fresh :=
  ⟨_, Run.of_isSome (by decide +kernel), by decide +kernel, by decide +kernel, by decide +kernel,
    (nodes_conserved (Run.of_isSome (by decide +kernel))).1⟩

/-! ### The node that is lost -/

/-- A one-shot timer for the last spoke of the largest wheel, from time zero. -/
def lastSpoke : Action := .schedule (some 0) 0 0 ⟨8, 190000⟩ .zero

/-- After some calls of `schedule` for one spoke, all at time zero: the counter of the spoke is
their number, and the nodes are accounted for. -/
structure Filled (spoke : Fin cfg.spokeCount) (calls : ℕ) (state : State cfg) : Prop where
  env : state.queue.env = ⟨.zero, fun _ ↦ false⟩
  counter : (state.queue.wheel.spokes spoke).timerId = calls
  unsearched : (state.queue.wheel.spokes spoke).act1 = 0
  accounts : state.queue.freeList.Accounts (state.queue.wheel.roots + state.inUse)

/-- One more call takes a node; it is in use unless the id is `-1`. -/
theorem Filled.oneMore {spoke : Fin cfg.spokeCount} {calls : ℕ} {state : State cfg}
    (h : Filled spoke calls state) (hspoke : calculateSpoke cfg (.zero + ⟨8, 190000⟩) = spoke)
    (hcalls : calls < maxCnt cfg spoke) :
    ∃ state', stepOf next state lastSpoke state' ∧
      (toInt (packId cfg calls spoke) = -1 →
        (∃ serial, .scheduleReturned serial (-1) ∈ state'.log) ∧
          ¬state'.queue.freeList.Accounts (state'.queue.wheel.roots + state'.inUse)) ∧
      (toInt (packId cfg calls spoke) ≠ -1 → Filled spoke (calls + 1) state') := by
  obtain ⟨addr, freeList, id, wheel, hremove, hid, hwheel, hnext⟩ :=
    next_schedule_of_lt (by rw [h.env]; exact hspoke) (h.counter ▸ hcalls) h.unsearched
      (some 0) 0 0 .zero
  rw [h.counter] at hid hwheel
  have htaken := h.accounts.remove hremove
  refine ⟨_, hnext, fun hlost ↦ ⟨⟨state.queue.scheduled, ?_⟩, fun haccounts ↦ ?_⟩, fun hkept ↦ ?_⟩
  · simp [hid, hlost]
  · -- the node that was taken is nowhere
    rw [← hid] at hlost
    simp only [if_pos hlost, hwheel, setRoot_roots, State.inUse, handled, setRoot_pending]
      at haccounts
    have hsame := htaken.trans haccounts.symm
    rw [Multiset.cons_add, Multiset.cons_add] at hsame
    have hcard := congrArg Multiset.card hsame
    rw [Multiset.card_cons] at hcard
    exact absurd hcard (Nat.succ_ne_self _)
  · rw [← hid] at hkept
    simp only [if_neg hkept, hwheel]
    refine ⟨h.env, ?_, ?_, ?_⟩
    · exact ((scheduleNode_sameRoots _ _ _ _ _).1).trans (by simp [setRoot])
    · exact ((scheduleNode_sameRoots _ _ _ _ _).2.1).trans (by simp [setRoot])
    · simp only [State.inUse, handled, reschedule, pending_scheduleNode, setRoot_pending,
        (scheduleNode_sameRoots _ _ _ _).roots_eq, setRoot_roots, Multiset.cons_add,
        Multiset.map_cons, Multiset.add_cons]
      exact htaken

/-- Calls for one spoke take nodes that are in use, as long as no id is `-1`. -/
theorem run_lastSpoke {spoke : Fin cfg.spokeCount}
    (hspoke : calculateSpoke cfg (.zero + ⟨8, 190000⟩) = spoke) (calls : ℕ)
    (hcalls : calls ≤ maxCnt cfg spoke)
    (hids : ∀ number < calls, toInt (packId cfg number spoke) ≠ -1) :
    ∃ state, Run (stepOf next) (init cfg 0 ⟨.zero, fun _ ↦ false⟩)
        (List.replicate calls lastSpoke) state ∧ Filled spoke calls state := by
  induction calls with
  | zero =>
    exact ⟨_, .refl, rfl, (init_root _ _ _ _).1, (init_root _ _ _ _).2,
      (init_accounted cfg 0 _).accounts⟩
  | succ calls ih =>
    obtain ⟨state, hrun, hfilled⟩ := ih (by omega) fun number hnumber ↦ hids number (by omega)
    obtain ⟨state', hstep, -, hmore⟩ := hfilled.oneMore hspoke hcalls
    refine ⟨state', ?_, hmore (hids calls (Nat.lt_succ_self calls))⟩
    rw [List.replicate_succ']
    exact hrun.tail hstep

/-- With 4096 spokes and a `long` of 64 bits, the timer number 2^20 for the last spoke gets the id
`-1`, and its node is at none of the places. -/
theorem node_is_lost :
    ∃ state : State largeWheel,
      Run (stepOf next) (init largeWheel 0 ⟨.zero, fun _ ↦ false⟩)
        (List.replicate (2 ^ 20) lastSpoke) state ∧
      (∃ serial, .scheduleReturned serial (-1) ∈ state.log) ∧
      state.queue.wheel.roots + state.inUse + (state.queue.freeList.nodes : Multiset Addr) +
          (state.queue.freeList.deleted : Multiset Addr) ≠
        Multiset.range state.queue.freeList.fresh := by
  have hvalue : (calculateSpoke largeWheel (.zero + ⟨8, 190000⟩) : ℕ) = 4095 := by decide +kernel
  have hmax : 2 ^ 20 ≤ maxCnt largeWheel (calculateSpoke largeWheel (.zero + ⟨8, 190000⟩)) := by
    decide +kernel
  have hids : ∀ number < 2 ^ 20 - 1, toInt (packId largeWheel number
      (calculateSpoke largeWheel (.zero + ⟨8, 190000⟩))) ≠ -1 := by
    intro number hnumber
    refine packId_ne_neg_one_of_not_dvd fun hdvd ↦ ?_
    have hle := Nat.le_of_dvd (Nat.succ_pos _) hdvd
    rw [hvalue] at hle
    change 2 ^ 32 ≤ number * 2 ^ 12 + 4095 + 1 at hle
    omega
  have hlast : toInt (packId largeWheel (2 ^ 20 - 1)
      (calculateSpoke largeWheel (.zero + ⟨8, 190000⟩))) = -1 := by
    rw [toInt_packId, hvalue]
    change (((2 ^ 20 - 1) * 2 ^ 12 + 4095 : ℕ) : ℤ).bmod (2 ^ 32) = -1
    norm_num [Int.bmod]
  obtain ⟨state, hrun, hfilled⟩ := run_lastSpoke rfl (2 ^ 20 - 1) (by omega) hids
  obtain ⟨state', hstep, hlost, -⟩ := hfilled.oneMore rfl (by omega)
  have hactions : List.replicate (2 ^ 20) lastSpoke =
      List.replicate (2 ^ 20 - 1) lastSpoke ++ [lastSpoke] := by
    rw [← List.replicate_succ', Nat.sub_add_cancel Nat.one_le_two_pow]
  exact ⟨state', hactions ▸ hrun.tail hstep, hlost hlast⟩

end State

end Exc.Timer
