import Exc.Timer.QueueInvariant
import Mathlib.Data.Multiset.MapFold

/-!
# Timers and the calls that made them

A timer is live when it is on the wheel or when `expire` is inside its `handle_timeout`: then its
node is on no spoke, but it may come back. A live timer is known by its tag, the number of the
`schedule` call that made it and the id that the call returned.

`Effect.trace` says what an action does to the tags: a `schedule` call adds a tag with the next
number, and everything else takes tags away or leaves them. So along every run the calls are
numbered one by one, and every live timer carries the id that its own call returned
(`run_traced`). Nothing here depends on the order of the nodes on the wheel, so nothing is assumed
of the expiry times.
-/

set_option autoImplicit false
set_option relaxedAutoImplicit false

namespace Exc.Timer

open Lib TimerWheel

variable {cfg : WheelConfig}

/-- The call that made a timer, and the id it returned. -/
def Node.tag (n : Node) : ℕ × ℤ := (n.serial, n.timerId)

namespace State

/-- The timer whose `handle_timeout` is running. -/
def handled (state : State cfg) : Multiset Node :=
  match state.phase with
  | .handling _ _ expired _ => {expired}
  | _ => 0

/-- The tags of the timers on the wheel and of the one whose `handle_timeout` is running. -/
def tags (state : State cfg) : Multiset (ℕ × ℤ) :=
  (state.queue.wheel.pending + state.handled).map Node.tag

/-- The calls of `schedule` so far, with the ids they returned. -/
def issued (state : State cfg) : List (ℕ × ℤ) := state.log.filterMap Event.issued

/-- The calls of `schedule` are numbered, and the live timers are some of those they made. -/
structure Traced (state : State cfg) : Prop where
  numbered : state.issued.map Prod.fst = List.range state.queue.scheduled
  issued : ∀ tag ∈ state.tags, tag ∈ state.issued ∧ tag.2 ≠ -1
  distinct : (state.tags.map Prod.fst).Nodup

theorem mem_tags_of_pending {state : State cfg} {n : Node} (hn : n ∈ state.queue.wheel.pending) :
    n.tag ∈ state.tags :=
  Multiset.mem_map_of_mem _ (Multiset.mem_add.mpr (Or.inl hn))

/-- A call of `schedule` returned one id. -/
theorem Traced.issued_unique {state : State cfg} (h : Traced state) {serial : ℕ} {first second : ℤ}
    (hfirst : (serial, first) ∈ state.issued) (hsecond : (serial, second) ∈ state.issued) :
    first = second := by
  have hnodup : (state.issued.map Prod.fst).Nodup := h.numbered ▸ List.nodup_range
  exact congrArg Prod.snd (List.inj_on_of_nodup_map hnodup hfirst hsecond rfl)

theorem Traced.nodup_serial {state : State cfg} (h : Traced state) :
    (state.queue.wheel.pending.map Node.serial).Nodup := by
  refine Multiset.nodup_of_le ?_ h.distinct
  rw [tags, Multiset.map_map, Multiset.map_add]
  exact Multiset.le_add_right _ _

/-- Two pending timers of one call are one timer. -/
theorem Traced.eq_of_serial_eq {state : State cfg} (h : Traced state) {n m : Node}
    (hn : n ∈ state.queue.wheel.pending) (hm : m ∈ state.queue.wheel.pending)
    (heq : n.serial = m.serial) : n = m :=
  Multiset.inj_on_of_nodup_map h.nodup_serial n hn m hm heq

/-! ### One action -/

/-- A round of `expire` moves a timer from the wheel to its callback, drops one, or does nothing; no
`schedule` call returns in it. -/
theorem Round.trace {queue : TimerQueue cfg} {cur : TimeValue} {count : ℕ} {log : List Event}
    {state' : State cfg} (hround : Round queue cur count log state') :
    state'.tags ≤ queue.wheel.pending.map Node.tag ∧
      state'.issued = log.filterMap Event.issued ∧ state'.queue.scheduled = queue.scheduled := by
  refine ⟨Multiset.map_le_map ?_, ?_, ?_⟩
  · cases hround with
    | returned => simp [handled]
    | dropped n wheel hwell hpending =>
      simpa [handled, hpending] using Multiset.le_cons_self wheel.pending n
    | entered n wheel ev hwell hpending =>
      simp [handled, hpending, add_comm wheel.pending, Multiset.singleton_add]
  · cases hround <;> simp [State.issued, Event.issued]
  · cases hround <;> rfl

/-- The calls on a task after its `handle_timeout` are no returns of `schedule`. -/
theorem filterMap_issued_outcomeEvents (log : List Event) (ev : Task) (outcome : Outcome) :
    (log ++ outcomeEvents ev outcome).filterMap Event.issued = log.filterMap Event.issued := by
  cases outcome <;> simp [outcomeEvents, Event.issued]

/-- What an action does to the tags of the live timers and to the calls of `schedule`. -/
theorem Effect.trace {state state' : State cfg} {action : Action}
    (heffect : Effect state action state') :
    (∃ id, state'.issued = state.issued ++ [(state.queue.scheduled, id)] ∧
        state'.queue.scheduled = state.queue.scheduled + 1 ∧
        ((id = -1 ∧ state'.tags = state.tags) ∨
          (id ≠ -1 ∧ state'.tags = (state.queue.scheduled, id) ::ₘ state.tags))) ∨
      (state'.issued = state.issued ∧ state'.queue.scheduled = state.queue.scheduled ∧
        state'.tags ≤ state.tags) := by
  cases heffect with
  | scheduled addr freeList id timerId nextCnt wheel hgenerate hwheel =>
    refine Or.inl ⟨id, by simp [State.issued, Event.issued], rfl, ?_⟩
    subst hwheel
    by_cases hid : id = -1
    · refine Or.inl ⟨hid, ?_⟩
      simp [tags, handled, hid]
    · refine Or.inr ⟨hid, ?_⟩
      simp [tags, handled, hid, reschedule, pending_scheduleNode, Node.tag]
  | missed => exact Or.inr ⟨by simp [State.issued, Event.issued], rfl, le_rfl⟩
  | cancelled n wheel hid hwell hpending =>
    refine Or.inr ⟨by simp [State.issued, Event.issued], rfl, ?_⟩
    refine Multiset.map_le_map ?_
    simpa [handled, hpending] using Multiset.le_cons_self _ n
  | env op => exact Or.inr ⟨rfl, rfl, le_rfl⟩
  | expireEmpty => exact Or.inr ⟨by simp [State.issued, Event.issued], rfl, le_rfl⟩
  | expire hphase hround =>
    obtain ⟨htags, hissued, hscheduled⟩ := hround.trace
    refine Or.inr ⟨hissued, hscheduled, htags.trans ?_⟩
    simp [tags]
  | oneShot hphase honce hround =>
    obtain ⟨htags, hissued, hscheduled⟩ := hround.trace
    rw [filterMap_issued_outcomeEvents] at hissued
    refine Or.inr ⟨hissued, hscheduled, htags.trans ?_⟩
    simp [tags]
  | stopped hphase hperiodic hrepeated =>
    refine Or.inr ⟨filterMap_issued_outcomeEvents _ _ _, rfl, ?_⟩
    simp [tags, handled]
  | rescheduled later hphase hperiodic hrepeated hcatch hround =>
    obtain ⟨htags, hissued, hscheduled⟩ := hround.trace
    rw [filterMap_issued_outcomeEvents] at hissued
    refine Or.inr ⟨hissued, hscheduled, htags.trans ?_⟩
    -- The node comes back with the tag it had.
    simp [tags, handled, hphase, reschedule, pending_scheduleNode, Node.tag, add_comm,
      Multiset.singleton_add]
  | resumed hphase hround =>
    obtain ⟨htags, hissued, hscheduled⟩ := hround.trace
    refine Or.inr ⟨hissued, hscheduled, htags.trans ?_⟩
    simp [tags]

/-- Every action keeps the numbering. -/
theorem Effect.traced {state state' : State cfg} {action : Action}
    (heffect : Effect state action state') (h : Traced state) : Traced state' := by
  rcases heffect.trace with ⟨id, hissued, hscheduled, htags⟩ | ⟨hissued, hscheduled, htags⟩
  · have hnumbered : state'.issued.map Prod.fst = List.range state'.queue.scheduled := by
      rw [hissued, hscheduled, List.map_append, h.numbered, List.range_succ]
      rfl
    have hold : ∀ tag ∈ state.tags, tag ∈ state'.issued ∧ tag.2 ≠ -1 := by
      intro tag htag
      obtain ⟨hmem, hvalid⟩ := h.issued tag htag
      exact ⟨hissued ▸ List.mem_append_left _ hmem, hvalid⟩
    rcases htags with ⟨-, htags⟩ | ⟨hid, htags⟩
    · exact ⟨hnumbered, htags ▸ hold, htags ▸ h.distinct⟩
    · refine ⟨hnumbered, fun tag htag ↦ ?_, ?_⟩
      · rcases Multiset.mem_cons.mp (htags ▸ htag) with rfl | hmem
        · exact ⟨by simp [hissued], hid⟩
        · exact hold tag hmem
      · rw [htags, Multiset.map_cons, Multiset.nodup_cons]
        refine ⟨fun hmem ↦ ?_, h.distinct⟩
        -- The new number is above all that were issued before.
        obtain ⟨tag, htag, heq⟩ := Multiset.mem_map.mp hmem
        have hfst : tag.1 ∈ state.issued.map Prod.fst :=
          List.mem_map_of_mem (h.issued tag htag).1
        rw [h.numbered, List.mem_range, heq] at hfst
        exact lt_irrefl _ hfst
  · refine ⟨?_, fun tag htag ↦ ?_, ?_⟩
    · rw [hissued, hscheduled, h.numbered]
    · rw [hissued]
      exact h.issued tag (Multiset.mem_of_le htags htag)
    · exact Multiset.nodup_of_le (Multiset.map_le_map htags) h.distinct

theorem init_traced (cfg : WheelConfig) (prealloc : ℕ) (env : Env) :
    Traced (init cfg prealloc env) := by
  have htags : (init cfg prealloc env).tags = 0 := by
    simp [init, tags, handled, TimerQueue.init, openI, pending]
  refine ⟨rfl, ?_, ?_⟩
  · simp [htags]
  · simp [htags]

/-- In every state of every run the live timers are told apart by the calls that made them. -/
theorem run_traced {prealloc : ℕ} {env : Env} {actions : List Action} {state : State cfg}
    (hrun : Run (stepOf next) (init cfg prealloc env) actions state) : Traced state := by
  refine Run.invariant Traced hrun (init_traced cfg prealloc env) ?_
  intro middle action last h hnext
  exact (next_cases hnext).traced h

end State

end Exc.Timer
