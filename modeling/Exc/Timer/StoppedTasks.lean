import Exc.Timer.LiveTimers

/-!
# Tasks that were stopped

`stop_repeated` marks a task, and the mark is looked at when a periodic timer of the task has been
dispatched: then the timer is freed and `handle_repeated_timer_stoped` is called, which deletes the
task. The other timers of the task stay on the wheel and are dispatched when they are due
(`stopped_task_is_used`).

`LastTimer` is the condition that the timer that stops a task is its last one, and that no timer is
made for a task that was stopped. In the runs whose steps all meet it a task is stopped once and not
used afterwards (`stopped_once`): no live timer belongs to a task that was stopped.
-/

set_option autoImplicit false
set_option relaxedAutoImplicit false

namespace Exc.Timer

open Lib TimerWheel

variable {cfg : WheelConfig}

/-- The task that an event is a call on. -/
def Event.target : Event → Option Task
  | .handleTimeout task _ _ _ _ _ => some task
  | .isStopRepeated task _ => some task
  | .handleRepeatedTimerStoped task => some task
  | _ => none

/-- A later call is not on a task that an earlier call has stopped. -/
def Event.Respects (earlier later : Event) : Prop :=
  ∀ task, earlier = .handleRepeatedTimerStoped task → later.target ≠ some task

namespace State

/-- No timer is made for a task that was stopped, and when a timer stops its task, no other timer of
the task is on the wheel. -/
def LastTimer (state : State cfg) : Action → Prop
  | .schedule (some task) _ _ _ _ => .handleRepeatedTimerStoped task ∉ state.log
  | .returnCallback =>
    match state.phase with
    | .handling _ ev expired _ =>
      TimeValue.zero < expired.interval → state.queue.env.stopRepeated ev = true →
        ∀ n ∈ state.queue.wheel.pending, n.type ≠ some ev
    | _ => True
  | _ => True

instance (state : State cfg) (action : Action) : Decidable (state.LastTimer action) :=
  match action with
  | .schedule none _ _ _ _ => .isTrue trivial
  | .schedule (some _) _ _ _ _ => inferInstanceAs (Decidable (_ ∉ _))
  | .cancelTimer _ => .isTrue trivial
  | .env _ => .isTrue trivial
  | .expire _ => .isTrue trivial
  | .returnCallback =>
    match hphase : state.phase with
    | .idle => .isTrue (by simp [LastTimer, hphase])
    | .stopping _ _ => .isTrue (by simp [LastTimer, hphase])
    | .handling _ ev expired _ =>
      decidable_of_iff (TimeValue.zero < expired.interval →
        state.queue.env.stopRepeated ev = true →
          ∀ n ∈ state.queue.wheel.pending, n.type ≠ some ev) (by simp only [LastTimer, hphase])

/-- No live timer belongs to a task that was stopped, the callback that is running is one of the
task of its timer, and no call was made on a task after it was stopped. -/
structure Unused (state : State cfg) : Prop where
  live : ∀ task, .handleRepeatedTimerStoped task ∈ state.log →
    ∀ n ∈ state.queue.wheel.pending + state.handled, n.type ≠ some task
  handles : ∀ cur ev expired count, state.phase = .handling cur ev expired count →
    expired.type = some ev
  calls : state.log.Pairwise Event.Respects

/-- Calls on tasks that were not stopped. -/
theorem pairwise_respects_append {log events : List Event} (hlog : log.Pairwise Event.Respects)
    (hevents : events.Pairwise Event.Respects)
    (hnew : ∀ event ∈ events, ∀ task, event.target = some task →
      .handleRepeatedTimerStoped task ∉ log) :
    (log ++ events).Pairwise Event.Respects := by
  refine List.pairwise_append.mpr ⟨hlog, hevents, ?_⟩
  rintro earlier hearlier later hlater task rfl htarget
  exact hnew later hlater task htarget hearlier

/-- A round of `expire` calls `handle_timeout` of the task of a timer that is on the wheel. -/
theorem Round.unused {queue : TimerQueue cfg} {cur : TimeValue} {count : ℕ} {log : List Event}
    {state' : State cfg} (hround : Round queue cur count log state')
    (hlive : ∀ task, .handleRepeatedTimerStoped task ∈ log →
      ∀ n ∈ queue.wheel.pending, n.type ≠ some task)
    (hcalls : log.Pairwise Event.Respects) : Unused state' := by
  cases hround with
  | returned =>
    refine ⟨fun task hmem n hn ↦ ?_, by simp, ?_⟩
    · exact hlive task (by simpa using hmem) n (by simpa [handled] using hn)
    · exact pairwise_respects_append hcalls (List.pairwise_singleton _ _) (by simp [Event.target])
  | dropped n wheel hwell hpending =>
    refine ⟨fun task hmem m hm ↦ ?_, by simp, ?_⟩
    · have hold : m ∈ wheel.pending := by simpa [handled] using hm
      exact hlive task (by simpa using hmem) m (hpending ▸ Multiset.mem_cons_of_mem hold)
    · exact pairwise_respects_append hcalls (List.pairwise_singleton _ _) (by simp [Event.target])
  | entered n wheel ev hwell hpending hroots htype =>
    refine ⟨fun task hmem m hm ↦ ?_, ?_, ?_⟩
    · refine hlive task (by simpa using hmem) m ?_
      rw [hpending, ← Multiset.singleton_add, add_comm]
      exact hm
    · rintro cur' ev' expired count' hphase
      cases hphase
      exact htype
    · refine pairwise_respects_append hcalls (List.pairwise_singleton _ _) fun event hevent task
        htarget hmem ↦ ?_
      obtain rfl := List.mem_singleton.mp hevent
      obtain rfl : ev = task := Option.some.inj htarget
      exact hlive ev hmem n (hpending ▸ Multiset.mem_cons_self n _) htype

/-- A step that makes no call on a task. -/
theorem Unused.append {state state' : State cfg} {event : Event} (h : Unused state)
    (hevent : event.target = none) (hlog : state'.log = state.log ++ [event])
    (hphase : state'.phase = state.phase)
    (hnodes : ∀ task, .handleRepeatedTimerStoped task ∈ state.log →
      ∀ n ∈ state'.queue.wheel.pending, n ∉ state.queue.wheel.pending → n.type ≠ some task) :
    Unused state' := by
  have hstopped : ∀ task, .handleRepeatedTimerStoped task ∈ state'.log →
      .handleRepeatedTimerStoped task ∈ state.log := by
    intro task hmem
    rw [hlog, List.mem_append, List.mem_singleton] at hmem
    refine hmem.resolve_right fun heq ↦ ?_
    rw [← heq] at hevent
    cases hevent
  refine ⟨fun task hmem n hn ↦ ?_, by rw [hphase]; exact h.handles, ?_⟩
  · by_cases hold : n ∈ state.queue.wheel.pending + state.handled
    · exact h.live task (hstopped task hmem) n hold
    · have hhandled : state'.handled = state.handled := by rw [handled, handled, hphase]
      rw [hhandled] at hn
      rw [Multiset.mem_add] at hn hold
      refine hnodes task (hstopped task hmem) n (hn.resolve_right fun hmem ↦ hold (.inr hmem))
        fun hmem ↦ hold (.inl hmem)
  · rw [hlog]
    refine pairwise_respects_append h.calls (List.pairwise_singleton _ _) fun other hother task
      htarget ↦ ?_
    rw [List.mem_singleton.mp hother, hevent] at htarget
    cases htarget

/-- The task of the running callback was not stopped. -/
theorem Unused.not_stopped {state : State cfg} {cur : TimeValue} {ev : Task} {expired : Node}
    {count : ℕ} (h : Unused state) (hphase : state.phase = .handling cur ev expired count) :
    .handleRepeatedTimerStoped ev ∉ state.log := fun hmem ↦
  h.live ev hmem expired (by simp [handled, hphase]) (h.handles cur ev expired count hphase)

/-- Every action that meets the condition keeps the invariant. -/
theorem Effect.unused {state state' : State cfg} {action : Action}
    (heffect : Effect state action state') (h : Unused state) (hlast : state.LastTimer action) :
    Unused state' := by
  have hlive : ∀ task, .handleRepeatedTimerStoped task ∈ state.log →
      ∀ n ∈ state.queue.wheel.pending, n.type ≠ some task :=
    fun task hmem n hn ↦ h.live task hmem n (Multiset.mem_add.mpr (.inl hn))
  cases heffect with
  | scheduled addr freeList id timerId nextCnt wheel hgenerate hwheel hremove =>
    rename_i type act1 act2 future interval
    refine h.append rfl rfl rfl fun task hmem n hn hnew htype ↦ ?_
    subst hwheel
    dsimp only at hn
    split_ifs at hn
    · rw [setRoot_pending] at hn
      exact hnew hn
    · rw [reschedule, pending_scheduleNode, setRoot_pending, Multiset.mem_cons] at hn
      obtain rfl := hn.resolve_right hnew
      obtain rfl : type = some task := htype
      exact hlast hmem
  | missed => exact h.append rfl rfl rfl fun _ _ n hn hnew ↦ absurd hn hnew
  | cancelled n wheel hid hwell hpending =>
    refine h.append rfl rfl rfl fun _ _ m hm hnew ↦ absurd ?_ hnew
    exact hpending ▸ Multiset.mem_cons_of_mem hm
  | env op => exact ⟨h.live, h.handles, h.calls⟩
  | expireEmpty => exact h.append rfl rfl rfl fun _ _ n hn hnew ↦ absurd hn hnew
  | expire hphase hround => exact hround.unused hlive h.calls
  | oneShot hphase honce hround =>
    rw [outcomeEvents, List.append_nil] at hround
    exact hround.unused hlive h.calls
  | stopped hphase hperiodic hrepeated =>
    rename_i cur ev expired count
    have hnot := h.not_stopped hphase
    simp only [LastTimer, hphase] at hlast
    refine ⟨fun task hmem n hn ↦ ?_, by simp, ?_⟩
    · have hpending : n ∈ state.queue.wheel.pending := by simpa [handled] using hn
      simp only [outcomeEvents, List.mem_append, List.mem_cons, reduceCtorEq, false_or,
        List.not_mem_nil, or_false, Event.handleRepeatedTimerStoped.injEq] at hmem
      obtain hold | rfl := hmem
      · exact hlive task hold n hpending
      · exact hlast hperiodic hrepeated n hpending
    · refine pairwise_respects_append h.calls ?_ ?_
      · simp [outcomeEvents, Event.Respects]
      · intro event hevent task htarget
        simp only [outcomeEvents, List.mem_cons, List.not_mem_nil, or_false] at hevent
        obtain rfl | rfl := hevent <;> obtain rfl := Option.some.inj htarget <;> exact hnot
  | rescheduled later hphase hperiodic hrepeated hcatch hround =>
    rename_i cur ev expired count
    have hnot := h.not_stopped hphase
    refine hround.unused (fun task hmem n hn ↦ ?_) ?_
    · have hold : .handleRepeatedTimerStoped task ∈ state.log := by
        simpa [outcomeEvents] using hmem
      rw [reschedule, pending_scheduleNode, Multiset.mem_cons] at hn
      obtain rfl | hpending := hn
      · exact h.live task hold expired (by simp [handled, hphase])
      · exact hlive task hold n hpending
    · refine pairwise_respects_append h.calls (List.pairwise_singleton _ _) ?_
      intro event hevent task htarget
      obtain rfl := List.mem_singleton.mp hevent
      obtain rfl := Option.some.inj htarget
      exact hnot
  | resumed hphase hround => exact hround.unused hlive h.calls

theorem init_unused (cfg : WheelConfig) (prealloc : ℕ) (env : Env) :
    Unused (init cfg prealloc env) where
  live := fun task hmem ↦ absurd hmem List.not_mem_nil
  handles := by simp [init]
  calls := List.Pairwise.nil

/-- In every run whose steps all meet `LastTimer`, `handle_repeated_timer_stoped` is called at most
once for a task, and no call on the task follows it. -/
theorem stopped_once {prealloc : ℕ} {env : Env} {actions : List Action} {state : State cfg}
    (hrun : Run (guarded LastTimer (stepOf next)) (init cfg prealloc env) actions state)
    (task : Task) :
    state.log.count (.handleRepeatedTimerStoped task) ≤ 1 ∧
      ∀ before after, state.log = before ++ .handleRepeatedTimerStoped task :: after →
        ∀ event ∈ after, event.target ≠ some task := by
  have h : Unused state := by
    refine Run.invariant Unused hrun (init_unused cfg prealloc env) ?_
    rintro middle action last h ⟨hlast, hnext⟩
    exact (next_cases hnext).unused h hlast
  constructor
  · by_contra hcount
    have htwice := List.replicate_sublist_iff.mpr (not_le.mp hcount)
    have hpair := h.calls.sublist htwice
    exact List.rel_of_pairwise_cons hpair (List.mem_singleton_self _) task rfl rfl
  · rintro before after hlog event hevent
    have hcalls := h.calls
    rw [hlog] at hcalls
    exact List.rel_of_pairwise_cons (List.pairwise_append.mp hcalls).2.1 hevent task rfl

/-- A task with a one-shot and a periodic timer: the first has fired when the task is stopped. -/
theorem stopped_once_after_oneShot :
    ∃ state : State smallWheel,
      Run (guarded LastTimer (stepOf next)) (init smallWheel 0 ⟨⟨100, 0⟩, fun _ ↦ false⟩)
        [.schedule (some 1) 0 0 ⟨1, 0⟩ ⟨0, 0⟩, .schedule (some 1) 0 0 ⟨1, 0⟩ ⟨1, 0⟩,
          .env (.stopRepeated 1), .expire ⟨101, 0⟩, .returnCallback, .returnCallback,
          .returnCallback] state ∧
      .handleRepeatedTimerStoped 1 ∈ state.log ∧
      state.log.count (.handleRepeatedTimerStoped 1) ≤ 1 :=
  ⟨_, Run.of_isSome (by decide +kernel), by decide +kernel,
    (stopped_once (Run.of_isSome (by decide +kernel)) 1).1⟩

/-- A task with two periodic timers is stopped: it is called again after it was stopped, and stopped
twice. -/
theorem stopped_task_is_used :
    ∃ state : State smallWheel,
      Run (guarded ExpiryPositive (stepOf next)) (init smallWheel 0 ⟨⟨100, 0⟩, fun _ ↦ false⟩)
        [.schedule (some 1) 0 0 ⟨1, 0⟩ ⟨1, 0⟩, .schedule (some 1) 0 0 ⟨1, 0⟩ ⟨1, 0⟩,
          .env (.stopRepeated 1), .expire ⟨101, 0⟩, .returnCallback, .returnCallback,
          .returnCallback] state ∧
      state.log.drop 2 =
        [.handleTimeout 1 0 4 ⟨100, 0⟩ 0 0, .isStopRepeated 1 true, .handleRepeatedTimerStoped 1,
          .handleTimeout 1 1 12 ⟨100, 0⟩ 0 0, .isStopRepeated 1 true,
          .handleRepeatedTimerStoped 1] :=
  ⟨_, Run.of_isSome (by decide +kernel), by decide +kernel⟩

end State

end Exc.Timer
