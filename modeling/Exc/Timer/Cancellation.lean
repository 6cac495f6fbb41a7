import Exc.Timer.LiveTimers

/-!
# Cancellation

Once `cancel_timer` has returned for the id of a timer, `handle_timeout` should not be called for it
again. `CancelFinal` says so of a log of calls.

While `handle_timeout` of a periodic timer runs, its node is on no spoke, so `cancel_timer` finds
nothing; afterwards `dispatch_info_i` puts the node back. `cancel_not_final` is the shortest such
run. The other gap is an id that two timers carry: `cancel_timer` takes one of them away and the
other one fires.

`CancelHeeded` is the condition that neither happens: an id is cancelled while at most one pending
timer carries it, and a periodic timer is not put back when its id was cancelled during its own
callback. `cancel_final` shows that in the runs whose steps all meet it, cancellation is final. The
invariant is `Heeded`: no cancelled timer is on the wheel, and the log since the last
`handle_timeout` is the log of the callback that is running.
-/

set_option autoImplicit false
set_option relaxedAutoImplicit false

namespace Exc.Timer

open Lib TimerWheel

variable {cfg : WheelConfig}

/-! ### Logs -/

/-- In the log `cancel_timer` has returned for the id that `schedule` returned for the timer. -/
def Cancelled (log : List Event) (serial : ℕ) : Prop :=
  ∃ before id result after, log = before ++ .cancelReturned id result :: after ∧
    .scheduleReturned serial id ∈ before

/-- No timer fires after it was cancelled. -/
def CancelFinal (log : List Event) : Prop :=
  ∀ first last, log = first ++ last → ∀ serial, Cancelled first serial →
    ∀ event ∈ last, event.fired ≠ some serial

/-- Events that neither fire a timer nor cancel one. -/
def Event.quiet : Event → Bool
  | .handleTimeout _ _ _ _ _ _ => false
  | .cancelReturned _ _ => false
  | _ => true

/-- Whether an event is the return of a `cancel_timer` for the id. -/
def Event.cancels (timerId : ℤ) : Event → Bool
  | .cancelReturned id _ => id = timerId
  | _ => false

theorem cancelled_append_singleton {log : List Event} {event : Event} {serial : ℕ} :
    Cancelled (log ++ [event]) serial ↔ Cancelled log serial ∨
      ∃ id result, event = .cancelReturned id result ∧ .scheduleReturned serial id ∈ log := by
  constructor
  · rintro ⟨before, id, result, after, heq, hmem⟩
    rcases List.eq_nil_or_concat after with rfl | ⟨rest, last, rfl⟩
    · obtain ⟨rfl, hevent⟩ := List.append_inj' heq rfl
      exact Or.inr ⟨id, result, List.singleton_inj.mp hevent, hmem⟩
    · rw [List.concat_eq_append, ← List.cons_append, ← List.append_assoc] at heq
      exact Or.inl ⟨before, id, result, rest, (List.append_inj' heq rfl).1, hmem⟩
  · rintro (⟨before, id, result, after, rfl, hmem⟩ | ⟨id, result, rfl, hmem⟩)
    · exact ⟨before, id, result, after ++ [event], by simp, hmem⟩
    · exact ⟨log, id, result, [], rfl, hmem⟩

theorem CancelFinal.append_singleton {log : List Event} {event : Event} (h : CancelFinal log)
    (hevent : ∀ serial, Cancelled log serial → event.fired ≠ some serial) :
    CancelFinal (log ++ [event]) := by
  intro first last heq serial hcancelled other hother
  rcases List.eq_nil_or_concat last with rfl | ⟨rest, final, rfl⟩
  · cases hother
  · rw [List.concat_eq_append, ← List.append_assoc] at heq
    obtain ⟨hlog, hfinal⟩ := List.append_inj' heq rfl
    obtain rfl := List.singleton_inj.mp hfinal
    rw [List.concat_eq_append, List.mem_append, List.mem_singleton] at hother
    rcases hother with hrest | rfl
    · exact h first rest hlog serial hcancelled other hrest
    · refine hevent serial ?_
      obtain ⟨before, id, result, after, rfl, hmem⟩ := hcancelled
      exact ⟨before, id, result, after ++ rest, by simp [hlog], hmem⟩

theorem Event.fired_of_quiet {event : Event} (hquiet : event.quiet = true) :
    event.fired = none := by
  cases event <;> first | rfl | cases hquiet

/-- Quiet events cancel nothing and fire nothing. -/
theorem quiet_append {log more : List Event} (hquiet : ∀ event ∈ more, event.quiet = true)
    (h : CancelFinal log) :
    CancelFinal (log ++ more) ∧
      ∀ serial, Cancelled (log ++ more) serial → Cancelled log serial := by
  induction more using List.reverseRecOn with
  | nil => simpa using h
  | append_singleton more event ih =>
    obtain ⟨hfinal, hcancelled⟩ := ih fun other hother ↦ hquiet other (by simp [hother])
    have hevent := hquiet event (by simp)
    rw [← List.append_assoc]
    refine ⟨hfinal.append_singleton fun serial _ ↦ ?_, fun serial hserial ↦ ?_⟩
    · rw [Event.fired_of_quiet hevent]
      exact (Option.some_ne_none serial).symm
    · rcases cancelled_append_singleton.mp hserial with hold | ⟨id, result, rfl, -⟩
      · exact hcancelled serial hold
      · cases hevent

theorem outcomeEvents_quiet (ev : Task) (outcome : Outcome) :
    ∀ event ∈ State.outcomeEvents ev outcome, event.quiet = true := by
  cases outcome <;> simp [State.outcomeEvents, Event.quiet]

namespace State

/-! ### The condition -/

/-- The calls since the last entry of a `handle_timeout`. -/
def sinceEntry (state : State cfg) : List Event :=
  state.log.rtakeWhile fun event ↦ event.fired = none

/-- The condition under which a cancellation is heeded. An id is cancelled while at most one pending
timer carries it; and a periodic timer that is about to be put back was not cancelled during its
callback. -/
def CancelHeeded (state : State cfg) : Action → Prop
  | .cancelTimer timerId => (state.queue.wheel.pending.filter (·.timerId = timerId)).card ≤ 1
  | .returnCallback =>
    match state.phase with
    | .handling _ ev expired _ =>
      TimeValue.zero < expired.interval → state.queue.env.stopRepeated ev = false →
        ∀ event ∈ state.sinceEntry, event.cancels expired.timerId = false
    | _ => True
  | _ => True

instance (state : State cfg) (action : Action) : Decidable (state.CancelHeeded action) :=
  match action with
  | .schedule _ _ _ _ _ => .isTrue trivial
  | .cancelTimer _ => inferInstanceAs (Decidable (_ ≤ _))
  | .env _ => .isTrue trivial
  | .expire _ => .isTrue trivial
  | .returnCallback =>
    match hphase : state.phase with
    | .idle => .isTrue (by simp [CancelHeeded, hphase])
    | .stopping _ _ => .isTrue (by simp [CancelHeeded, hphase])
    | .handling _ ev expired _ =>
      decidable_of_iff (TimeValue.zero < expired.interval →
          state.queue.env.stopRepeated ev = false →
          ∀ event ∈ state.sinceEntry, event.cancels expired.timerId = false)
        (by simp [CancelHeeded, hphase])

/-! ### The invariant -/

/-- No cancelled timer fires, none is on the wheel, and the log of a running `handle_timeout` is
what follows its entry. -/
structure Heeded (state : State cfg) : Prop where
  final : CancelFinal state.log
  gone : ∀ serial, Cancelled state.log serial →
    ∀ n ∈ state.queue.wheel.pending, n.serial ≠ serial
  entered : ∀ cur ev expired count, state.phase = .handling cur ev expired count →
    ∃ before event since, state.log = before ++ event :: since ∧
      event.fired = some expired.serial ∧ ∀ later ∈ since, later.fired = none

/-- The invariant does not depend on quiet events. -/
theorem Heeded.append_quiet {state : State cfg} (h : Heeded state) (event : Event)
    (hquiet : event.quiet = true) :
    CancelFinal (state.log ++ [event]) ∧
      (∀ serial, Cancelled (state.log ++ [event]) serial → Cancelled state.log serial) :=
  quiet_append (by simpa using hquiet) h.final

theorem mem_issued {state : State cfg} {serial : ℕ} {id : ℤ}
    (hmem : .scheduleReturned serial id ∈ state.log) : (serial, id) ∈ state.issued :=
  List.mem_filterMap.mpr ⟨_, hmem, rfl⟩

/-- A call that returns while `handle_timeout` runs belongs to the callback. -/
theorem entered_append {state : State cfg} (h : Heeded state) {event : Event}
    (hfired : event.fired = none) (cur : TimeValue) (ev : Task) (expired : Node) (count : ℕ)
    (hphase : state.phase = .handling cur ev expired count) :
    ∃ before entry since, state.log ++ [event] = before ++ entry :: since ∧
      entry.fired = some expired.serial ∧ ∀ later ∈ since, later.fired = none := by
  obtain ⟨before, entry, since, hlog, hentry, hsince⟩ := h.entered cur ev expired count hphase
  refine ⟨before, entry, since ++ [event], by simp [hlog], hentry, fun later hlater ↦ ?_⟩
  rcases List.mem_append.mp hlater with hold | hnew
  · exact hsince later hold
  · rw [List.mem_singleton.mp hnew]
    exact hfired

/-- A round of `expire` fires a timer that is on the wheel, so not a cancelled one. -/
theorem Round.heeded {queue : TimerQueue cfg} {cur : TimeValue} {count : ℕ} {log : List Event}
    {state' : State cfg} (hround : Round queue cur count log state') (hfinal : CancelFinal log)
    (hgone : ∀ serial, Cancelled log serial → ∀ n ∈ queue.wheel.pending, n.serial ≠ serial) :
    Heeded state' := by
  have hreturned := quiet_append (show ∀ event ∈ [Event.expireReturned count], event.quiet = true by
    simp [Event.quiet]) hfinal
  cases hround with
  | returned =>
    refine ⟨hreturned.1, fun serial hserial ↦ hgone serial (hreturned.2 serial hserial), ?_⟩
    rintro _ _ _ _ ⟨⟩
  | dropped n wheel hwell hpending =>
    refine ⟨hreturned.1, fun serial hserial m hm ↦ ?_, ?_⟩
    · exact hgone serial (hreturned.2 serial hserial) m (hpending ▸ Multiset.mem_cons_of_mem hm)
    · rintro _ _ _ _ ⟨⟩
  | entered n wheel ev hwell hpending =>
    refine ⟨hfinal.append_singleton fun serial hserial ↦ ?_, fun serial hserial m hm ↦ ?_, ?_⟩
    · have hne := hgone serial hserial n (hpending ▸ Multiset.mem_cons_self n _)
      simpa [Event.fired] using hne
    · rcases cancelled_append_singleton.mp hserial with hold | ⟨_, _, ⟨⟩, -⟩
      exact hgone serial hold m (hpending ▸ Multiset.mem_cons_of_mem hm)
    · rintro _ _ _ _ ⟨⟩
      exact ⟨log, _, [], rfl, rfl, by simp⟩

/-- A timer that is put back is not a cancelled one: a cancellation before its callback would have
kept the callback from being entered, and one during the callback is what the condition excludes. -/
theorem Heeded.not_cancelled_of_heeded {state : State cfg} (h : Heeded state)
    (htraced : Traced state) (hheeded : CancelHeeded state .returnCallback) {cur : TimeValue}
    {ev : Task} {expired : Node} {count : ℕ}
    (hphase : state.phase = .handling cur ev expired count)
    (hperiodic : TimeValue.zero < expired.interval)
    (hrepeated : state.queue.env.stopRepeated ev = false) :
    ¬ Cancelled state.log expired.serial := by
  rintro ⟨before, id, result, after, hlog, hmem⟩
  obtain ⟨prior, entry, since, hentered, hentry, hsince⟩ :=
    h.entered cur ev expired count hphase
  have hid : expired.timerId = id := by
    have htag : expired.tag ∈ state.tags := by simp [tags, handled, hphase]
    exact htraced.issued_unique (htraced.issued expired.tag htag).1
      (mem_issued (by simp [hlog, hmem]))
  simp only [CancelHeeded, hphase] at hheeded
  have hsinceEntry : state.sinceEntry = since := by
    rw [sinceEntry, hentered, List.rtakeWhile, List.reverse_append, List.reverse_cons,
      List.append_assoc, List.takeWhile_append_of_pos (by simpa using hsince)]
    simp [hentry]
  rcases List.append_eq_append_iff.mp (hlog.symm.trans hentered) with
    ⟨middle, hprior, htail⟩ | ⟨middle, hbefore, htail⟩
  · -- The cancellation came before the entry of the callback.
    cases middle with
    | nil =>
      obtain ⟨rfl, -⟩ := List.cons.inj htail
      cases hentry
    | cons first rest =>
      obtain ⟨rfl, hafter⟩ := List.cons.inj htail
      refine h.final (before ++ [.cancelReturned id result]) after (by simp [hlog]) expired.serial
        ⟨before, id, result, [], rfl, hmem⟩ entry ?_ hentry
      simp [hafter]
  · cases middle with
    | nil =>
      obtain ⟨rfl, -⟩ := List.cons.inj htail
      cases hentry
    | cons first rest =>
      obtain ⟨rfl, hafter⟩ := List.cons.inj htail
      have hmissed := hheeded hperiodic hrepeated (.cancelReturned id result)
        (by simp [hsinceEntry, hafter])
      simp [Event.cancels, hid] at hmissed

/-- `cancel_timer` leaves no timer with the id on the wheel, so none of those that it cancels. -/
theorem Heeded.cancel {state : State cfg} (h : Heeded state) (htraced : Traced state) {id : ℤ}
    {result : ℕ} {pending : Multiset Node} (hle : pending ≤ state.queue.wheel.pending)
    (hnone : id = -1 ∨ ∀ n ∈ pending, n.timerId ≠ id) :
    CancelFinal (state.log ++ [.cancelReturned id result]) ∧
      ∀ serial, Cancelled (state.log ++ [.cancelReturned id result]) serial →
        ∀ n ∈ pending, n.serial ≠ serial := by
  refine ⟨h.final.append_singleton fun serial _ ↦ by simp [Event.fired], ?_⟩
  intro serial hserial n hn heq
  have hpending := Multiset.mem_of_le hle hn
  rcases cancelled_append_singleton.mp hserial with hold | ⟨_, _, hevent, hmem⟩
  · exact h.gone serial hold n hpending heq
  · obtain ⟨rfl, -⟩ := Event.cancelReturned.inj hevent
    obtain ⟨hissued, hvalid⟩ := htraced.issued n.tag (mem_tags_of_pending hpending)
    have hid : n.timerId = id := by
      refine htraced.issued_unique (heq ▸ hissued) (mem_issued hmem)
    rcases hnone with rfl | hnone
    · exact hvalid hid
    · exact hnone n hn hid

/-- Every action that meets the condition keeps the invariant. -/
theorem Effect.heeded {state state' : State cfg} {action : Action}
    (heffect : Effect state action state') (h : Heeded state) (htraced : Traced state)
    (hheeded : CancelHeeded state action) : Heeded state' := by
  cases heffect with
  | scheduled addr freeList id timerId nextCnt wheel hgenerate hwheel =>
    obtain ⟨hfinal, hcancelled⟩ := h.append_quiet (.scheduleReturned _ id) rfl
    refine ⟨hfinal, fun serial hserial ↦ ?_, entered_append h rfl⟩
    have hold := hcancelled serial hserial
    have hnew : serial ≠ state.queue.scheduled := by
      obtain ⟨before, other, result, after, hlog, hmem⟩ := hold
      have hissued : (serial, other) ∈ state.issued := mem_issued (by simp [hlog, hmem])
      have hfst := List.mem_map_of_mem (f := Prod.fst) hissued
      rw [htraced.numbered, List.mem_range] at hfst
      exact hfst.ne
    subst hwheel
    dsimp only
    split_ifs with hid
    · rw [setRoot_pending]
      exact h.gone serial hold
    · rw [reschedule, pending_scheduleNode, setRoot_pending]
      intro n hn
      rcases Multiset.mem_cons.mp hn with rfl | hmem
      · exact hnew.symm
      · exact h.gone serial hold n hmem
  | missed hnone =>
    obtain ⟨hfinal, hgone⟩ := h.cancel htraced le_rfl hnone
    exact ⟨hfinal, hgone, entered_append h rfl⟩
  | cancelled n wheel hid hwell hpending =>
    have hle : wheel.pending ≤ state.queue.wheel.pending := hpending ▸ Multiset.le_cons_self _ n
    have hone : (state.queue.wheel.pending.filter (·.timerId = n.timerId)).card ≤ 1 := hid ▸ hheeded
    have hnone : ∀ m ∈ wheel.pending, m.timerId ≠ n.timerId := by
      rw [hpending, Multiset.filter_cons_of_pos (p := fun m : Node ↦ m.timerId = n.timerId) _ rfl,
        Multiset.card_cons] at hone
      have hzero : wheel.pending.filter (·.timerId = n.timerId) = 0 :=
        Multiset.card_eq_zero.mp (by omega)
      exact Multiset.filter_eq_nil.mp hzero
    obtain ⟨hfinal, hgone⟩ := h.cancel htraced hle (Or.inr (hid ▸ hnone))
    exact ⟨hfinal, hgone, entered_append h rfl⟩
  | env op => exact ⟨h.final, h.gone, h.entered⟩
  | expireEmpty =>
    obtain ⟨hfinal, hcancelled⟩ := h.append_quiet (.expireReturned 0) rfl
    exact ⟨hfinal, fun serial hserial ↦ h.gone serial (hcancelled serial hserial),
      entered_append h rfl⟩
  | expire hphase hround => exact hround.heeded h.final h.gone
  | oneShot hphase honce hround =>
    obtain ⟨hfinal, hcancelled⟩ := quiet_append (outcomeEvents_quiet _ .oneShot) h.final
    exact hround.heeded hfinal fun serial hserial ↦ h.gone serial (hcancelled serial hserial)
  | stopped hphase hperiodic hrepeated =>
    obtain ⟨hfinal, hcancelled⟩ := quiet_append (outcomeEvents_quiet _ .stopped) h.final
    refine ⟨hfinal, fun serial hserial ↦ h.gone serial (hcancelled serial hserial), ?_⟩
    rintro _ _ _ _ ⟨⟩
  | rescheduled later hphase hperiodic hrepeated hcatch hround =>
    obtain ⟨hfinal, hcancelled⟩ := quiet_append (outcomeEvents_quiet _ .rescheduled) h.final
    refine hround.heeded hfinal fun serial hserial n hn ↦ ?_
    have hold := hcancelled serial hserial
    rw [reschedule, pending_scheduleNode] at hn
    rcases Multiset.mem_cons.mp hn with rfl | hmem
    · rintro rfl
      exact h.not_cancelled_of_heeded htraced hheeded hphase hperiodic hrepeated hold
    · exact h.gone serial hold n hmem
  | resumed hphase hround => exact hround.heeded h.final h.gone

/-- In every run whose steps all meet `CancelHeeded`, no timer fires after it was cancelled. -/
theorem cancel_final {prealloc : ℕ} {env : Env} {actions : List Action} {state : State cfg}
    (hrun : Run (guarded CancelHeeded (stepOf next)) (init cfg prealloc env) actions state) :
    CancelFinal state.log := by
  have hboth : Traced state ∧ Heeded state := by
    refine Run.invariant (fun state ↦ Traced state ∧ Heeded state) hrun
      ⟨init_traced cfg prealloc env, ?_⟩ ?_
    · refine ⟨?_, ?_, ?_⟩
      · rintro (_ | _) last heq serial ⟨before, id, result, after, hlog, -⟩
        · simp at hlog
        · simp [init] at heq
      · rintro serial ⟨before, id, result, after, hlog, -⟩
        simp [init] at hlog
      · rintro _ _ _ _ ⟨⟩
    · rintro middle action last ⟨htraced, h⟩ ⟨hheeded, hnext⟩
      exact ⟨(next_cases hnext).traced htraced, (next_cases hnext).heeded h htraced hheeded⟩
  exact hboth.2.final

/-- A periodic timer whose callback cancels it fires again: not every run has only final
cancellations. -/
theorem cancel_not_final :
    ¬ ∀ (cfg : WheelConfig) (prealloc : ℕ) (env : Env) (actions : List Action) (state : State cfg),
      Run (guarded ExpiryPositive (stepOf next)) (init cfg prealloc env) actions state →
        CancelFinal state.log := by
  intro hall
  have hsome : ([.schedule (some 1) 0 0 ⟨1, 0⟩ ⟨1, 0⟩, .expire ⟨101, 0⟩, .cancelTimer 4,
      .returnCallback, .expire ⟨102, 0⟩].foldlM (guardedNext ExpiryPositive next)
        (init smallWheel 0 ⟨⟨100, 0⟩, fun _ ↦ false⟩)).isSome := by decide +kernel
  have hlog : (Option.get _ hsome).log =
      [.scheduleReturned 0 4, .handleTimeout 1 0 4 ⟨100, 0⟩ 0 0, .cancelReturned 4 0] ++
        [.isStopRepeated 1 false, .expireReturned 1, .handleTimeout 1 0 4 ⟨100, 0⟩ 0 0] := by
    decide +kernel +revert
  have hfinal := hall _ _ _ _ _ (Run.of_isSome hsome)
  refine hfinal _ _ hlog 0 ?_ (.handleTimeout 1 0 4 ⟨100, 0⟩ 0 0) (by simp) rfl
  exact ⟨[.scheduleReturned 0 4, .handleTimeout 1 0 4 ⟨100, 0⟩ 0 0], 4, 0, [], rfl, by simp⟩

/-- A periodic timer is cancelled from outside after it has fired, and one-shot timers go on. -/
theorem cancel_final_outside :
    ∃ state : State smallWheel,
      Run (guarded CancelHeeded (stepOf next)) (init smallWheel 0 ⟨⟨100, 0⟩, fun _ ↦ false⟩)
        [.schedule (some 1) 0 0 ⟨1, 0⟩ ⟨1, 0⟩, .schedule (some 2) 0 0 ⟨3, 0⟩ ⟨0, 0⟩,
          .expire ⟨101, 0⟩, .returnCallback, .cancelTimer 4, .expire ⟨103, 0⟩, .returnCallback]
        state ∧ CancelFinal state.log :=
  ⟨_, Run.of_isSome (by decide +kernel), cancel_final (Run.of_isSome (by decide +kernel))⟩

end State

end Exc.Timer
