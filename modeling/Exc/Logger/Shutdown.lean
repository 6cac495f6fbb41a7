import Exc.Logger.LogThread

/-!
# What is logged at shutdown

When `Close` returns, all accepted messages should have been handed to the appenders, in order. The
loop that empties the queue counts up to `GetSize()`, which goes down while it runs, so of a backlog
of `n` events it takes only `n / 2`, rounded up. `second_message_lost` is the shortest such run. A
message with a null byte inside is cut there, since it goes through a `char *`. A message of 2^31
bytes or more has another length as an `int`: it is cut to that, or `strncpy` leaves the buffer and
`Close` does not return (`State.LeavesBuffer`).

`shutdown_complete_iff` says exactly when nothing is lost. The invariant is `Invariant`: `Progress`
relates what was handed over to what was accepted, and `Drained` the counter of the loop to the
backlog. `close_returns` shows that the worker comes to its end, unless the buffer has one byte or a
message is too long.
-/

set_option autoImplicit false
set_option relaxedAutoImplicit false

namespace Exc.Logger

open Lib

/-- The texts of events. -/
def texts (events : List LogEvent) : List (List UInt8) := events.filterMap LogEvent.line?

/-- The event that the worker has taken and not yet processed. -/
def Worker.inHand : Worker → List LogEvent
  | .process event | .drainProcess _ event => [event]
  | _ => []

/-- What goes through the line buffer of a message: its bytes up to the first null byte, and of
these, unless there is no buffer, as many as their number is as an `int`. -/
def throughBuffer (size : ℕ) (msg : List UInt8) : List UInt8 :=
  if size = 0 then cstring msg else (cstring msg).take (intValue (cstring msg).length).toNat

/-- The first messages are done: what was handed over and what is in the buffer are their texts, and
the others are still to come. -/
structure Progress (size : ℕ) (state : State) (done : List (List UInt8)) (data : List UInt8) :
    Prop where
  holds : state.logger.Holds size data
  handed : state.logger.output.flatten ++ data = (done.map (throughBuffer size)).flatten
  accepted : state.accepted = done ++ texts (state.worker.inHand ++ state.queue)

/-- The counter of the second loop is the number of events it has taken from the backlog, at most
half of them, and at its end it is half of them. -/
def Drained (state : State) : Prop :=
  match state.worker with
  | .test | .pop | .process _ => True
  | .drainTest i => state.running = false ∧ ∃ taken, state.backlog = taken ++ state.queue ∧
      taken.length = i ∧ 2 * i ≤ state.backlog.length + 1
  | .drainPop i => state.running = false ∧ ∃ taken, state.backlog = taken ++ state.queue ∧
      taken.length = i ∧ i < state.queue.length
  | .drainProcess i event => state.running = false ∧ ∃ taken,
      state.backlog = taken ++ event :: state.queue ∧ taken.length = i ∧
        2 * (i + 1) ≤ state.backlog.length + 1
  | .ended => state.running = false ∧
      state.queue = state.backlog.drop ((state.backlog.length + 1) / 2)

/-- What holds in every state of every run. -/
structure Invariant (size : ℕ) (state : State) : Prop where
  progress : ∃ done data, Progress size state done data
  nonempty : ∀ msg ∈ state.accepted, msg ≠ []
  stopped : state.running = false → state.closer ≠ .before
  drained : Drained state
  closed : state.closer = .closed → state.worker = .ended ∧ state.logger.bufferPos = 0

variable {size capacity : ℕ} {state result : State}

theorem initial_invariant (nBufferSize : Int32) :
    Invariant nBufferSize.toInt.toNat (initial nBufferSize) where
  progress := ⟨[], [], LoggerImpl.initBuffer_holds nBufferSize.toInt, rfl, rfl⟩
  nonempty := fun _ hmsg ↦ by cases hmsg
  stopped := fun hrunning ↦ by cases hrunning
  drained := trivial
  closed := fun hclosed ↦ by cases hclosed

/-! ### Processing -/

theorem texts_append (events others : List LogEvent) :
    texts (events ++ others) = texts events ++ texts others := List.filterMap_append ..

theorem throughBuffer_begins (size : ℕ) (msg : List UInt8) :
    throughBuffer size msg <+: cstring msg := by
  rw [throughBuffer]
  split_ifs
  · exact List.prefix_rfl
  · exact List.take_prefix _ _

theorem zero_notMem_throughBuffer (size : ℕ) (msg : List UInt8) : 0 ∉ throughBuffer size msg :=
  fun hzero ↦ zero_notMem_cstring msg ((throughBuffer_begins size msg).subset hzero)

/-- The whole message goes through the buffer if it has no null byte and is not too long. -/
theorem throughBuffer_eq_self_iff (size : ℕ) (msg : List UInt8) :
    throughBuffer size msg = msg ↔ 0 ∉ msg ∧ (size = 0 ∨ msg.length < 2147483648) := by
  have hbounds := LoggerImpl.intValue_bounds msg.length
  constructor
  · intro hsame
    have hclean : 0 ∉ msg := by
      rw [← hsame]
      exact zero_notMem_throughBuffer size msg
    refine ⟨hclean, or_iff_not_imp_left.mpr fun hsize ↦ ?_⟩
    rw [throughBuffer, if_neg hsize, cstring_eq_self hclean, List.take_eq_self_iff] at hsame
    omega
  · rintro ⟨hclean, hshort⟩
    rw [throughBuffer, cstring_eq_self hclean]
    split_ifs with hsize
    · rfl
    · have hlength := hshort.resolve_left hsize
      rw [LoggerImpl.intValue_of_small (by omega) (by omega), Int.toNat_natCast, List.take_length]

/-- The text of an event, with what is in the line buffer, has a length that is an `int`; without a
buffer it may have any. -/
def Fits (logger : LoggerImpl) (event : LogEvent) : Prop :=
  ∀ line ∈ texts [event], logger.bufferSize ≠ 0 → line.length + logger.bufferPos < 2147483648

instance (logger : LoggerImpl) (event : LogEvent) : Decidable (Fits logger event) :=
  inferInstanceAs (Decidable (∀ line ∈ texts [event], logger.bufferSize ≠ 0 →
    line.length + logger.bufferPos < 2147483648))

/-- Appending the text of a message: what goes through the buffer of it is appended, or it leaves
the buffer. -/
theorem asyncAppendLineInt_holds {logger : LoggerImpl} {data : List UInt8}
    (h : logger.Holds size data) (hsmall : size < 2147483648) (line : List UInt8) :
    (∀ fuel, logger.asyncAppendLineInt fuel (cstring line) =
        logger.asyncAppendLine fuel (throughBuffer size line)) ∨
    (¬Fits logger (.log line) ∧
      ∀ fuel, logger.asyncAppendLineInt fuel (cstring line) = .error .outside) := by
  rcases Nat.eq_zero_or_pos size with hnull | hsize
  · refine Or.inl fun fuel ↦ ?_
    have hbuffer : logger.bufferSize = 0 := h.bufferSize.trans hnull
    rw [LoggerImpl.asyncAppendLineInt, LoggerImpl.asyncAppendLine, throughBuffer, if_pos hbuffer,
      if_pos hbuffer, if_pos hnull]
  · rcases LoggerImpl.asyncAppendLineInt_cases h.toKeeps hsize hsmall (cstring line) with
      ⟨-, happend⟩ | ⟨hlong, houtside⟩
    · rw [throughBuffer, if_neg hsize.ne']
      exact Or.inl happend
    · refine Or.inr ⟨fun hfits ↦ hlong ?_, houtside⟩
      have hshort := hfits line (List.mem_singleton_self line) (h.bufferSize.trans_ne hsize.ne')
      have hcut := length_cstring_le line
      rw [LoggerImpl.FitsInt, LoggerImpl.intValue_of_small (by omega) (by omega)]
      omega

/-- Processing an event appends what goes through the line buffer of its text. -/
theorem processEvent_spec {fuel : ℕ} {event : LogEvent} {logger processed : LoggerImpl}
    {data : List UInt8} (h : logger.Holds size data) (hsmall : size < 2147483648)
    (hok : processEvent fuel event logger = .ok processed) :
    ∃ held, processed.Holds size held ∧ processed.output.flatten ++ held =
      logger.output.flatten ++ data ++ ((texts [event]).map (throughBuffer size)).flatten := by
  cases event with
  | log line =>
    have hclean := zero_notMem_throughBuffer size line
    simp only [processEvent] at hok
    split_ifs at hok with hempty
    · obtain rfl := Except.ok.inj hok
      have hnil : cstring line = [] := List.length_eq_zero_iff.mp (by omega)
      exact ⟨data, h, by simp [texts, LogEvent.line?, throughBuffer, hnil]⟩
    · rcases asyncAppendLineInt_holds h hsmall line with happend | ⟨-, houtside⟩
      · rw [happend] at hok
        obtain ⟨hfail, -⟩ | ⟨-, appended, held, hdone, hholds, -, houtput⟩ :=
          LoggerImpl.asyncAppendLine_spec h hclean fuel
        · rw [hfail] at hok
          cases hok
        · rw [hdone] at hok
          obtain rfl := Except.ok.inj hok
          exact ⟨held, hholds, by simpa [texts, LogEvent.line?] using houtput⟩
      · rw [houtside] at hok
        cases hok
  | flush =>
    obtain ⟨flushed, hflush, hholds, houtput⟩ := LoggerImpl.flushCache_spec h
    rw [processEvent, hflush] at hok
    obtain rfl := Except.ok.inj hok
    refine ⟨[], hholds, ?_⟩
    rw [show texts [.flush] = [] from rfl, houtput]
    rfl
  | checkDelete =>
    obtain rfl := Except.ok.inj hok
    exact ⟨data, h, (List.append_nil _).symm⟩

/-- An event that fits can be processed when the loop may take enough turns. -/
theorem processEvent_isOk (event : LogEvent) {logger : LoggerImpl} {data : List UInt8}
    (h : logger.Holds size data) (hsmall : size < 2147483648) (hsize : size ≠ 1)
    (hfits : Fits logger event) :
    ∃ fuel processed, processEvent fuel event logger = .ok processed := by
  cases event with
  | log line =>
    have hclean := zero_notMem_throughBuffer size line
    refine ⟨(throughBuffer size line).length, ?_⟩
    simp only [processEvent]
    split_ifs with hempty
    · exact ⟨logger, rfl⟩
    · rcases asyncAppendLineInt_holds h hsmall line with happend | ⟨hlong, -⟩
      · rw [happend]
        obtain ⟨-, -, hone | hfuel⟩ | ⟨-, appended, -, hdone, -⟩ :=
          LoggerImpl.asyncAppendLine_spec h hclean (throughBuffer size line).length
        · exact absurd hone hsize
        · exact absurd hfuel (Nat.lt_irrefl _)
        · exact ⟨appended, hdone⟩
      · exact absurd hfits hlong
  | flush =>
    obtain ⟨flushed, hflush, -⟩ := LoggerImpl.flushCache_spec h
    exact ⟨0, flushed, hflush⟩
  | checkDelete => exact ⟨0, logger, rfl⟩

/-- Only an event that does not fit leaves the buffer. -/
theorem not_fits_of_outside {event : LogEvent} {logger : LoggerImpl} {data : List UInt8}
    (h : logger.Holds size data) (hsmall : size < 2147483648)
    (houtside : ∀ fuel, processEvent fuel event logger = .error .outside) : ¬Fits logger event := by
  cases event with
  | log line =>
    have hfault := houtside (throughBuffer size line).length
    simp only [processEvent] at hfault
    split_ifs at hfault
    rcases asyncAppendLineInt_holds h hsmall line with happend | ⟨hlong, -⟩
    · rw [happend] at hfault
      obtain ⟨hfail, -⟩ | ⟨-, appended, -, hdone, -⟩ := LoggerImpl.asyncAppendLine_spec h
        (zero_notMem_throughBuffer size line) (throughBuffer size line).length
      · rw [hfail] at hfault
        cases hfault
      · rw [hdone] at hfault
        cases hfault
    · exact hlong
  | flush =>
    obtain ⟨flushed, hflush, -⟩ := LoggerImpl.flushCache_spec h
    have hfault := houtside 0
    rw [processEvent, hflush] at hfault
    cases hfault
  | checkDelete =>
    cases houtside 0

/-- The event in hand is done. -/
theorem Progress.process {done : List (List UInt8)} {data : List UInt8} {fuel : ℕ}
    {event : LogEvent} {processed : LoggerImpl} (h : Progress size state done data)
    (hsmall : size < 2147483648) (hhand : state.worker.inHand = [event])
    (hok : processEvent fuel event state.logger = .ok processed) {worker : Worker}
    (hworker : worker.inHand = []) :
    ∃ held, Progress size { state with logger := processed, worker := worker }
      (done ++ texts [event]) held := by
  obtain ⟨held, hholds, houtput⟩ := processEvent_spec h.holds hsmall hok
  refine ⟨held, hholds, ?_, ?_⟩
  · rw [List.map_append, List.flatten_append, ← h.handed]
    exact houtput
  · change state.accepted = _ ++ texts (worker.inHand ++ state.queue)
    rw [h.accepted, hhand, hworker, List.nil_append, texts_append, List.append_assoc]

/-- The worker moves, and what is in hand and in the queue stays the same. -/
theorem Progress.move {done : List (List UInt8)} {data : List UInt8}
    (h : Progress size state done data) (hlogger : result.logger = state.logger)
    (haccepted : result.accepted = state.accepted)
    (hevents : result.worker.inHand ++ result.queue = state.worker.inHand ++ state.queue) :
    Progress size result done data :=
  ⟨hlogger ▸ h.holds, hlogger ▸ h.handed, by rw [haccepted, hevents]; exact h.accepted⟩

/-! ### Steps -/

/-- The rule for the steps of the worker. -/
theorem Invariant.worked (h : Invariant size state) (hworker : state.worker ≠ .ended)
    (hprogress : ∃ done data, Progress size result done data)
    (haccepted : result.accepted = state.accepted) (hrunning : result.running = state.running)
    (hcloser : result.closer = state.closer) (hdrained : Drained result) :
    Invariant size result where
  progress := hprogress
  nonempty := haccepted ▸ h.nonempty
  stopped := by
    rw [hrunning, hcloser]
    exact h.stopped
  drained := hdrained
  closed := by
    rw [hcloser]
    exact fun hclosed ↦ absurd (h.closed hclosed).1 hworker

/-- A step of the worker keeps the invariant. -/
theorem work_invariant {fuel : ℕ} (h : Invariant size state) (hsmall : size < 2147483648)
    (hwork : work state fuel = some result) : Invariant size result := by
  obtain ⟨done, data, hprogress⟩ := h.progress
  have hdrained := h.drained
  unfold work at hwork
  unfold Drained at hdrained
  cases hworker : state.worker with
  | test =>
    simp only [hworker] at hwork
    split_ifs at hwork with hrunning <;> obtain rfl := Option.some.inj hwork
    · exact h.worked (by rw [hworker]; nofun)
        ⟨done, data, hprogress.move rfl rfl (by rw [hworker]; rfl)⟩ rfl rfl rfl trivial
    · exact h.worked (by rw [hworker]; nofun)
        ⟨done, data, hprogress.move rfl rfl (by rw [hworker]; rfl)⟩ rfl rfl rfl
        ⟨by simpa using hrunning, [], rfl, rfl, Nat.zero_le _⟩
  | pop =>
    simp only [hworker] at hwork
    split at hwork
    · cases hwork
    · obtain rfl := Option.some.inj hwork
      exact h.worked (by rw [hworker]; nofun)
        ⟨done, data, hprogress.move rfl rfl (by rw [hworker, ‹state.queue = _›]; rfl)⟩ rfl rfl rfl
        trivial
  | process event =>
    simp only [hworker] at hwork
    split at hwork
    · obtain rfl := Option.some.inj hwork
      exact h.worked (by rw [hworker]; nofun)
        ⟨_, hprogress.process hsmall (by rw [hworker]; rfl) ‹_› rfl⟩ rfl rfl rfl trivial
    · cases hwork
  | drainTest i =>
    simp only [hworker] at hwork hdrained
    obtain ⟨hrunning, taken, hbacklog, htaken, hhalf⟩ := hdrained
    split_ifs at hwork with hless <;> obtain rfl := Option.some.inj hwork
    · exact h.worked (by rw [hworker]; nofun)
        ⟨done, data, hprogress.move rfl rfl (by rw [hworker]; rfl)⟩ rfl rfl rfl
        ⟨hrunning, taken, hbacklog, htaken, hless⟩
    · refine h.worked (by rw [hworker]; nofun)
        ⟨done, data, hprogress.move rfl rfl (by rw [hworker]; rfl)⟩ rfl rfl rfl ⟨hrunning, ?_⟩
      have hlength := congrArg List.length hbacklog
      rw [List.length_append] at hlength
      change state.queue = state.backlog.drop ((state.backlog.length + 1) / 2)
      rw [show (state.backlog.length + 1) / 2 = taken.length by omega, hbacklog,
        List.drop_left' rfl]
  | drainPop i =>
    simp only [hworker] at hwork hdrained
    obtain ⟨hrunning, taken, hbacklog, htaken, hless⟩ := hdrained
    split at hwork
    · cases hwork
    · rename_i event rest hqueue
      obtain rfl := Option.some.inj hwork
      refine h.worked (by rw [hworker]; nofun)
        ⟨done, data, hprogress.move rfl rfl (by rw [hworker, hqueue]; rfl)⟩ rfl rfl rfl
        ⟨hrunning, taken, by rw [← hqueue]; exact hbacklog, htaken, ?_⟩
      change 2 * (i + 1) ≤ state.backlog.length + 1
      rw [hbacklog, List.length_append]
      omega
  | drainProcess i event =>
    simp only [hworker] at hwork hdrained
    obtain ⟨hrunning, taken, hbacklog, htaken, hhalf⟩ := hdrained
    split at hwork
    · obtain rfl := Option.some.inj hwork
      refine h.worked (by rw [hworker]; nofun)
        ⟨_, hprogress.process hsmall (by rw [hworker]; rfl) ‹_› rfl⟩ rfl rfl rfl
        ⟨hrunning, taken ++ [event], ?_, ?_, hhalf⟩
      · rw [List.append_assoc]
        exact hbacklog
      · rw [List.length_append, htaken]
        rfl
    · cases hwork
  | ended =>
    simp only [hworker] at hwork
    cases hwork

/-- A `Pop` that gives up keeps the invariant. -/
theorem giveUp_invariant (h : Invariant size state) (hgive : giveUp state = some result) :
    Invariant size result := by
  obtain ⟨done, data, hprogress⟩ := h.progress
  have hdrained := h.drained
  unfold giveUp at hgive
  unfold Drained at hdrained
  split at hgive
  · rename_i hworker hqueue
    obtain rfl := Option.some.inj hgive
    exact h.worked (by rw [hworker]; nofun)
      ⟨done, data, hprogress.move rfl rfl (by rw [hworker]; rfl)⟩ rfl rfl rfl trivial
  · rename_i i hworker hqueue
    simp only [hworker, hqueue] at hdrained
    obtain ⟨-, -, -, -, hless⟩ := hdrained
    cases hless
  · cases hgive

/-- The worker has left its main loop only if `m_bRunning` is false, and there is nothing to keep
before. -/
theorem Drained.running_or (h : Drained state) :
    state.running = false ∨ ∀ other : State, other.worker = state.worker → Drained other := by
  unfold Drained at h
  cases hworker : state.worker with
  | test | pop | process =>
    refine .inr fun other hother ↦ ?_
    rw [Drained, hother]
    trivial
  | drainTest | drainPop | drainProcess | ended =>
    rw [hworker] at h
    exact .inl h.1

/-- Producers push only while the worker is in its main loop. -/
theorem Invariant.drained_before (h : Invariant size state) (hbefore : state.closer = .before)
    {queue : List LogEvent} {accepted : List (List UInt8)} :
    Drained { state with queue := queue, accepted := accepted } := by
  rcases h.drained.running_or with hstopped | hother
  · exact absurd hbefore (h.stopped hstopped)
  · exact hother _ rfl

/-- A push keeps the invariant. -/
theorem Invariant.pushed (h : Invariant size state) (hbefore : state.closer = .before)
    (event : LogEvent) (hevent : ∀ line ∈ texts [event], line ≠ []) :
    Invariant size { state with
      queue := state.queue ++ [event]
      accepted := state.accepted ++ texts [event] } := by
  obtain ⟨done, data, hprogress⟩ := h.progress
  refine ⟨⟨done, data, hprogress.holds, hprogress.handed, ?_⟩, ?_, h.stopped,
    h.drained_before hbefore, ?_⟩
  · change state.accepted ++ texts [event] =
      done ++ texts (state.worker.inHand ++ (state.queue ++ [event]))
    rw [hprogress.accepted, ← List.append_assoc, texts_append _ [event], List.append_assoc]
  · intro msg hmsg
    rcases List.mem_append.mp hmsg with hold | hnew
    · exact h.nonempty msg hold
    · exact hevent msg hnew
  · intro hclosed
    rw [show state.closer = .closed from hclosed] at hbefore
    cases hbefore

theorem pushLog_invariant {msg : List UInt8} (h : Invariant size state)
    (hbefore : state.closer = .before) (hpush : pushLog capacity state msg = some result) :
    Invariant size result := by
  unfold pushLog at hpush
  split_ifs at hpush with hempty hroom
  · obtain rfl := Option.some.inj hpush
    exact h
  · obtain rfl := Option.some.inj hpush
    exact h.pushed hbefore (.log msg) (by simpa [texts, LogEvent.line?] using hempty)

theorem pushCommand_invariant {command : LogEvent} (h : Invariant size state)
    (hbefore : state.closer = .before) (hcommand : texts [command] = []) :
    Invariant size (pushCommand capacity state command) := by
  unfold pushCommand
  split_ifs
  · have hpushed := h.pushed hbefore command (by rw [hcommand]; nofun)
    rwa [hcommand, List.append_nil] at hpushed
  · exact h

/-- The end of `Close` keeps the invariant. -/
theorem endClose_invariant (h : Invariant size state) (hworker : state.worker = .ended)
    (hend : endClose state = some result) : Invariant size result := by
  obtain ⟨done, data, hprogress⟩ := h.progress
  obtain ⟨flushed, hflush, hholds, houtput⟩ := LoggerImpl.flushCache_spec hprogress.holds
  simp only [endClose, hflush] at hend
  obtain rfl := Option.some.inj hend
  refine ⟨⟨done, [], hholds, ?_, hprogress.accepted⟩, h.nonempty, fun _ ↦ by nofun, h.drained,
    fun _ ↦ ⟨hworker, hholds.pos⟩⟩
  rw [← hprogress.handed, List.append_nil]
  exact houtput

/-- Every step keeps the invariant. -/
theorem next_invariant {action : Action} (h : Invariant size state) (hsmall : size < 2147483648)
    (hnext : next capacity state action = some result) : Invariant size result := by
  unfold next at hnext
  split at hnext
  · exact pushLog_invariant h ‹_› hnext
  · obtain rfl := Option.some.inj hnext
    exact pushCommand_invariant h ‹_› rfl
  · obtain rfl := Option.some.inj hnext
    exact pushCommand_invariant h ‹_› rfl
  · exact work_invariant h hsmall hnext
  · exact giveUp_invariant h hnext
  · obtain rfl := Option.some.inj hnext
    obtain ⟨done, data, hprogress⟩ := h.progress
    refine ⟨⟨done, data, hprogress.move rfl rfl rfl⟩, h.nonempty, fun _ ↦ by nofun, ?_, nofun⟩
    rcases h.drained.running_or with hstopped | hother
    · rw [← hstopped]
      exact h.drained
    · exact hother _ rfl
  · split_ifs at hnext with hworker
    exact endClose_invariant h hworker hnext
  · cases hnext

/-! ### Runs -/

/-- A run of the logger from its start. -/
abbrev Reaches (capacity : ℕ) (nBufferSize : Int32) (actions : List Action) (state : State) :
    Prop :=
  Run (stepOf (next capacity)) (initial nBufferSize) actions state

theorem toNat_toInt_lt (nBufferSize : Int32) : nBufferSize.toInt.toNat < 2147483648 := by
  have hbound := nBufferSize.toInt_lt
  omega

theorem Reaches.invariant {nBufferSize : Int32} {actions : List Action}
    (hrun : Reaches capacity nBufferSize actions state) :
    Invariant nBufferSize.toInt.toNat state :=
  Run.invariant (Invariant nBufferSize.toInt.toNat) hrun (initial_invariant nBufferSize)
    fun _ _ _ h hnext ↦ next_invariant h (toNat_toInt_lt nBufferSize) hnext

/-- How much the worker still has to do after `m_bRunning` has become false. -/
def State.remaining (state : State) : ℕ :=
  match state.worker with
  | .test => 3 * state.queue.length + 2
  | .pop => 3 * state.queue.length + 4
  | .process _ => 3 * state.queue.length + 3
  | .drainTest _ => 3 * state.queue.length + 1
  | .drainPop _ => 3 * state.queue.length
  | .drainProcess _ _ => 3 * state.queue.length + 2
  | .ended => 0

/-- All that is in hand and in the queue fits into an `int`, whatever is in the line buffer. -/
def State.PendingFit (state : State) (size : ℕ) : Prop :=
  ∀ line ∈ texts (state.worker.inHand ++ state.queue),
    size = 0 ∨ line.length + size ≤ 2147483648

theorem State.PendingFit.sublist (h : state.PendingFit size)
    (hevents : (result.worker.inHand ++ result.queue).Sublist
      (state.worker.inHand ++ state.queue)) : result.PendingFit size :=
  fun line hline ↦ h line ((hevents.filterMap LogEvent.line?).subset hline)

theorem State.PendingFit.inHand (h : state.PendingFit size) {data : List UInt8}
    (hholds : state.logger.Holds size data) {event : LogEvent}
    (hhand : state.worker.inHand = [event]) : Fits state.logger event := by
  intro line hline hbuffer
  rw [hholds.bufferSize] at hbuffer
  have hpending : line ∈ texts (state.worker.inHand ++ state.queue) := by
    rw [hhand, texts_append]
    exact List.mem_append_left _ hline
  have hlength := (h line hpending).resolve_left hbuffer
  have hdata := hholds.length_lt (Nat.pos_of_ne_zero hbuffer)
  rw [hholds.pos]
  omega

/-- After `m_bRunning` has become false the worker comes closer to its end with every step, and it
is never stuck. -/
theorem worker_advances (capacity : ℕ) (h : Invariant size state) (hsmall : size < 2147483648)
    (hsize : size ≠ 1) (hpending : state.PendingFit size) (hstopping : state.closer = .stopping)
    (hrunning : state.running = false) (hworker : state.worker ≠ .ended) :
    ∃ action result, next capacity state action = some result ∧ result.closer = .stopping ∧
      result.running = false ∧ result.remaining < state.remaining ∧
      (result.worker.inHand ++ result.queue).Sublist (state.worker.inHand ++ state.queue) := by
  obtain ⟨done, data, hprogress⟩ := h.progress
  have hdrained := h.drained
  cases hplace : state.worker with
  | test =>
    refine ⟨.work 0, { state with worker := .drainTest 0, backlog := state.queue }, ?_, hstopping,
      hrunning, ?_, List.Sublist.refl _⟩
    · simp [next, work, hplace, hrunning]
    · simp [State.remaining, hplace]
  | pop =>
    cases hqueue : state.queue with
    | nil =>
      refine ⟨.giveUp, { state with worker := .test }, ?_, hstopping, hrunning, ?_, ?_⟩
      · simp [next, giveUp, hplace, hqueue]
      · simp [State.remaining, hplace]
      · rw [hqueue]
        exact List.Sublist.refl _
    | cons event rest =>
      refine ⟨.work 0, { state with queue := rest, worker := .process event }, ?_, hstopping,
        hrunning, ?_, List.Sublist.refl _⟩
      · simp [next, work, hplace, hqueue]
      · simp only [State.remaining, hplace, hqueue, List.length_cons]
        omega
  | process event =>
    obtain ⟨fuel, processed, hok⟩ := processEvent_isOk event hprogress.holds hsmall hsize
      (hpending.inHand hprogress.holds (by rw [hplace]; rfl))
    refine ⟨.work fuel, { state with logger := processed, worker := .test }, ?_, hstopping,
      hrunning, ?_, List.sublist_cons_self event state.queue⟩
    · simp [next, work, hplace, hok]
    · simp [State.remaining, hplace]
  | drainTest i =>
    by_cases hless : i < state.queue.length
    · refine ⟨.work 0, { state with worker := .drainPop i }, ?_, hstopping, hrunning, ?_,
        List.Sublist.refl _⟩
      · simp [next, work, hplace, hless]
      · simp [State.remaining, hplace]
    · refine ⟨.work 0, { state with worker := .ended }, ?_, hstopping, hrunning, ?_,
        List.Sublist.refl _⟩
      · simp [next, work, hplace, hless]
      · simp [State.remaining, hplace]
  | drainPop i =>
    simp only [Drained, hplace] at hdrained
    obtain ⟨-, -, -, -, hless⟩ := hdrained
    obtain ⟨event, rest, hqueue⟩ := List.exists_cons_of_length_pos (Nat.zero_lt_of_lt hless)
    refine ⟨.work 0, { state with queue := rest, worker := .drainProcess i event }, ?_, hstopping,
      hrunning, ?_, ?_⟩
    · simp [next, work, hplace, hqueue]
    · simp only [State.remaining, hplace, hqueue, List.length_cons]
      omega
    · rw [hqueue]
      exact List.Sublist.refl _
  | drainProcess i event =>
    obtain ⟨fuel, processed, hok⟩ := processEvent_isOk event hprogress.holds hsmall hsize
      (hpending.inHand hprogress.holds (by rw [hplace]; rfl))
    refine ⟨.work fuel, { state with logger := processed, worker := .drainTest (i + 1) }, ?_,
      hstopping, hrunning, ?_, List.sublist_cons_self event state.queue⟩
    · simp [next, work, hplace, hok]
    · simp [State.remaining, hplace]
  | ended => exact absurd hplace hworker

/-- `Close` can return from wherever the worker is, unless the buffer has one byte or a message is
too long. -/
theorem close_returns (h : Invariant size state) (hsmall : size < 2147483648) (hsize : size ≠ 1)
    (hpending : state.PendingFit size) (hstopping : state.closer = .stopping)
    (hrunning : state.running = false) :
    ∃ actions last, Run (stepOf (next capacity)) state actions last ∧ last.closer = .closed := by
  induction hleft : state.remaining using Nat.strong_induction_on generalizing state with
  | _ left ih =>
    subst hleft
    by_cases hworker : state.worker = .ended
    · obtain ⟨done, data, hprogress⟩ := h.progress
      obtain ⟨flushed, hflush, -⟩ := LoggerImpl.flushCache_spec hprogress.holds
      refine ⟨[.endClose], { state with logger := flushed, closer := .closed },
        Run.head ?_ .refl, rfl⟩
      simp [stepOf, next, hstopping, hworker, endClose, hflush]
    · obtain ⟨action, result, hnext, hresult, hstopped, hless, hevents⟩ :=
        worker_advances capacity h hsmall hsize hpending hstopping hrunning hworker
      obtain ⟨actions, last, hrun, hlast⟩ :=
        ih _ hless (next_invariant h hsmall hnext) (hpending.sublist hevents) hresult hstopped rfl
      exact ⟨action :: actions, last, Run.head hnext hrun, hlast⟩

/-- Texts that are cut at their ends are as long as before only if none of them is shorter. -/
theorem length_flatten_prefix {cut : List UInt8 → List UInt8} (hcut : ∀ msg, cut msg <+: msg)
    (done : List (List UInt8)) :
    (done.map cut).flatten.length ≤ done.flatten.length ∧
      (done.flatten.length ≤ (done.map cut).flatten.length → ∀ msg ∈ done, cut msg = msg) := by
  induction done with
  | nil => exact ⟨le_rfl, fun _ msg hmsg ↦ by cases hmsg⟩
  | cons first rest ih =>
    have hfirst := (hcut first).length_le
    simp only [List.map_cons, List.flatten_cons, List.length_append]
    refine ⟨by omega, fun hlength msg hmsg ↦ ?_⟩
    rcases List.mem_cons.mp hmsg with rfl | hrest
    · exact (hcut msg).eq_of_length (by omega)
    · exact ih.2 (by omega) msg hrest

/-- Cut texts are all messages together only if no byte is missing. -/
theorem flatten_prefix_eq_iff {cut : List UInt8 → List UInt8} (hcut : ∀ msg, cut msg <+: msg)
    {done missing : List (List UInt8)} (hmissing : ∀ msg ∈ missing, msg ≠ []) :
    (done.map cut).flatten = (done ++ missing).flatten ↔
      (∀ msg ∈ done, cut msg = msg) ∧ missing = [] := by
  constructor
  · intro heq
    have hlength := congrArg List.length heq
    rw [List.flatten_append, List.length_append] at hlength
    obtain ⟨hle, hsame⟩ := length_flatten_prefix hcut done
    refine ⟨hsame (by omega), List.eq_nil_iff_forall_not_mem.mpr fun msg hmsg ↦ ?_⟩
    have hnil : missing.flatten = [] := List.length_eq_zero_iff.mp (by omega)
    exact hmissing msg hmsg (List.flatten_eq_nil_iff.mp hnil msg hmsg)
  · rintro ⟨hsame, rfl⟩
    rw [List.append_nil, List.map_congr_left hsame, List.map_id']

/-- The worker leaves the line buffer when it processes the event in hand, however many turns its
loop may take. -/
def State.LeavesBuffer (state : State) : Prop :=
  ∃ event, state.worker.inHand = [event] ∧
    ∀ fuel, processEvent fuel event state.logger = .error .outside

/-- After `Close` has returned all accepted messages were handed to the appenders exactly if the
messages go through the line buffer and the rest of the backlog has none. -/
theorem closed_complete_iff (h : Invariant size state) (hclosed : state.closer = .closed) :
    state.logger.output.flatten = state.accepted.flatten ↔
      (∀ msg ∈ state.accepted, throughBuffer size msg = msg) ∧
        texts (state.backlog.drop ((state.backlog.length + 1) / 2)) = [] := by
  obtain ⟨done, data, hholds, hhanded, haccepted⟩ := h.progress
  obtain ⟨hworker, hpos⟩ := h.closed hclosed
  have hdrained := h.drained
  simp only [Drained, hworker] at hdrained
  have hdata : data = [] := List.length_eq_zero_iff.mp (hholds.pos.symm.trans hpos)
  have hprefix (msg : List UInt8) : throughBuffer size msg <+: msg :=
    (throughBuffer_begins size msg).trans (List.takeWhile_prefix _)
  rw [hworker, hdrained.2, show Worker.ended.inHand = [] from rfl, List.nil_append] at haccepted
  rw [hdata, List.append_nil] at hhanded
  rw [hhanded, haccepted, flatten_prefix_eq_iff hprefix]
  · constructor
    · rintro ⟨hsame, hnone⟩
      refine ⟨fun msg hmsg ↦ ?_, hnone⟩
      rw [hnone, List.append_nil] at hmsg
      exact hsame msg hmsg
    · rintro ⟨hsame, hnone⟩
      exact ⟨fun msg hmsg ↦ hsame msg (List.mem_append_left _ hmsg), hnone⟩
  · intro msg hmsg
    refine h.nonempty msg ?_
    rw [haccepted]
    exact List.mem_append_right _ hmsg

/-- When nothing is lost. In a run that has come to its end, since `Close` has returned or the
worker leaves the line buffer, `Close` has returned and what was handed to the appenders is exactly
the accepted messages in their order, if and only if no message has a null byte or, with a buffer,
2^31 bytes or more, the message in hand fits, and, of the events that were in the queue when the
worker left its main loop, the second half, rounded down, has no message. -/
theorem shutdown_complete_iff {nBufferSize : Int32} {actions : List Action}
    (hrun : Reaches capacity nBufferSize actions state)
    (hend : state.closer = .closed ∨ state.LeavesBuffer) :
    state.closer = .closed ∧ state.logger.output.flatten = state.accepted.flatten ↔
      (∀ msg ∈ state.accepted, 0 ∉ msg ∧ (nBufferSize.toInt ≤ 0 ∨ msg.length < 2147483648)) ∧
        (∀ event ∈ state.worker.inHand, Fits state.logger event) ∧
        texts (state.backlog.drop ((state.backlog.length + 1) / 2)) = [] := by
  have h := hrun.invariant
  have hsmall := toNat_toInt_lt nBufferSize
  rcases hend with hclosed | ⟨event, hhand, houtside⟩
  · have hinHand : state.worker.inHand = [] := by
      rw [(h.closed hclosed).1]
      rfl
    simp only [hclosed, true_and, closed_complete_iff h hclosed, throughBuffer_eq_self_iff,
      Int.toNat_eq_zero, hinHand, List.not_mem_nil, false_imp_iff, implies_true]
  · obtain ⟨done, data, hprogress⟩ := h.progress
    refine iff_of_false ?_ ?_
    · rintro ⟨hclosed, -⟩
      rw [(h.closed hclosed).1] at hhand
      cases hhand
    · rintro ⟨-, hfits, -⟩
      exact not_fits_of_outside hprogress.holds hsmall houtside
        (hfits event (hhand ▸ List.mem_singleton_self event))

/-- Two messages, of which the worker takes one in its main loop and the other one afterwards. -/
theorem shutdown_complete_iff_one_left :
    ∃ state, Reaches 4194304 8
        [.pushLog [72, 105, 10], .work 0, .pushLog [79, 107, 10], .work 0, .close, .work 9, .work 0,
          .work 0, .work 0, .work 9, .work 0, .endClose] state ∧
      state.closer = .closed ∧ state.logger.output.flatten = state.accepted.flatten :=
  ⟨_, Run.of_eval (by decide +kernel),
    (shutdown_complete_iff (Run.of_eval (by decide +kernel)) (.inl (by decide +kernel))).mpr
      ⟨by decide +kernel, by decide +kernel, by decide +kernel⟩⟩

/-- Two messages are in the queue when the worker leaves its main loop, and the second is lost. -/
theorem second_message_lost :
    ∃ state, Reaches 4194304 8
        [.pushLog [72, 105, 10], .pushLog [79, 107, 10], .close, .work 0, .work 0, .work 0, .work 9,
          .work 0, .endClose] state ∧
      state.closer = .closed ∧ state.accepted = [[72, 105, 10], [79, 107, 10]] ∧
      state.logger.output = [[72, 105, 10]] :=
  ⟨_, Run.of_eval (by decide +kernel), by decide +kernel, by decide +kernel, by decide +kernel⟩

end Exc.Logger
