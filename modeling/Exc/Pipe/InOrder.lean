import Exc.Lib.Slots
import Exc.Pipe.Pipe

/-!
# The pipeline delivers in order what it does not overwrite

`pipe_send` does not look at `data_ready`, so a value that is still in a stage is lost when the next
one comes (`started_value_is_lost`). In every run in which `pipe_send` never finds data in the stage
that it writes to, the pipeline is a first-in first-out queue (`pipe_in_order`).

A stage whose thread has already sent the data on still has it until the thread clears
`data_ready`, so the slot of a stage is empty in that state (`State.slot`). The invariant is that
what was delivered and what is in the slots, the last one first, are the values started, in their
order, and that a value has grown by the number of its stage (`InOrder`).
-/

set_option autoImplicit false
set_option relaxedAutoImplicit false

namespace Exc.Pipe

open Lib

/-- The stage that a step of `pipe_send` writes to. -/
def Action.target : Action → Option ℕ
  | .startSend => some 0
  | .send i => some (i + 1)
  | _ => none

/-- `pipe_send` writes to a stage without data. -/
def SendsToEmpty (state : State) (action : Action) : Prop :=
  ∀ i ∈ action.target, (state.stages i).dataReady = false

instance (state : State) (action : Action) : Decidable (SendsToEmpty state action) :=
  inferInstanceAs (Decidable (∀ i ∈ action.target, _))

/-- The value that a stage has to hand on, by the number of its start. -/
def State.slot (state : State) (i : ℕ) : Option ℕ :=
  if (state.stages i).dataReady = true ∧ state.places i ≠ .clearing then
    some (state.stages i).data.start
  else none

/-- The value with this number is that of its start, so much larger. -/
def HasGrown (started : List (BitVec 64)) (data : Datum) (amount : ℕ) : Prop :=
  ∃ value, started[data.start]? = some value ∧ data.value = value + BitVec.ofNat 64 amount

/-- The calls of the main thread that have changed `active` and are not over. -/
def Main.pending : Main → ℤ
  | .idle => 0
  | .sending _ => -1
  | .taking | .waiting => 1

/-- The invariant of the pipeline. -/
structure InOrder (stages : ℕ) (state : State) : Prop where
  order : state.delivered.map Datum.start ++ contents state.slot stages =
    List.range state.started.length
  grown : ∀ i ≤ stages, (state.stages i).dataReady = true →
    HasGrown state.started (state.stages i).data i
  delivered : ∀ data ∈ state.delivered, HasGrown state.started data stages
  sending : ∀ i data, state.places i = .sending data → (state.stages i).dataReady = true ∧
    data = ⟨(state.stages i).data.start, (state.stages i).data.value + 1⟩
  outside : ∀ i, stages ≤ i → state.places i = .locking
  count : (state.started.length : ℤ) = state.delivered.length + state.active + state.main.pending

variable {stages : ℕ} {state result : State}

theorem inOrder_initial : InOrder stages initial where
  order := by
    have hempty : contents initial.slot stages = [] := by
      rw [List.eq_nil_iff_forall_not_mem]
      intro number hnumber
      obtain ⟨i, -, hslot⟩ := mem_contents.mp hnumber
      cases hslot
    rw [hempty]
    rfl
  grown _ _ hready := by cases hready
  delivered := List.forall_mem_nil _
  sending _ _ hplace := by cases hplace
  outside _ _ := rfl
  count := rfl

/-! ### Places and values -/

theorem HasGrown.append {started : List (BitVec 64)} {data : Datum} {amount : ℕ}
    (h : HasGrown started data amount) (more : List (BitVec 64)) :
    HasGrown (started ++ more) data amount := by
  obtain ⟨value, hvalue, hdata⟩ := h
  refine ⟨value, ?_, hdata⟩
  rw [List.getElem?_append_left (List.getElem?_eq_some_iff.mp hvalue).1, hvalue]

/-- What a thread sends is larger by one. -/
theorem HasGrown.succ {started : List (BitVec 64)} {data : Datum} {amount : ℕ}
    (h : HasGrown started data amount) :
    HasGrown started ⟨data.start, data.value + 1⟩ (amount + 1) := by
  obtain ⟨value, hvalue, hdata⟩ := h
  refine ⟨value, hvalue, ?_⟩
  rw [hdata, BitVec.ofNat_add, BitVec.add_assoc]
  rfl

/-- A thread that does not hold its mutex is about to lock it once it is woken. -/
theorem wake_of_not_holds {place : Place} (hplace : place.holds = false) :
    place.wake = .locking := by
  cases place with
  | locking | waiting => rfl
  | sending _ | clearing => cases hplace

theorem wake_pending (main : Main) : main.wake.pending = main.pending := by
  cases main <;> rfl

theorem slot_congr {other : State} {i : ℕ} (hstage : other.stages i = state.stages i)
    (hplace : other.places i = .clearing ↔ state.places i = .clearing) :
    other.slot i = state.slot i := by
  simp only [State.slot, hstage, ne_eq, hplace]

/-- A value that is written to a stage whose mutex is free is in its slot. -/
theorem slot_pipeSend {i : ℕ} {data : Datum} (hfree : state.held i = false) :
    (state.pipeSend stages i data).slot = Function.update state.slot i (some data.start) := by
  funext j
  by_cases hj : j = i
  · subst hj
    simp [State.slot, State.pipeSend, wake_of_not_holds hfree]
  · rw [Function.update_of_ne hj]
    refine slot_congr ?_ ?_
    · simp [State.pipeSend, hj]
    · simp [State.pipeSend, hj]

/-! ### Writing to a stage

What the invariant says of the stages and places stays true when `pipe_send` writes to a stage whose
mutex is free: no thread is at work on that stage.
-/

theorem grown_pipeSend {started : List (BitVec 64)} {target : ℕ} {data : Datum}
    (hgrown : ∀ i ≤ stages, (state.stages i).dataReady = true →
      HasGrown started (state.stages i).data i) (hdata : HasGrown started data target) :
    ∀ i ≤ stages, ((state.pipeSend stages target data).stages i).dataReady = true →
      HasGrown started ((state.pipeSend stages target data).stages i).data i := by
  intro i hi hready
  by_cases htarget : i = target
  · subst htarget
    simpa [State.pipeSend] using hdata
  · simp only [State.pipeSend, Function.update_of_ne htarget] at hready ⊢
    exact hgrown i hi hready

theorem sending_pipeSend (stages : ℕ) {target : ℕ} {sent : Datum}
    (hfree : state.held target = false)
    (hsending : ∀ i data, state.places i = .sending data → (state.stages i).dataReady = true ∧
      data = ⟨(state.stages i).data.start, (state.stages i).data.value + 1⟩) :
    ∀ i data, (state.pipeSend stages target sent).places i = .sending data →
      ((state.pipeSend stages target sent).stages i).dataReady = true ∧
      data = ⟨((state.pipeSend stages target sent).stages i).data.start,
        ((state.pipeSend stages target sent).stages i).data.value + 1⟩ := by
  intro i data hplace
  by_cases htarget : i = target
  · subst htarget
    simp [State.pipeSend, wake_of_not_holds hfree] at hplace
  · simp only [State.pipeSend, Function.update_of_ne htarget] at hplace ⊢
    exact hsending i data hplace

theorem outside_pipeSend {target : ℕ} (data : Datum) (hfree : state.held target = false)
    (houtside : ∀ i, stages ≤ i → state.places i = .locking) :
    ∀ i, stages ≤ i → (state.pipeSend stages target data).places i = .locking := by
  intro i hi
  by_cases htarget : i = target
  · subst htarget
    simp [State.pipeSend, wake_of_not_holds hfree]
  · simpa only [State.pipeSend, Function.update_of_ne htarget] using houtside i hi

/-! ### One step -/

/-- A step of the main thread that touches no stage. -/
theorem InOrder.move_main (h : InOrder stages state) {active : ℤ} {main : Main}
    (hcount : active + main.pending = state.active + state.main.pending) :
    InOrder stages { state with active := active, main := main } := by
  refine ⟨h.order, h.grown, h.delivered, h.sending, h.outside, ?_⟩
  have hstarted := h.count
  dsimp only
  omega

theorem pipeStart_inOrder (h : InOrder stages state) {value : BitVec 64}
    (hstep : state.pipeStart value = some result) : InOrder stages result := by
  simp only [State.pipeStart] at hstep
  split at hstep
  · rename_i hmain
    obtain rfl := Option.some.inj hstep
    refine h.move_main ?_
    rw [hmain, Main.pending, Main.pending]
    omega
  · cases hstep

theorem startSend_inOrder (h : InOrder stages state)
    (hguard : (state.stages 0).dataReady = false)
    (hstep : state.startSend stages = some result) : InOrder stages result := by
  simp only [State.startSend] at hstep
  split at hstep
  · rename_i value hmain
    split_ifs at hstep with hheld
    obtain rfl := Option.some.inj hstep
    have hfree : state.held 0 = false := by simpa using hheld
    have hempty : state.slot 0 = none := by simp [State.slot, hguard]
    have hcount := h.count
    rw [hmain] at hcount
    constructor
    · have hslots : (State.pipeSend stages { state with main := .idle } 0
          ⟨state.started.length, value⟩).slot =
          Function.update state.slot 0 (some state.started.length) := slot_pipeSend hfree
      change state.delivered.map Datum.start ++ contents
        (State.pipeSend stages { state with main := .idle } 0 ⟨state.started.length, value⟩).slot
        stages = List.range (state.started ++ [value]).length
      rw [hslots, contents_put hempty, ← List.append_assoc, h.order, List.length_append,
        List.length_singleton, List.range_succ]
    · refine grown_pipeSend (fun i hi hready ↦ (h.grown i hi hready).append _) ?_
      exact ⟨value, by simp, by simp⟩
    · exact fun data hdata ↦ (h.delivered data hdata).append _
    · exact sending_pipeSend stages hfree h.sending
    · exact outside_pipeSend ⟨state.started.length, value⟩ hfree h.outside
    · simp only [State.pipeSend, Main.wake, ite_self, Main.pending, List.length_append,
        List.length_singleton] at hcount ⊢
      push_cast
      omega
  · cases hstep

theorem pipeResult_inOrder (h : InOrder stages state) (hstep : state.pipeResult = some result) :
    InOrder stages result := by
  simp only [State.pipeResult] at hstep
  split at hstep
  · rename_i hmain
    split_ifs at hstep with hactive
    · obtain rfl := Option.some.inj hstep
      exact h
    · obtain rfl := Option.some.inj hstep
      refine h.move_main ?_
      rw [hmain, Main.pending, Main.pending]
      omega
  · cases hstep

theorem take_inOrder (h : InOrder stages state) (hstep : state.take stages = some result) :
    InOrder stages result := by
  simp only [State.take] at hstep
  split at hstep
  · rename_i hmain
    have hcount := h.count
    rw [hmain] at hcount
    split_ifs at hstep with hheld hready
    · obtain rfl := Option.some.inj hstep
      have hplace := h.outside stages le_rfl
      have hslot : state.slot stages = some (state.stages stages).data.start := by
        simp [State.slot, hready, hplace]
      constructor
      · have hslots : State.slot { state with
            stages := Function.update state.stages stages
              { state.stages stages with dataReady := false }
            main := .idle
            delivered := state.delivered ++ [(state.stages stages).data] } =
            Function.update state.slot stages none := by
          funext i
          by_cases hi : i = stages
          · subst hi
            simp [State.slot]
          · simp [State.slot, hi]
        have horder := h.order
        rw [contents_take hslot] at horder
        rw [hslots]
        simpa using horder
      · intro i hi hready
        by_cases heq : i = stages
        · subst heq
          simp at hready
        · simp only [Function.update_of_ne heq] at hready ⊢
          exact h.grown i hi hready
      · rw [List.forall_mem_append, List.forall_mem_singleton]
        exact ⟨h.delivered, h.grown stages le_rfl hready⟩
      · intro i data hsending
        by_cases heq : i = stages
        · subst heq
          rw [hplace] at hsending
          cases hsending
        · simp only [Function.update_of_ne heq]
          exact h.sending i data hsending
      · exact h.outside
      · simp only [Main.pending, List.length_append, List.length_singleton] at hcount ⊢
        push_cast
        omega
    · obtain rfl := Option.some.inj hstep
      exact ⟨h.order, h.grown, h.delivered, h.sending, h.outside, hcount⟩
  · cases hstep

/-- A thread moves between two places without changing any stage or slot. -/
theorem InOrder.move (h : InOrder stages state) {i : ℕ} {place : Place}
    (hi : i < stages ∨ place = .locking) (hbefore : state.places i ≠ .clearing)
    (hafter : place ≠ .clearing)
    (hsending : ∀ data, place = .sending data → (state.stages i).dataReady = true ∧
      data = ⟨(state.stages i).data.start, (state.stages i).data.value + 1⟩) :
    InOrder stages { state with places := Function.update state.places i place } := by
  refine ⟨?_, h.grown, h.delivered, fun j data hplace ↦ ?_, fun j hj ↦ ?_, h.count⟩
  · have hslots : ∀ j ≤ stages,
        State.slot { state with places := Function.update state.places i place } j =
          state.slot j := by
      intro j _
      refine slot_congr rfl ?_
      by_cases hj : j = i
      · subst hj
        simp [hbefore, hafter]
      · simp [hj]
    rw [contents_congr hslots]
    exact h.order
  · by_cases hji : j = i
    · subst hji
      exact hsending data (by simpa using hplace)
    · simp only [Function.update_of_ne hji] at hplace
      exact h.sending j data hplace
  · by_cases hji : j = i
    · subst hji
      simpa using hi.resolve_left (by omega)
    · simp only [Function.update_of_ne hji]
      exact h.outside j hj

theorem lock_inOrder (h : InOrder stages state) {i : ℕ} (hi : i < stages)
    (hstep : state.lock i = some result) : InOrder stages result := by
  simp only [State.lock] at hstep
  split at hstep
  · rename_i hplace
    obtain rfl := Option.some.inj hstep
    refine h.move (Or.inl hi) (by simp [hplace]) ?_ ?_
    · split_ifs <;> simp
    · intro data hdata
      split_ifs at hdata with hready
      · cases hdata
        exact ⟨hready, rfl⟩
  · cases hstep

theorem send_inOrder (h : InOrder stages state) {i : ℕ} (hi : i < stages)
    (hguard : (state.stages (i + 1)).dataReady = false)
    (hstep : state.send stages i = some result) : InOrder stages result := by
  simp only [State.send] at hstep
  split at hstep
  · rename_i data hplace
    split_ifs at hstep with hheld
    obtain rfl := Option.some.inj hstep
    obtain ⟨hready, rfl⟩ := h.sending i data hplace
    have hne : i + 1 ≠ i := by omega
    have hfree : State.held { state with places := Function.update state.places i .clearing }
        (i + 1) = false := by
      simpa [State.held, Function.update_of_ne hne] using hheld
    have hwake := wake_of_not_holds hfree
    have hslot : state.slot i = some (state.stages i).data.start := by
      simp [State.slot, hready, hplace]
    have hempty : state.slot (i + 1) = none := by simp [State.slot, hguard]
    constructor
    · rw [slot_pipeSend hfree]
      have hcleared : State.slot { state with
          places := Function.update state.places i .clearing } =
          Function.update state.slot i none := by
        funext j
        by_cases hj : j = i
        · subst hj
          simp [State.slot]
        · rw [Function.update_of_ne hj]
          exact slot_congr rfl (by simp [hj])
      rw [hcleared, Function.update_comm hne.symm, contents_move hslot hempty hi]
      exact h.order
    · exact grown_pipeSend h.grown (h.grown i hi.le hready).succ
    · exact h.delivered
    · refine sending_pipeSend stages hfree fun j other hother ↦ ?_
      by_cases hji : j = i
      · subst hji
        simp at hother
      · exact h.sending j other (by simpa [hji] using hother)
    · refine outside_pipeSend _ hfree fun j hj ↦ ?_
      exact (Function.update_of_ne (by omega) _ _).trans (h.outside j hj)
    · have hmain : (if i + 1 = stages then state.main.wake else state.main).pending =
          state.main.pending := by
        split_ifs
        · exact wake_pending state.main
        · rfl
      simp only [State.pipeSend, hmain]
      exact h.count
  · cases hstep

theorem clear_inOrder (h : InOrder stages state) {i : ℕ} (hi : i < stages)
    (hstep : state.clear i = some result) : InOrder stages result := by
  simp only [State.clear] at hstep
  split at hstep
  · rename_i hplace
    obtain rfl := Option.some.inj hstep
    refine ⟨?_, fun j hj hready ↦ ?_, h.delivered, fun j data hsending ↦ ?_, fun j hj ↦ ?_, h.count⟩
    · refine (congrArg (_ ++ ·) (contents_congr fun j _ ↦ ?_)).trans h.order
      by_cases hji : j = i
      · subst hji
        simp [State.slot, hplace]
      · exact slot_congr (by simp [hji]) (by simp [hji])
    · by_cases hji : j = i
      · subst hji
        simp at hready
      · simp only [Function.update_of_ne hji] at hready ⊢
        exact h.grown j hj hready
    · by_cases hji : j = i
      · subst hji
        simp at hsending
      · simp only [Function.update_of_ne hji] at hsending ⊢
        exact h.sending j data hsending
    · simp only [Function.update_of_ne (show j ≠ i by omega)]
      exact h.outside j hj
  · cases hstep

/-- Every step that sends to an empty stage keeps the order. -/
theorem next_inOrder {action : Action} (h : InOrder stages state)
    (hguard : SendsToEmpty state action) (hnext : next stages state action = some result) :
    InOrder stages result := by
  cases action with
  | start value => exact pipeStart_inOrder h hnext
  | startSend => exact startSend_inOrder h (hguard 0 rfl) hnext
  | result => exact pipeResult_inOrder h hnext
  | take => exact take_inOrder h hnext
  | lock i =>
    simp only [next] at hnext
    split_ifs at hnext with hi
    exact lock_inOrder h hi hnext
  | send i =>
    simp only [next] at hnext
    split_ifs at hnext with hi
    exact send_inOrder h hi (hguard (i + 1) rfl) hnext
  | clear i =>
    simp only [next] at hnext
    split_ifs at hnext with hi
    exact clear_inOrder h hi hnext
  | spurious i =>
    simp only [next] at hnext
    split_ifs at hnext with hplace
    obtain rfl := Option.some.inj hnext
    exact h.move (Or.inr rfl) (by simp [hplace]) (by simp) (by simp)
  | spuriousMain =>
    simp only [next] at hnext
    split_ifs at hnext with hmain
    obtain rfl := Option.some.inj hnext
    have hcount := h.count
    rw [hmain] at hcount
    exact ⟨h.order, h.grown, h.delivered, h.sending, h.outside, hcount⟩

/-! ### What a run delivers -/

/-- What the pipeline promises: the results are the values of the starts in their order, larger by
the number of threads, each of them once; every value that was put in and not taken out is in some
stage; and while `active` is positive and no `pipe_start` is on its way there is such a value. -/
structure LosesNothing (stages : ℕ) (state : State) : Prop where
  delivered : ∀ (k : ℕ) (data : Datum), state.delivered[k]? = some data →
    data.start = k ∧ ∃ value, state.started[k]? = some value ∧
      data.value = value + BitVec.ofNat 64 stages
  stored : ∀ (k : ℕ) (value : BitVec 64), state.started[k]? = some value →
    state.delivered.length ≤ k → ∃ i ≤ stages, (state.stages i).dataReady = true ∧
      (state.stages i).data = ⟨k, value + BitVec.ofNat 64 i⟩
  active : 0 < state.active → (∀ value, state.main ≠ .sending value) →
    state.delivered.length < state.started.length

theorem InOrder.losesNothing (h : InOrder stages state) : LosesNothing stages state := by
  have hlength : state.delivered.length ≤ state.started.length := by
    have hlengths := congrArg List.length h.order
    rw [List.length_append, List.length_map, List.length_range] at hlengths
    omega
  constructor
  · intro k data hdata
    have hk : k < state.delivered.length := (List.getElem?_eq_some_iff.mp hdata).1
    have hstart : (List.range state.started.length)[k]? = some data.start := by
      rw [← h.order, List.getElem?_append_left (by simpa using hk), List.getElem?_map, hdata]
      rfl
    rw [List.getElem?_range (by omega), Option.some.injEq] at hstart
    obtain ⟨value, hvalue, hgrown⟩ := h.delivered data (List.mem_of_getElem? hdata)
    rw [← hstart] at hvalue
    exact ⟨hstart.symm, value, hvalue, hgrown⟩
  · intro k value hvalue hk
    have hlt : k < state.started.length := (List.getElem?_eq_some_iff.mp hvalue).1
    have hcontents : k ∈ contents state.slot stages := by
      have hget : (List.range state.started.length)[k]? = some k := List.getElem?_range hlt
      rw [← h.order, List.getElem?_append_right (by simpa using hk)] at hget
      exact List.mem_of_getElem? hget
    obtain ⟨i, hi, hslot⟩ := mem_contents.mp hcontents
    rw [State.slot] at hslot
    split_ifs at hslot with hready
    have hstart : (state.stages i).data.start = k := Option.some.inj hslot
    obtain ⟨found, hfound, hgrown⟩ := h.grown i hi hready.1
    rw [hstart] at hfound
    obtain rfl : value = found := Option.some.inj (hvalue.symm.trans hfound)
    refine ⟨i, hi, hready.1, ?_⟩
    rw [← hstart, ← hgrown]
  · intro hactive hmain
    have hcount := h.count
    have hpending : 0 ≤ state.main.pending := by
      cases hplace : state.main with
      | sending value => exact absurd hplace (hmain value)
      | idle | taking | waiting => simp [Main.pending]
    omega

/-- In every run in which `pipe_send` writes only to stages without data, the pipeline loses
nothing. -/
theorem pipe_in_order {actions : List Action}
    (hrun : Run (guarded SendsToEmpty (stepOf (next stages))) initial actions state) :
    LosesNothing stages state := by
  have horder : InOrder stages state :=
    hrun.invariant (InOrder stages) inOrder_initial
      fun _ _ _ h hstep ↦ next_inOrder h hstep.1 hstep.2
  exact horder.losesNothing

/-- Two values go through a pipeline of one thread, the second one while the first is in the last
stage. -/
theorem pipe_in_order_two :
    ∃ state, Run (guarded SendsToEmpty (stepOf (next 1))) initial
        [.start 5, .startSend, .lock 0, .send 0, .clear 0, .start 7, .startSend, .result, .take]
        state ∧ LosesNothing 1 state ∧ state.delivered = [⟨0, 6⟩] ∧ state.active = 1 :=
  ⟨_, Run.of_isSome (by decide +kernel), pipe_in_order (Run.of_isSome (by decide +kernel)),
    by decide +kernel, by decide +kernel⟩

/-- The second of two values overwrites the first, which the thread of the stage has not seen: the
first result is the second value, and no stage has the first one while `active` is 1. -/
theorem started_value_is_lost :
    ∃ state, Run (stepOf (next 1)) initial
        [.start 5, .startSend, .start 7, .startSend, .lock 0, .send 0, .clear 0, .result, .take]
        state ∧ state.started = [5, 7] ∧ state.delivered = [⟨1, 8⟩] ∧ state.active = 1 ∧
      (state.stages 0).dataReady = false ∧ (state.stages 1).dataReady = false ∧
      ¬LosesNothing 1 state := by
  refine ⟨_, Run.of_eval (by decide +kernel), by decide +kernel, by decide +kernel,
    by decide +kernel, by decide +kernel, by decide +kernel, fun h ↦ ?_⟩
  have hfirst := (h.delivered 0 ⟨1, 8⟩ (by decide +kernel)).1
  exact absurd hfirst (by decide)

end Exc.Pipe
