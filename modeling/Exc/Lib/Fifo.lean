import Exc.Lib.Run

/-!
# Bounded first-in first-out queues

The abstract queue that a concurrent implementation is measured against: a run of `Fifo.Step`
from the empty queue is a history of puts, takes and discards that a queue of bounded capacity can
have. `Fifo.length_le` and `Fifo.puts_eq` are what every history satisfies: the capacity is kept,
and the values put are those removed, in their order, followed by those still there.
-/

set_option autoImplicit false
set_option relaxedAutoImplicit false

namespace Exc.Lib.Fifo

variable {κ α : Type*}

/-- What happens to a queue: a value is put at the end, or the first value is taken by a consumer or
discarded. -/
inductive Event (κ α : Type*)
  | put (value : α)
  | take (consumer : κ) (value : α)
  | discard (value : α)
  deriving DecidableEq

/-- The effect of an event on a queue of bounded capacity. -/
def Step (capacity : ℕ) (queue : List α) (event : Event κ α) (next : List α) : Prop :=
  match event with
  | .put value => queue.length < capacity ∧ next = queue ++ [value]
  | .take _ value => queue = value :: next
  | .discard value => queue = value :: next

/-- The value that an event puts. -/
def Event.put? : Event κ α → Option α
  | .put value => some value
  | _ => none

/-- The value that an event removes, and the consumer that takes it, if it is not discarded. -/
def Event.removed? : Event κ α → Option (α × Option κ)
  | .put _ => none
  | .take consumer value => some (value, some consumer)
  | .discard value => some (value, none)

/-- The values put, in order. -/
def puts (log : List (Event κ α)) : List α := log.filterMap Event.put?

/-- The values removed, in order. -/
def removals (log : List (Event κ α)) : List (α × Option κ) := log.filterMap Event.removed?

/-- The values that one consumer has taken, in order. -/
def takenBy [DecidableEq κ] (consumer : κ) (log : List (Event κ α)) : List α :=
  ((removals log).filter fun removal ↦ removal.2 = some consumer).map Prod.fst

variable {capacity : ℕ} {log : List (Event κ α)} {queue : List α}

/-- A queue never holds more than its capacity. -/
theorem length_le (hrun : Run (Step capacity) [] log queue) : queue.length ≤ capacity := by
  refine hrun.invariant (fun queue ↦ queue.length ≤ capacity) (Nat.zero_le _) ?_
  intro queue event next hle hstep
  cases event with
  | put value =>
    obtain ⟨hless, rfl⟩ := hstep
    rw [List.length_append, List.length_singleton]
    exact hless
  | take consumer value =>
    obtain rfl : queue = value :: next := hstep
    exact Nat.le_of_succ_le hle
  | discard value =>
    obtain rfl : queue = value :: next := hstep
    exact Nat.le_of_succ_le hle

theorem puts_append (event : Event κ α) : puts (log ++ [event]) = puts log ++ puts [event] :=
  List.filterMap_append ..

theorem removals_append (event : Event κ α) :
    removals (log ++ [event]) = removals log ++ removals [event] :=
  List.filterMap_append ..

/-- Nothing is lost, duplicated or reordered. -/
theorem puts_eq (hrun : Run (Step capacity) [] log queue) :
    puts log = (removals log).map Prod.fst ++ queue := by
  induction hrun with
  | refl => rfl
  | tail hrun hstep ih =>
    rename_i middle last actions action
    rw [puts_append, ih, removals_append, List.map_append]
    cases action with
    | put value =>
      obtain ⟨-, rfl⟩ := hstep
      simp [puts, removals, Event.put?, Event.removed?]
    | take consumer value =>
      obtain rfl : middle = value :: last := hstep
      simp [puts, removals, Event.put?, Event.removed?]
    | discard value =>
      obtain rfl : middle = value :: last := hstep
      simp [puts, removals, Event.put?, Event.removed?]

theorem takenBy_append [DecidableEq κ] (consumer : κ) (event : Event κ α) :
    takenBy consumer (log ++ [event]) =
      takenBy consumer log ++ takenBy consumer [event] := by
  rw [takenBy, removals_append, List.filter_append, List.map_append, ← takenBy, ← takenBy]

end Exc.Lib.Fifo
