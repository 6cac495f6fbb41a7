import Exc.Lib.Calls
import Exc.SafeQueue.SafeQueue
import Exc.Semaphore.Deadline

/-!
# The list with a semaphore

`comLib/SafeList.h`: a list with a recursive mutex and a counting semaphore of its elements. The
operations are called by one thread, so a wait for the semaphore at zero never ends, and a timed
wait gives up. The constructor cuts the capacity in the same way as that of `SafeQueue`, whose
`Config` and semaphore operations are used here.

All operations but one change the list and the semaphore by the same amount. `Erase` removes
elements without a wait, and the semaphore counts them on: a later `Pop` takes the front of an empty
list (`pop_after_erase`). `semaphore_counts_iff` says that the semaphore counts the elements after
each of a sequence of calls exactly if no `Erase` of the sequence finds its key.

Scope. The function that `Enum` calls does not call the list. `front` and `pop_front` of an empty
list are undefined and end the sequence.
-/

set_option autoImplicit false
set_option relaxedAutoImplicit false

namespace Exc.SafeList

open Lib SafeQueue

variable {α : Type}

/-- `m_List` and the value of `m_EmptySemaphore`. -/
structure State (α : Type) where
  list : List α
  emptySemaphore : ℕ
  deriving DecidableEq

/-- Why a call does not return: it waits for ever, with `m_Lock` in its hands or without it, or it
takes the front of an empty list. -/
inductive Stop
  | blocks (holdsLock : Bool)
  | emptyFront
  deriving DecidableEq

/-- The calls that change the list. -/
inductive Call (α : Type)
  | pushBack (value : α)
  | pushFront (value : α)
  | push (value : α)
  | pop (timeout : Int32)
  | popFront
  | popBack
  | erase (key : α)
  | clear
  | enum

/-- What a call returns or, for `Enum`, passes to its function. -/
inductive Result (α : Type)
  | success (success : Bool)
  | value (value : α)
  | values (values : List α)
  | done
  deriving DecidableEq

/-- `SafeList::SafeList`. -/
def initial : State α := ⟨[], 0⟩

namespace State

/-- `m_EmptySemaphore.Wait()` under the lock. -/
def waitInside (emptySemaphore : ℕ) : Except Stop ℕ :=
  match wait emptySemaphore with
  | none => .error (.blocks true)
  | some count => .ok count

/-- `m_List.pop_front()`. -/
def popFrontInside : List α → Except Stop (List α)
  | [] => .error .emptyFront
  | _ :: rest => .ok rest

/-- `Push_back`. -/
def pushBack (cfg : Config) (this : State α) (value : α) : State α × Result α :=
  if cfg.capacity ≤ this.list.length then (this, .success false)
  else (⟨this.list ++ [value], post cfg this.emptySemaphore⟩, .success true)

/-- `Push_front`. -/
def pushFront (cfg : Config) (this : State α) (value : α) : State α × Result α :=
  if cfg.capacity ≤ this.list.length then (this, .success false)
  else (⟨value :: this.list, post cfg this.emptySemaphore⟩, .success true)

/-- The first part of `Push`: a full list loses its first element. -/
def makeRoom (cfg : Config) (this : State α) : Except Stop (State α) :=
  if cfg.capacity ≤ this.list.length then do
    let list ← popFrontInside this.list
    let emptySemaphore ← waitInside this.emptySemaphore
    pure ⟨list, emptySemaphore⟩
  else .ok this

/-- `Push`. -/
def push (cfg : Config) (this : State α) (value : α) : Except Stop (State α × Result α) := do
  let room ← this.makeRoom cfg
  pure (⟨room.list ++ [value], post cfg room.emptySemaphore⟩, .done)

/-- `Pop`. At zero, a wait without end is possible on `WIN32` only, and a timed wait gives up. -/
def pop (cfg : Config) (this : State α) (timeout : Int32) :
    Except Stop (State α × Result α) :=
  match wait this.emptySemaphore with
  | none =>
    if cfg.win32 ∧ timeout = Semaphore.infinite then .error (.blocks false)
    else .ok (this, .success false)
  | some count =>
    match this.list with
    | [] => .error .emptyFront
    | first :: rest => .ok (⟨rest, count⟩, .value first)

/-- `Pop_front`. -/
def popFront (this : State α) : Except Stop (State α × Result α) :=
  match this.list with
  | [] => .ok (this, .success false)
  | _ :: rest => do
    let emptySemaphore ← waitInside this.emptySemaphore
    pure (⟨rest, emptySemaphore⟩, .success true)

/-- `Pop_back`. -/
def popBack (this : State α) : Except Stop (State α × Result α) :=
  match this.list with
  | [] => .ok (this, .success false)
  | first :: rest => do
    let emptySemaphore ← waitInside this.emptySemaphore
    pure (⟨(first :: rest).dropLast, emptySemaphore⟩, .success true)

/-- `Erase`: `m_List.remove(key)`. -/
def erase [DecidableEq α] (this : State α) (key : α) : State α × Result α :=
  ({ this with list := this.list.filter (· ≠ key) }, .done)

/-- The loop of `Clear`. -/
def clearLoop : List α → ℕ → Except Stop (State α)
  | [], emptySemaphore => .ok ⟨[], emptySemaphore⟩
  | _ :: rest, emptySemaphore => do
    let count ← waitInside emptySemaphore
    clearLoop rest count

/-- `Clear`. -/
def clear (this : State α) : Except Stop (State α × Result α) := do
  let cleared ← clearLoop this.list this.emptySemaphore
  pure (cleared, .done)

/-- The loop of `Enum`, with the number of its turns and the values that were passed on. -/
def enumLoop : ℕ → State α → List α → Except Stop (State α × Result α)
  | 0, this, passed => .ok (this, .values passed)
  | turns + 1, this, passed =>
    match this.list with
    | [] => enumLoop turns this passed
    | value :: _ => do
      let (popped, _) ← this.popFront
      enumLoop turns popped (passed ++ [value])

/-- `Enum`. -/
def enum (this : State α) : Except Stop (State α × Result α) :=
  enumLoop this.list.length this []

/-- A call. -/
def call [DecidableEq α] (cfg : Config) (this : State α) :
    Call α → Except Stop (State α × Result α)
  | .pushBack value => .ok (this.pushBack cfg value)
  | .pushFront value => .ok (this.pushFront cfg value)
  | .push value => this.push cfg value
  | .pop timeout => this.pop cfg timeout
  | .popFront => this.popFront
  | .popBack => this.popBack
  | .erase key => .ok (this.erase key)
  | .clear => this.clear
  | .enum => this.enum

/-- The list after a call. -/
def next [DecidableEq α] (cfg : Config) (this : State α) (operation : Call α) :
    Except Stop (State α) :=
  (this.call cfg operation).map Prod.fst

/-! ### What the calls keep -/

/-- The semaphore counts the elements, and there are not more than the capacity. -/
def Counted (cfg : Config) (this : State α) : Prop :=
  this.emptySemaphore = this.list.length ∧ this.list.length ≤ cfg.capacity

/-- A call has returned and the semaphore counts the elements, or it waits for ever without the
lock. -/
def Good (cfg : Config) : Except Stop (State α) → Prop
  | .ok this => this.Counted cfg
  | .error stop => stop = .blocks false

/-- A call that is not an `Erase`, or one that does not find its key. -/
def ErasesNothing (this : State α) : Call α → Prop
  | .erase key => key ∉ this.list
  | _ => True

variable {cfg : Config} {this : State α}

/-- One element more, at either end. -/
theorem Counted.add (h : this.Counted cfg) (hroom : this.list.length < cfg.capacity) {list : List α}
    (hlist : list.length = this.list.length + 1) :
    (⟨list, post cfg this.emptySemaphore⟩ : State α).Counted cfg := by
  refine ⟨?_, hlist.trans_le hroom⟩
  rw [h.1, post_eq hroom]
  exact hlist.symm

/-- One element less: there is a token for it. -/
theorem Counted.remove (h : this.Counted cfg) {list : List α}
    (hlist : this.list.length = list.length + 1) :
    ∃ count, wait this.emptySemaphore = some count ∧ waitInside this.emptySemaphore = .ok count ∧
      (⟨list, count⟩ : State α).Counted cfg := by
  have hcount : this.emptySemaphore = list.length + 1 := h.1.trans hlist
  have hle : list.length ≤ cfg.capacity := by
    have := h.2
    omega
  exact ⟨list.length, by rw [hcount]; rfl, by rw [hcount]; rfl, rfl, hle⟩

theorem popFront_counted (h : this.Counted cfg) :
    ∃ popped result, this.popFront = .ok (popped, result) ∧ popped.Counted cfg ∧
      popped.list = this.list.tail := by
  unfold popFront
  split
  · rename_i hlist
    exact ⟨this, _, rfl, h, by rw [hlist]; rfl⟩
  · rename_i first rest hlist
    obtain ⟨count, -, hwait, hcounted⟩ := h.remove (show this.list.length = rest.length + 1 by
      rw [hlist]; rfl)
    exact ⟨_, _, by rw [hwait]; rfl, hcounted, by rw [hlist]; rfl⟩

theorem clearLoop_counted (list : List α) :
    clearLoop list list.length = .ok ⟨[], 0⟩ := by
  induction list with
  | nil => rfl
  | cons value rest ih => exact ih

theorem enumLoop_counted (turns : ℕ) (h : this.Counted cfg) (passed : List α) :
    ∃ last result, enumLoop turns this passed = .ok (last, result) ∧ last.Counted cfg := by
  induction turns generalizing this passed with
  | zero => exact ⟨this, _, rfl, h⟩
  | succ turns ih =>
    unfold enumLoop
    split
    · exact ih h passed
    · rename_i value rest hlist
      obtain ⟨popped, result, hpop, hcounted, -⟩ := popFront_counted h
      rw [hpop]
      exact ih hcounted _

theorem makeRoom_counted (h : this.Counted cfg) :
    ∃ room, this.makeRoom cfg = .ok room ∧ room.Counted cfg ∧ room.list.length < cfg.capacity := by
  unfold makeRoom
  split_ifs with hfull
  · obtain ⟨first, rest, hlist⟩ : ∃ first rest, this.list = first :: rest := by
      refine List.exists_cons_of_length_pos (lt_of_lt_of_le ?_ hfull)
      exact lt_min cfg.queueSize_pos cfg.maxSize_pos
    have hlength : this.list.length = rest.length + 1 := by rw [hlist]; rfl
    obtain ⟨count, -, hwait, hcounted⟩ := h.remove hlength
    refine ⟨_, ?_, hcounted, hlength.symm.trans_le h.2⟩
    rw [hlist, hwait]
    rfl
  · exact ⟨this, rfl, h, not_le.mp hfull⟩

theorem popBack_counted (h : this.Counted cfg) :
    ∃ popped result, this.popBack = .ok (popped, result) ∧ popped.Counted cfg := by
  unfold popBack
  split
  · exact ⟨this, _, rfl, h⟩
  · rename_i first rest hlist
    obtain ⟨count, -, hwait, hcounted⟩ :=
      h.remove (show this.list.length = (first :: rest).dropLast.length + 1 by
        rw [hlist, List.length_dropLast]; rfl)
    exact ⟨_, _, by rw [hwait]; rfl, hcounted⟩

/-- A `Pop` that gets a token finds an element; one without a token waits or gives up. -/
theorem pop_good [DecidableEq α] (timeout : Int32) (h : this.Counted cfg) :
    Good cfg (this.next cfg (.pop timeout)) := by
  rw [next, call, pop]
  split
  · split_ifs
    · rfl
    · exact h
  · rename_i count hwait
    split
    · rename_i hlist
      rw [h.1, hlist] at hwait
      cases hwait
    · rename_i first rest hlist
      obtain ⟨removed, hremoved, -, hcounted⟩ :=
        h.remove (show this.list.length = rest.length + 1 by rw [hlist]; rfl)
      obtain rfl := Option.some.inj (hwait.symm.trans hremoved)
      exact hcounted

/-- `Erase` leaves the semaphore as it is, so that it may not remove anything. -/
theorem erase_counted_iff [DecidableEq α] (key : α) (h : this.Counted cfg) :
    (this.erase key).1.Counted cfg ↔ key ∉ this.list := by
  have hlength : (this.list.filter (· ≠ key)).length = this.list.length ↔ key ∉ this.list := by
    rw [List.length_filter_eq_length_iff]
    simp only [ne_eq, decide_not, Bool.not_eq_true', decide_eq_false_iff_not]
    exact ⟨fun hall hmem ↦ hall key hmem rfl, fun hkey value hmem heq ↦ hkey (heq ▸ hmem)⟩
  change this.emptySemaphore = (this.list.filter (· ≠ key)).length ∧
    (this.list.filter (· ≠ key)).length ≤ cfg.capacity ↔ key ∉ this.list
  rw [h.1, eq_comm, hlength, and_iff_left ((List.length_filter_le _ _).trans h.2)]

/-- One call from a state in which the semaphore counts the elements. -/
theorem next_good_iff [DecidableEq α] (operation : Call α) (h : this.Counted cfg) :
    Good cfg (this.next cfg operation) ↔ this.ErasesNothing operation := by
  cases operation with
  | pushBack value =>
    refine iff_of_true ?_ trivial
    change (this.pushBack cfg value).1.Counted cfg
    unfold pushBack
    split_ifs with hfull
    · exact h
    · exact h.add (not_le.mp hfull) (by rw [List.length_append]; rfl)
  | pushFront value =>
    refine iff_of_true ?_ trivial
    change (this.pushFront cfg value).1.Counted cfg
    unfold pushFront
    split_ifs with hfull
    · exact h
    · exact h.add (not_le.mp hfull) rfl
  | push value =>
    obtain ⟨room, hroom, hcounted, hless⟩ := makeRoom_counted h
    refine iff_of_true ?_ trivial
    rw [next, call, push, hroom]
    exact hcounted.add hless (by rw [List.length_append]; rfl)
  | pop timeout => exact iff_of_true (pop_good timeout h) trivial
  | popFront =>
    obtain ⟨popped, result, hpop, hcounted, -⟩ := popFront_counted h
    refine iff_of_true ?_ trivial
    rw [next, call, hpop]
    exact hcounted
  | popBack =>
    obtain ⟨popped, result, hpop, hcounted⟩ := popBack_counted h
    refine iff_of_true ?_ trivial
    rw [next, call, hpop]
    exact hcounted
  | erase key => exact erase_counted_iff key h
  | clear =>
    refine iff_of_true ?_ trivial
    rw [next, call, clear, h.1, clearLoop_counted]
    exact ⟨rfl, Nat.zero_le _⟩
  | enum =>
    obtain ⟨last, result, henum, hcounted⟩ := enumLoop_counted this.list.length h []
    refine iff_of_true ?_ trivial
    rw [next, call, enum, henum]
    exact hcounted

/-- After each call of a sequence the semaphore counts the elements, so that no call takes the front
of an empty list and none waits for ever with the lock in its hands, if and only if no `Erase` of
the sequence finds its key. -/
theorem semaphore_counts_iff [DecidableEq α] (cfg : Config) (calls : List (Call α)) :
    AlwaysGood (next cfg) initial (Good cfg) calls ↔
      MeetsGuard (next cfg) initial ErasesNothing calls := by
  have hfirst : Good cfg (.ok (initial : State α)) := ⟨rfl, Nat.zero_le _⟩
  exact alwaysGood_iff hfirst (fun _ operation h ↦ next_good_iff operation h) calls

/-- A list for two elements. -/
def smallList : Config := ⟨2, 2147483647, false, Nat.succ_pos 1, Nat.succ_pos 2147483646⟩

/-- An element is pushed and erased: the semaphore still counts it, and `Pop` takes the front of the
empty list. -/
theorem pop_after_erase :
    afterCalls (next smallList) initial [.pushBack 5, .erase 5] = .ok ⟨[], 1⟩ ∧
      afterCalls (next smallList) initial [.pushBack 5, .erase 5, .pop 0] = .error .emptyFront ∧
      ¬AlwaysGood (next smallList) initial (Good smallList) [.pushBack 5, .erase 5, .pop 0] := by
  have herased : afterCalls (next smallList) initial [.pushBack 5, .erase 5] = .ok ⟨[], 1⟩ := rfl
  refine ⟨herased, rfl, fun hgood ↦ ?_⟩
  have hcounted := hgood [.pushBack 5, .erase 5] [.pop 0] rfl
  rw [herased] at hcounted
  exact absurd hcounted.1 (by decide)

end State

end Exc.SafeList
