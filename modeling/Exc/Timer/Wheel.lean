import Exc.Lib.ByteOrder
import Exc.Lib.StableInsert
import Exc.Timer.TimeValue
import Mathlib.Data.Fin.Basic
import Mathlib.Data.List.FinRange

/-!
# The timer wheel

`comLib/dhntimer/DHNTimerWheel.h` and `Free_List.h`. A wheel is an array of spokes. A spoke is a
circular list with a root; it is modelled by the list of its nodes from `root->get_next ()` on,
together with the two fields of the root that the wheel uses, its `timer_id_`, which counts the ids
generated on the spoke, and its `act1_`, which holds the next count in use after a wrap. A node is
identified by its address; unlinking it removes it from the list of its spoke.

Two fields of a node are not in the source. `serial` is the number of the `schedule` call that made
the timer and `stamp` the number of its last insertion into the wheel. No modelled function reads
them; they name a timer, and the order of insertion, in statements about runs.

`long` has 32 or 64 bits (`Platform`), `int` and `unsigned int` 32. Conversions to a signed type are
`Lib.toInt` and `Int.bmod`. The counter `timer_count_` is a natural number: it wraps only with 2^32
live nodes.

Three things go wrong in the source without a return value: `remove_first_expired` reads through a
null first node, `generate_timer_id` follows a null node, and a catch-up loop with an interval that
does not advance never ends. They are the values of `Fault`.
-/

set_option autoImplicit false
set_option relaxedAutoImplicit false

namespace Exc.Timer

open Lib

/-- What can go wrong: a null first node, a null node in the search for an id, an endless loop. -/
inductive Fault
  | nullFirst
  | nullNode
  | diverges
  deriving DecidableEq, Repr

/-- The width of `long` on the platform. -/
structure Platform where
  longBits : ℕ
  long_bits : longBits = 32 ∨ longBits = 64

/-! ### The free list -/

/-- The address of a node. -/
abbrev Addr := ℕ

/-- `DHN_DEFAULT_FREE_LIST_LWM`. -/
def defaultFreeListLwm : ℕ := 0

/-- `DHN_DEFAULT_FREE_LIST_HWM`. -/
def defaultFreeListHwm : ℕ := 25000

/-- `DHN_DEFAULT_FREE_LIST_INC`. -/
def defaultFreeListInc : ℕ := 100

/-- `DHN_Locked_Free_List` in the mode `DHN_FREE_LIST_WITH_POOL`: the chain from `free_list_` and
its `size_`. `new` returns `fresh` next, and `deleted` are the nodes that `delete` was called with,
so that a node keeps its address for good. -/
structure FreeList where
  nodes : List Addr
  size : ℕ
  fresh : Addr
  deleted : List Addr
  size_eq : size = nodes.length

namespace FreeList

/-- The free list of the default constructor, with nothing preallocated. -/
def empty : FreeList := ⟨[], 0, 0, [], rfl⟩

/-- `alloc`: `n` new nodes go to the front. -/
def alloc : ℕ → FreeList → FreeList
  | 0, list => list
  | n + 1, list =>
    alloc n ⟨list.fresh :: list.nodes, list.size + 1, list.fresh + 1, list.deleted,
      by simp [list.size_eq]⟩

/-- `dealloc`: up to `n` nodes are deleted from the front. -/
def dealloc : ℕ → FreeList → FreeList
  | 0, list => list
  | n + 1, list =>
    match hnodes : list.nodes with
    | [] => list
    | first :: rest =>
      dealloc n ⟨rest, list.size - 1, list.fresh, first :: list.deleted,
        by simp [list.size_eq, hnodes]⟩

/-- `resize`. -/
def resize (newsize : ℕ) (list : FreeList) : FreeList :=
  if newsize < list.size then dealloc (list.size - newsize) list
  else alloc (newsize - list.size) list

/-- `remove`: below the low water mark new nodes are made first, then the first node is taken. -/
def remove (list : FreeList) : Option Addr × FreeList :=
  let filled := if list.size ≤ defaultFreeListLwm then alloc defaultFreeListInc list else list
  match hnodes : filled.nodes with
  | [] => (none, filled)
  | first :: rest =>
    (some first, ⟨rest, filled.size - 1, filled.fresh, filled.deleted,
      by simp [filled.size_eq, hnodes]⟩)

/-- `add`: the node goes to the front, or is deleted above the high water mark. -/
def add (element : Addr) (list : FreeList) : FreeList :=
  if list.size < defaultFreeListHwm then
    ⟨element :: list.nodes, list.size + 1, list.fresh, list.deleted, by simp [list.size_eq]⟩
  else { list with deleted := element :: list.deleted }

end FreeList

/-! ### Sizing -/

/-- The loop of `power2bits` that counts bits, from the count `i` and with a bound on its rounds:
`none` when the shifted value never becomes zero within the bound. -/
def countBits : ℕ → ℤ → ℕ → Option ℕ
  | 0, _, _ => none
  | rounds + 1, tmp, i =>
    if tmp >>> (1 : ℕ) = 0 then some (i + 1) else countBits rounds (tmp >>> (1 : ℕ)) (i + 1)

/-- `power2bits`. An `int` has 32 bits, so 32 rounds of the counting loop are enough when it ends;
for a negative argument it does not end and the result is `none`. -/
def power2bits (n : ℤ) (minBits maxBits : ℕ) : Option ℕ :=
  if 2 ^ maxBits - 1 < n then some maxBits
  else
    (countBits 32 n 0).map fun i ↦
      if i ≤ minBits then minBits
      else
        let a := 2 ^ i - n
        let b := |2 ^ (i - 1) - n|
        if b < a then i - 1 else i

/-- The two calls of `power2bits` in `open_i`, from `unsigned int` arguments, as `spoke_bits_` and
`res_bits_`; `none` when one of them does not return. -/
def openBits (spokes res : ℕ) : Option (ℕ × ℕ) := do
  let spokeBits ← power2bits (toInt spokes) 3 12
  let resBits ← power2bits (toInt res) 1 20
  pure (spokeBits, resBits)

/-- What `open_i` computes from its arguments: the bits of the spoke count and of the resolution,
within the limits that its constants set. -/
structure WheelConfig extends Platform where
  spokeBits : ℕ
  resBits : ℕ
  spoke_bits : 3 ≤ spokeBits ∧ spokeBits ≤ 12
  res_bits : 1 ≤ resBits ∧ resBits ≤ 20

namespace WheelConfig

/-- `spoke_count_`. -/
def spokeCount (cfg : WheelConfig) : ℕ := 1 <<< cfg.spokeBits

/-- `wheel_time_`. -/
def wheelTime (cfg : WheelConfig) : TimeValue := .ofMsec (1 <<< cfg.resBits)

theorem spokeCount_eq (cfg : WheelConfig) : cfg.spokeCount = 2 ^ cfg.spokeBits := by
  rw [spokeCount, Nat.one_shiftLeft]

theorem eight_le_spokeCount (cfg : WheelConfig) : 8 ≤ cfg.spokeCount := by
  rw [spokeCount_eq]
  exact (by norm_num : 8 = 2 ^ 3) ▸ Nat.pow_le_pow_right (by norm_num) cfg.spoke_bits.1

instance (cfg : WheelConfig) : NeZero cfg.spokeCount :=
  ⟨by have := cfg.eight_le_spokeCount; omega⟩

end WheelConfig

/-! ### Nodes, spokes and the wheel -/

/-- A `DHNTimerTask` object. -/
abbrev Task := ℕ

/-- A `DHN_Timer_Node_T<DHNTimerTask*>` that is not a root. The null task pointer is `none`. The
last two fields are not in the source: the number of the `schedule` call that made the timer, and
the number of its last insertion into the wheel. -/
structure Node where
  addr : Addr
  type : Option Task
  act1 : ℕ
  act2 : ℕ
  timerValue : TimeValue
  interval : TimeValue
  timerId : ℤ
  serial : ℕ
  stamp : ℕ
  deriving DecidableEq

/-- A spoke: the address of its root, the root's `timer_id_` and `act1_`, and the nodes. -/
structure Spoke where
  root : Addr
  timerId : ℕ
  act1 : ℕ
  nodes : List Node

/-- The state of a `TimerWheel`. The last field is not in the source: it numbers the insertions. -/
structure TimerWheel (cfg : WheelConfig) where
  spokes : Fin cfg.spokeCount → Spoke
  earliestSpoke : Fin cfg.spokeCount
  timerCount : ℕ
  inserted : ℕ

namespace TimerWheel

variable {cfg : WheelConfig}

/-- The loop of `open_i` that takes a root for each spoke from the free list. -/
def allocRoots : ℕ → FreeList → List Addr × FreeList
  | 0, list => ([], list)
  | n + 1, list =>
    let (first, rest) := list.remove
    let (roots, final) := allocRoots n rest
    (first.getD 0 :: roots, final)

/-- `open_i` on a fresh free list: the free list is resized, and every spoke gets an empty root. -/
def openI (cfg : WheelConfig) (prealloc : ℕ) : TimerWheel cfg × FreeList :=
  let (roots, freeList) := allocRoots cfg.spokeCount
    (FreeList.resize (prealloc + cfg.spokeCount) FreeList.empty)
  (⟨fun spoke ↦ ⟨roots.getD spoke 0, 0, 0, []⟩, 0, 0, 0⟩, freeList)

/-- `calculate_spoke`. -/
def calculateSpoke (cfg : WheelConfig) (tv : TimeValue) : Fin cfg.spokeCount :=
  ⟨(tv.msec cfg.longBits >>> cfg.resBits) &&& (cfg.spokeCount - 1),
    lt_of_le_of_lt Nat.and_le_right (by have := cfg.eight_le_spokeCount; omega)⟩

/-- `is_empty`. -/
def isEmpty (wheel : TimerWheel cfg) : Bool := wheel.timerCount = 0

/-- `get_first_i` and `get_first`. -/
def getFirstI (wheel : TimerWheel cfg) : Option Node :=
  (wheel.spokes wheel.earliestSpoke).nodes.head?

/-- `earliest_time`. -/
def earliestTime (wheel : TimerWheel cfg) : TimeValue :=
  match wheel.getFirstI with
  | some n => n.timerValue
  | none => .zero

/-- Writes the node list of one spoke. -/
def setNodes (wheel : TimerWheel cfg) (spoke : Fin cfg.spokeCount) (nodes : List Node) :
    TimerWheel cfg :=
  { wheel with
    spokes := Function.update wheel.spokes spoke { wheel.spokes spoke with nodes := nodes } }

/-- `unlink`, of a node of the given spoke. -/
def unlink (wheel : TimerWheel cfg) (spoke : Fin cfg.spokeCount) (n : Node) : TimerWheel cfg :=
  { wheel.setNodes spoke ((wheel.spokes spoke).nodes.erase n) with
    timerCount := wheel.timerCount - 1 }

/-- `if (++spoke >= spoke_count_) spoke = 0`. -/
def nextSpoke (spoke : Fin cfg.spokeCount) : Fin cfg.spokeCount :=
  if hlast : cfg.spokeCount ≤ spoke + 1 then 0 else ⟨spoke + 1, by omega⟩

/-- The loop of `recalc_earliest`: the rounds that remain, the spoke to look at, the earliest time
`et` seen so far (`zero` for none) and the spoke `es` it was seen on. It returns the value for
`earliest_spoke_`. -/
def recalcLoop (wheel : TimerWheel cfg) (limit : TimeValue) :
    ℕ → Fin cfg.spokeCount → TimeValue → Fin cfg.spokeCount → Fin cfg.spokeCount
  | 0, _, _, es => es
  | rounds + 1, spoke, et, es =>
    match (wheel.spokes spoke).nodes with
    | [] => recalcLoop wheel limit rounds (nextSpoke spoke) et es
    | n :: _ =>
      if n.timerValue < limit then spoke
      else if et = .zero ∨ n.timerValue < et then
        recalcLoop wheel limit rounds (nextSpoke spoke) n.timerValue spoke
      else recalcLoop wheel limit rounds (nextSpoke spoke) et es

/-- `recalc_earliest`. -/
def recalcEarliest (wheel : TimerWheel cfg) (last : TimeValue) : TimerWheel cfg :=
  if wheel.isEmpty then wheel
  else
    { wheel with
      earliestSpoke := recalcLoop wheel (last + cfg.wheelTime) cfg.spokeCount
        wheel.earliestSpoke .zero 0 }

/-- `find_spoke_node`. -/
def findSpokeNode (wheel : TimerWheel cfg) (spoke : Fin cfg.spokeCount) (timerId : ℤ) :
    Option Node :=
  (wheel.spokes spoke).nodes.find? fun n ↦ n.timerId = timerId

/-- The spoke that `find_node` searches first: the low bits of the id. -/
def startSpoke (cfg : WheelConfig) (timerId : ℤ) : Fin cfg.spokeCount :=
  ⟨(timerId % cfg.spokeCount).toNat, by
    have hpos := cfg.eight_le_spokeCount
    have hlt := Int.emod_lt_of_pos timerId (by omega : (0 : ℤ) < cfg.spokeCount)
    have hnonneg := Int.emod_nonneg timerId (by omega : (cfg.spokeCount : ℤ) ≠ 0)
    omega⟩

/-- `find_node`, with the spoke on which the node is linked. -/
def findNode (wheel : TimerWheel cfg) (timerId : ℤ) : Option (Fin cfg.spokeCount × Node) :=
  if timerId = -1 then none
  else
    match wheel.findSpokeNode (startSpoke cfg timerId) timerId with
    | some n => some (startSpoke cfg timerId, n)
    | none =>
      -- The rest of the spokes, in order.
      (List.finRange cfg.spokeCount).findSome? fun i ↦
        if i ≠ startSpoke cfg timerId then (wheel.findSpokeNode i timerId).map (i, ·) else none

/-- The part of `cancel_timer` that works on the wheel: the node found and unlinked, if any. -/
def cancelNode (wheel : TimerWheel cfg) (timerId : ℤ) : Option Node × TimerWheel cfg :=
  match wheel.findNode timerId with
  | none => (none, wheel)
  | some (spoke, n) =>
    let recalc := wheel.getFirstI = some n
    let unlinked := wheel.unlink spoke n
    (some n, if recalc then unlinked.recalcEarliest n.timerValue else unlinked)

/-- `max_cnt` of `generate_timer_id`. -/
def maxCnt (cfg : WheelConfig) (spoke : ℕ) : ℕ :=
  let cntBits := cfg.longBits - cfg.spokeBits
  let max := 2 ^ cntBits - 1
  if spoke = cfg.spokeCount then max - 1 else max

/-- `(cnt << spoke_bits_) | spoke` as a `long`. -/
def packId (cfg : WheelConfig) (cnt spoke : ℕ) : ℤ :=
  ((cnt <<< cfg.spokeBits ||| spoke : ℕ) : ℤ).bmod (2 ^ cfg.longBits)

/-- The search loop of `generate_timer_id`, from the count `cnt`. As soon as a count is found that
no node of the spoke carries, the source walks on from `n`, which is the null result of the search.
A search that finds every count in use returns `-1`. -/
def searchCnt (wheel : TimerWheel cfg) (spoke : Fin cfg.spokeCount) : ℕ → ℕ → Except Fault ℤ
  | 0, _ => .ok (-1)
  | rounds + 1, cnt =>
    match wheel.findSpokeNode spoke (packId cfg cnt spoke) with
    | none => .error .nullNode
    | some _ => searchCnt wheel spoke rounds (cnt + 1)

/-- Writes the two fields of a root that `generate_timer_id` uses. -/
def setRoot (wheel : TimerWheel cfg) (spoke : Fin cfg.spokeCount) (timerId act1 : ℕ) :
    TimerWheel cfg :=
  { wheel with
    spokes := Function.update wheel.spokes spoke
      { wheel.spokes spoke with timerId := timerId, act1 := act1 } }

/-- `generate_timer_id`. -/
def generateTimerId (wheel : TimerWheel cfg) (spoke : Fin cfg.spokeCount) :
    Except Fault (ℤ × TimerWheel cfg) :=
  let root := wheel.spokes spoke
  let max := maxCnt cfg spoke
  let nextCnt := if root.nodes = [] then 0 else root.act1
  let cnt := root.timerId
  if max ≤ cnt ∧ root.nodes = [] then
    .ok (spoke, wheel.setRoot spoke 1 nextCnt)
  else if max ≤ cnt then do
    let id ← wheel.searchCnt spoke (max - 1) 0
    pure (id, wheel.setRoot spoke cnt nextCnt)
  else if nextCnt = 0 ∨ cnt < nextCnt then
    -- This return path goes through an `int`.
    .ok (toInt (packId cfg cnt spoke), wheel.setRoot spoke (cnt + 1) nextCnt)
  else do
    let id ← wheel.searchCnt spoke (max - 1 - cnt) cnt
    pure (id, wheel.setRoot spoke cnt nextCnt)

/-- `schedule_i(n, spoke, expire)`: links a node, behind the nodes of its spoke that expire no
later. -/
def scheduleNode (wheel : TimerWheel cfg) (n : Node) (spoke : Fin cfg.spokeCount)
    (expire : TimeValue) : TimerWheel cfg :=
  let earliest := if wheel.isEmpty ∨ expire < wheel.earliestTime then spoke
    else wheel.earliestSpoke
  let linked := { n with stamp := wheel.inserted }
  { wheel.setNodes spoke
      (insertStable Node.timerValue expire linked (wheel.spokes spoke).nodes) with
    earliestSpoke := earliest
    timerCount := wheel.timerCount + 1
    inserted := wheel.inserted + 1 }

/-- `reschedule`. -/
def reschedule (wheel : TimerWheel cfg) (n : Node) : TimerWheel cfg :=
  wheel.scheduleNode n (calculateSpoke cfg n.timerValue) n.timerValue

/-- `remove_first_expired`. The first node is read before it is tested for null. -/
def removeFirstExpired (wheel : TimerWheel cfg) (now : TimeValue) :
    Except Fault (Option Node × TimerWheel cfg) :=
  match wheel.getFirstI with
  | none => .error .nullFirst
  | some n =>
    if n.timerValue ≤ now ∨ now.sec = 0 ∧ now.usec = 0 then
      .ok (some n, (wheel.unlink wheel.earliestSpoke n).recalcEarliest n.timerValue)
    else .ok (none, wheel)

/-- `remove_first`. -/
def removeFirst (wheel : TimerWheel cfg) : Except Fault (Option Node × TimerWheel cfg) :=
  wheel.removeFirstExpired ⟨0, 0⟩

end TimerWheel

end Exc.Timer
