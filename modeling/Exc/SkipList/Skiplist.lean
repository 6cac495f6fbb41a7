import Mathlib.Data.Int.Notation
import Mathlib.Data.List.Basic
import Mathlib.Logic.Function.Basic

/-!
# The skip list

`datastruct/skiplist/skiplist.c`. A node is a block of memory with a key, a value and an array of
forward pointers; it is reached only through its address, so the list is a memory, the address of
the header and the level.

`createNode(level, …)` makes room for `level + 1` pointers and leaves them uninitialised. An array
slot is therefore `none` until it is written, and reading such a slot, a slot outside the array, or
a block that is not there, is a `Fault`. So is a walk along a level that does not end; a bound on
its steps that is above the number of blocks ever made is enough for every walk that ends. The array
`update` of `insert` and `deleteSL` is uninitialised memory in the same way.

`malloc` does not fail and returns addresses one after another; a freed address is not used again,
which the source could not notice. `rand` is seen only through `randomLevel`, by the number of odd
values that it returns before an even one. Keys and values are only compared and copied, so `int` is
the integers.
-/

set_option autoImplicit false
set_option relaxedAutoImplicit false

namespace Exc.SkipList

/-- `MAX_LEVEL`. -/
def maxLevel : ℕ := 10

/-- The address of a block. -/
abbrev Addr := ℕ

/-- A pointer; `NULL` is `none`. -/
abbrev Ptr := Option Addr

/-- A `nodeStructure`. A forward slot that was never written is `none`. -/
structure NodeStructure where
  key : ℤ
  value : ℤ
  forward : List (Option Ptr)

/-- Undefined behaviour: access to a block that is not allocated or outside of it, use of an
uninitialised pointer, and a walk that does not end. -/
inductive Fault
  | dangling
  | indeterminate
  | diverges
  deriving DecidableEq, Repr

/-- The blocks that are allocated, and the address that the next `malloc` returns. -/
structure Memory where
  heap : Addr → Option NodeStructure
  fresh : Addr

/-- A `skiplist`, with the memory its nodes are in. -/
structure Skiplist where
  level : ℕ
  header : Addr
  memory : Memory

namespace Memory

/-- Reads a block. -/
def load (memory : Memory) (p : Addr) : Except Fault NodeStructure :=
  match memory.heap p with
  | some node => .ok node
  | none => .error .dangling

/-- `p->forward[i]`. -/
def getForward (memory : Memory) (p : Addr) (i : ℕ) : Except Fault Ptr := do
  let node ← memory.load p
  match node.forward[i]? with
  | some (some q) => .ok q
  | some none => .error .indeterminate
  | none => .error .dangling

/-- `p->forward[i] = q`. -/
def setForward (memory : Memory) (p : Addr) (i : ℕ) (q : Ptr) : Except Fault Memory := do
  let node ← memory.load p
  if i < node.forward.length then
    .ok { memory with
      heap := Function.update memory.heap p
        (some { node with forward := node.forward.set i (some q) }) }
  else .error .dangling

/-- `free(p)`. -/
def free (memory : Memory) (p : Addr) : Memory :=
  { memory with heap := Function.update memory.heap p none }

/-- `createNode`. -/
def createNode (memory : Memory) (level : ℕ) (key value : ℤ) : Addr × Memory :=
  (memory.fresh,
    ⟨Function.update memory.heap memory.fresh
      (some ⟨key, value, List.replicate (level + 1) none⟩), memory.fresh + 1⟩)

end Memory

/-- The loop of `createSkiplist` that clears the pointers of the header. -/
def clearForward (header : Addr) : ℕ → Memory → Except Fault Memory
  | 0, memory => .ok memory
  | i + 1, memory => do
    let cleared ← clearForward header i memory
    cleared.setForward header i none

/-- `createSkiplist`, in a memory of its own. -/
def createSkiplist : Except Fault Skiplist := do
  let (header, memory) := Memory.createNode ⟨fun _ ↦ none, 0⟩ (maxLevel - 1) 0 0
  let cleared ← clearForward header maxLevel memory
  pure ⟨0, header, cleared⟩

/-- `randomLevel`, when `rand` returns `odds` odd values and then an even one. -/
def randomLevel (odds : ℕ) : ℕ :=
  let k := 1 + odds
  if k < maxLevel then k else maxLevel

/-- The array `update`: what its slots hold, `none` where nothing was written. -/
abbrev Update := ℕ → Option Addr

/-- `update[i]`. -/
def Update.get (update : Update) (i : ℕ) : Except Fault Addr :=
  match update i with
  | some p => .ok p
  | none => .error .indeterminate

/-- `while ((q = p->forward[i]) && (q->key < key)) p = q;`, with a bound on its steps: the values of
`p` and `q` after it. -/
def walk (memory : Memory) (key : ℤ) (i : ℕ) : ℕ → Addr → Except Fault (Addr × Ptr)
  | 0, _ => .error .diverges
  | steps + 1, p => do
    let q ← memory.getForward p i
    match q with
    | none => pure (p, none)
    | some next =>
      let node ← memory.load next
      if node.key < key then walk memory key i steps next else pure (p, some next)

/-- The loop of `insert` and `deleteSL` over the levels from the given one down: the last `q`, and
`update`. -/
def descend (memory : Memory) (key : ℤ) : ℕ → Addr → Ptr → Update → Except Fault (Ptr × Update)
  | 0, _, q, update => pure (q, update)
  | i + 1, p, _, update => do
    let (p', q') ← walk memory key i (memory.fresh + 1) p
    descend memory key i p' q' (Function.update update i (some p'))

/-- `q && q->key == key`. -/
def hasKey (memory : Memory) (key : ℤ) : Ptr → Except Fault Bool
  | none => pure false
  | some p => do
    let node ← memory.load p
    pure (node.key = key)

/-- `for (int i = from; i < k; i++) update[i] = header;` -/
def fillUpdate (header : Addr) (start k : ℕ) (update : Update) : Update :=
  fun i ↦ if start ≤ i ∧ i < k then some header else update i

/-- The loop of `insert` that links the new node `q` on the levels below the given one. -/
def linkLevels (update : Update) (q : Addr) : ℕ → Memory → Except Fault Memory
  | 0, memory => pure memory
  | i + 1, memory => do
    let below ← linkLevels update q i memory
    let p ← update.get i
    let next ← below.getForward p i
    let linked ← below.setForward q i next
    linked.setForward p i (some q)

/-- The loop of `deleteSL` that unlinks the node `q` on the levels below the given one. -/
def unlinkLevels (update : Update) (q : Addr) : ℕ → Memory → Except Fault Memory
  | 0, memory => pure memory
  | i + 1, memory => do
    let below ← unlinkLevels update q i memory
    let p ← update.get i
    let next ← below.getForward p i
    if next = some q then
      let behind ← below.getForward q i
      below.setForward p i behind
    else pure below

/-- The loop of `deleteSL` that lowers the level, from the level below the given one down. -/
def lowerLevel (memory : Memory) (header : Addr) : ℕ → ℕ → Except Fault ℕ
  | 0, level => pure level
  | i + 1, level => do
    let first ← memory.getForward header i
    lowerLevel memory header i (if first = none then level - 1 else level)

/-- The inner loop of `search`, with a bound on its steps: the value found, or `p` after it. -/
def searchLevel (memory : Memory) (key : ℤ) (i : ℕ) : ℕ → Addr → Except Fault (ℤ ⊕ Addr)
  | 0, _ => .error .diverges
  | steps + 1, p => do
    let q ← memory.getForward p i
    match q with
    | none => pure (.inr p)
    | some next =>
      let node ← memory.load next
      if node.key ≤ key then
        if node.key = key then pure (.inl node.value) else searchLevel memory key i steps next
      else pure (.inr p)

/-- The outer loop of `search`, over the levels below the given one. -/
def searchLevels (memory : Memory) (key : ℤ) : ℕ → Addr → Except Fault ℤ
  | 0, _ => pure 0
  | i + 1, p => do
    let found ← searchLevel memory key i (memory.fresh + 1) p
    match found with
    | .inl value => pure value
    | .inr p' => searchLevels memory key i p'

namespace Skiplist

/-- `insert`; `odds` is what `randomLevel` sees of `rand`. -/
def insert (sl : Skiplist) (key value : ℤ) (odds : ℕ) : Except Fault (Bool × Skiplist) := do
  let (q, update) ← descend sl.memory key sl.level sl.header none fun _ ↦ none
  let found ← hasKey sl.memory key q
  if found then pure (false, sl)
  else
    let k := randomLevel odds
    let filled := if sl.level < k then fillUpdate sl.header sl.level k update else update
    let level := if sl.level < k then k else sl.level
    let (q, memory) := sl.memory.createNode k key value
    let linked ← linkLevels filled q k memory
    pure (true, ⟨level, sl.header, linked⟩)

/-- `search`. -/
def search (sl : Skiplist) (key : ℤ) : Except Fault ℤ :=
  searchLevels sl.memory key sl.level sl.header

/-- `deleteSL`. -/
def deleteSL (sl : Skiplist) (key : ℤ) : Except Fault (Bool × Skiplist) := do
  let (q, update) ← descend sl.memory key sl.level sl.header none fun _ ↦ none
  let found ← hasKey sl.memory key q
  match q, found with
  | some q, true =>
    let unlinked ← unlinkLevels update q sl.level sl.memory
    let freed := unlinked.free q
    let level ← lowerLevel freed sl.header sl.level sl.level
    pure (true, ⟨level, sl.header, freed⟩)
  | _, _ => pure (false, sl)

end Skiplist

end Exc.SkipList
