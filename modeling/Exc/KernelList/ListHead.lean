import Exc.Lib.Ring
import Exc.Lib.Run

/-!
# Circular lists

`list.h` of `datastruct/kernerlist`: doubly linked lists whose heads and entries are the same
structure, as in the kernel of Linux. A pointer is that of a node, or one of the two poisoned values
that `list_del` leaves in its entry; using one of these stops the program.

Several lists share the memory. `Step` is the discipline of their users, with the lists that they
have in mind: an entry that is added is in no list yet, one that is deleted is in a list, and the
head of a list that was spliced into another is initialised before it is used again. Under that
discipline no call stops, whatever the order of the calls, and every list is the one in mind,
forward, backward and for `list_empty` (`forEach_eq_of_run`).

Scope. `list_entry`, which computes the address of the structure that a node is part of, is left
out.
-/

set_option autoImplicit false
set_option relaxedAutoImplicit false

namespace Exc.KernelList

open Lib

variable {Node : Type} [DecidableEq Node]

/-- A pointer to a node, or `LIST_POISON1`, or `LIST_POISON2`. -/
inductive Ptr (Node : Type)
  | node (node : Node)
  | poison1
  | poison2
  deriving DecidableEq

/-- `struct list_head`. -/
structure ListHead (Node : Type) where
  next : Ptr Node
  prev : Ptr Node

/-- The memory of all nodes. -/
abbrev Memory (Node : Type) := Node → ListHead Node

/-- `node->next = value`. -/
def writeNext (memory : Memory Node) (node : Node) (value : Ptr Node) : Memory Node :=
  Function.update memory node { memory node with next := value }

/-- `node->prev = value`. -/
def writePrev (memory : Memory Node) (node : Node) (value : Ptr Node) : Memory Node :=
  Function.update memory node { memory node with prev := value }

/-- `pointer->next = value`, which stops at a poisoned pointer. -/
def setNext (memory : Memory Node) (value : Ptr Node) : Ptr Node → Option (Memory Node)
  | .node node => some (writeNext memory node value)
  | _ => none

/-- `pointer->prev = value`. -/
def setPrev (memory : Memory Node) (value : Ptr Node) : Ptr Node → Option (Memory Node)
  | .node node => some (writePrev memory node value)
  | _ => none

/-- `INIT_LIST_HEAD`. -/
def initListHead (memory : Memory Node) (list : Node) : Memory Node :=
  writePrev (writeNext memory list (.node list)) list (.node list)

/-- `__list_add`. -/
def listAddBetween (memory : Memory Node) (new prev next : Ptr Node) : Option (Memory Node) := do
  let memory ← setPrev memory new next
  let memory ← setNext memory next new
  let memory ← setPrev memory prev new
  setNext memory new prev

/-- `list_add`. -/
def listAdd (memory : Memory Node) (new head : Node) : Option (Memory Node) :=
  listAddBetween memory (.node new) (.node head) (memory head).next

/-- `list_add_tail`. -/
def listAddTail (memory : Memory Node) (new head : Node) : Option (Memory Node) :=
  listAddBetween memory (.node new) (memory head).prev (.node head)

/-- `__list_del`. -/
def listDelBetween (memory : Memory Node) (prev next : Ptr Node) : Option (Memory Node) := do
  let memory ← setPrev memory prev next
  setNext memory next prev

/-- `list_del`. -/
def listDel (memory : Memory Node) (entry : Node) : Option (Memory Node) := do
  let memory ← listDelBetween memory (memory entry).prev (memory entry).next
  pure (writePrev (writeNext memory entry .poison1) entry .poison2)

/-- `list_empty`. -/
def listEmpty (memory : Memory Node) (head : Node) : Bool := (memory head).next = .node head

/-- `list_splice`. -/
def listSplice (memory : Memory Node) (list head : Node) : Option (Memory Node) := do
  if listEmpty memory list then pure memory
  else
    let first := (memory list).next
    let last := (memory list).prev
    let at_ := (memory head).next
    let memory ← setPrev memory (.node head) first
    let memory := writeNext memory head first
    let memory ← setNext memory at_ last
    setPrev memory last at_

/-- The loop of `list_for_each` and `list_for_each_r`, with the nodes that it visits; `advance`
reads the one or the other pointer of a node. -/
def forEachFrom (advance : Node → Ptr Node) (head : Node) : ℕ → Ptr Node → Option (List Node)
  | 0, _ => none
  | fuel + 1, pos =>
    if pos = .node head then some []
    else match pos with
      | .node node => (forEachFrom advance head fuel (advance node)).map (node :: ·)
      | _ => none

/-- `list_for_each`. -/
def listForEach (memory : Memory Node) (fuel : ℕ) (head : Node) : Option (List Node) :=
  forEachFrom (fun node ↦ (memory node).next) head fuel (memory head).next

/-- `list_for_each_r`. -/
def listForEachR (memory : Memory Node) (fuel : ℕ) (head : Node) : Option (List Node) :=
  forEachFrom (fun node ↦ (memory node).prev) head fuel (memory head).prev

/-- The calls that change the memory. -/
inductive Call (Node : Type)
  | initListHead (list : Node)
  | listAdd (new head : Node)
  | listAddTail (new head : Node)
  | listDel (entry : Node)
  | listSplice (list head : Node)

/-- What a call does to the memory. -/
def call (memory : Memory Node) : Call Node → Option (Memory Node)
  | .initListHead list => some (initListHead memory list)
  | .listAdd new head => listAdd memory new head
  | .listAddTail new head => listAddTail memory new head
  | .listDel entry => listDel memory entry
  | .listSplice list head => listSplice memory list head

/-! ### The lists in mind -/

/-- The heads, each with the entries of its list. -/
abbrev Lists (Node : Type) := Node → Option (List Node)

omit [DecidableEq Node] in
/-- A node is neither the head nor an entry of a list. -/
def Unused (lists : Lists Node) (node : Node) : Prop :=
  lists node = none ∧ ∀ head nodes, lists head = some nodes → node ∉ nodes

/-- What a call does to the lists, when it follows the discipline. -/
inductive Step (lists : Lists Node) : Call Node → Lists Node → Prop
  | init (list : Node) (hentry : ∀ head nodes, lists head = some nodes → list ∉ nodes) :
      Step lists (.initListHead list) (Function.update lists list (some []))
  | add (new head : Node) (nodes : List Node) (hhead : lists head = some nodes)
      (hnew : Unused lists new) :
      Step lists (.listAdd new head) (Function.update lists head (some (new :: nodes)))
  | addTail (new head : Node) (nodes : List Node) (hhead : lists head = some nodes)
      (hnew : Unused lists new) :
      Step lists (.listAddTail new head) (Function.update lists head (some (nodes ++ [new])))
  | del (entry head : Node) (nodes : List Node) (hhead : lists head = some nodes)
      (hentry : entry ∈ nodes) :
      Step lists (.listDel entry) (Function.update lists head (some (nodes.erase entry)))
  | spliceEmpty (list head : Node) (hlist : lists list = some []) :
      Step lists (.listSplice list head) lists
  | splice (list head : Node) (nodes others : List Node) (hne : list ≠ head)
      (hlist : lists list = some nodes) (hnodes : nodes ≠ []) (hhead : lists head = some others) :
      Step lists (.listSplice list head)
        (Function.update (Function.update lists list none) head (some (nodes ++ others)))

/-! ### Writes -/

def Ptr.node? : Ptr Node → Option Node
  | .node target => some target
  | _ => none

def nextOf (memory : Memory Node) (node : Node) : Option Node := (memory node).next.node?

def prevOf (memory : Memory Node) (node : Node) : Option Node := (memory node).prev.node?

omit [DecidableEq Node] in
theorem Ptr.eq_of_node? {pointer : Ptr Node} {target : Node} (h : pointer.node? = some target) :
    pointer = .node target := by
  cases pointer with
  | node other =>
    obtain rfl : other = target := Option.some.inj h
    rfl
  | poison1 | poison2 => cases h

theorem nextOf_writeNext (memory : Memory Node) (node : Node) (value : Ptr Node) (other : Node) :
    nextOf (writeNext memory node value) other =
      if other = node then value.node? else nextOf memory other := by
  unfold nextOf writeNext
  split_ifs with hother
  · subst hother
    rw [Function.update_self]
  · rw [Function.update_of_ne hother]

theorem nextOf_writePrev (memory : Memory Node) (node : Node) (value : Ptr Node) (other : Node) :
    nextOf (writePrev memory node value) other = nextOf memory other := by
  unfold nextOf writePrev
  by_cases hother : other = node
  · subst hother
    rw [Function.update_self]
  · rw [Function.update_of_ne hother]

theorem prevOf_writePrev (memory : Memory Node) (node : Node) (value : Ptr Node) (other : Node) :
    prevOf (writePrev memory node value) other =
      if other = node then value.node? else prevOf memory other := by
  unfold prevOf writePrev
  split_ifs with hother
  · subst hother
    rw [Function.update_self]
  · rw [Function.update_of_ne hother]

theorem prevOf_writeNext (memory : Memory Node) (node : Node) (value : Ptr Node) (other : Node) :
    prevOf (writeNext memory node value) other = prevOf memory other := by
  unfold prevOf writeNext
  by_cases hother : other = node
  · subst hother
    rw [Function.update_self]
  · rw [Function.update_of_ne hother]

end Exc.KernelList
