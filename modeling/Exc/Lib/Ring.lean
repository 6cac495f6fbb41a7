import Mathlib.Data.List.Chain
import Mathlib.Data.List.Nodup

/-!
# Rings of nodes

A circular doubly linked list in a store that is read by two partial functions, `next` and `prev`.
`Ring next prev head nodes` says that one gets from the head through the nodes and back to the head,
and the same way backwards.

Every write to a ring changes a place between two neighbours, and `Ring.replace` is
the rule for it: what stands between the two neighbours is replaced by another way from the one to
the other. Writes to other nodes do not matter (`Ring.congr`).
-/

set_option autoImplicit false
set_option relaxedAutoImplicit false

namespace Exc.Lib

variable {α : Type*}

/-- Every node of the path points to the one behind it, and that one back. -/
def Path (next prev : α → Option α) (path : List α) : Prop :=
  path.IsChain fun a b ↦ next a = some b ∧ prev b = some a

/-- From the head through the nodes to the head. -/
def Ring (next prev : α → Option α) (head : α) (nodes : List α) : Prop :=
  Path next prev ((head :: nodes) ++ [head])

variable {next prev after before : α → Option α} {head : α} {front rest nodes : List α}

/-- Only the forward pointers of all nodes but the last, and the backward pointers of all but the
first, matter. -/
theorem Path.congr : ∀ {path : List α}, Path next prev path →
    (∀ a ∈ path.dropLast, after a = next a) → (∀ a ∈ path.tail, before a = prev a) →
    Path after before path
  | [], _, _, _ => .nil
  | [a], _, _, _ => .singleton a
  | a :: b :: path, h, hnext, hprev => by
    obtain ⟨hlink, hpath⟩ := List.isChain_cons_cons.mp h
    refine List.isChain_cons_cons.mpr ⟨⟨?_, ?_⟩, Path.congr hpath ?_ ?_⟩
    · rw [hnext a List.mem_cons_self, hlink.1]
    · rw [hprev b List.mem_cons_self, hlink.2]
    · exact fun c hc ↦ hnext c (List.mem_cons_of_mem _ hc)
    · exact fun c hc ↦ hprev c (List.mem_cons_of_mem _ hc)

/-- Writes outside a ring do not matter. -/
theorem Ring.congr (h : Ring next prev head nodes)
    (hnext : ∀ a ∈ head :: nodes, after a = next a)
    (hprev : ∀ a ∈ head :: nodes, before a = prev a) : Ring after before head nodes := by
  refine Path.congr h (fun a ha ↦ hnext a ?_) fun a ha ↦ hprev a ?_
  · rwa [List.dropLast_concat] at ha
  · rw [List.cons_append, List.tail_cons, List.mem_append, List.mem_singleton] at ha
    exact List.mem_cons.mpr ha.symm

/-- The two parts of a ring and the link between them. -/
theorem ring_append : Ring next prev head (front ++ rest) ↔
    Path next prev (head :: front) ∧ Path next prev (rest ++ [head]) ∧
      ∀ a ∈ (head :: front).getLast?, ∀ b ∈ (rest ++ [head]).head?,
        next a = some b ∧ prev b = some a := by
  rw [Ring, ← List.cons_append, List.append_assoc]
  exact List.isChain_append

theorem ne_of_mem_dropLast {path : List α} (hnodup : path.Nodup) {a last : α}
    (ha : a ∈ path.dropLast) (hlast : last ∈ path.getLast?) : a ≠ last := by
  rintro rfl
  rw [← List.dropLast_append_getLast? a hlast] at hnodup
  exact (List.nodup_append.mp hnodup).2.2 a ha a (List.mem_singleton_self a) rfl

theorem ne_of_mem_tail {path : List α} (hnodup : path.Nodup) {a first : α}
    (ha : a ∈ path.tail) (hfirst : first ∈ path.head?) : a ≠ first := by
  rintro rfl
  rw [← List.cons_head?_tail hfirst] at hnodup
  exact (List.nodup_cons.mp hnodup).1 ha

theorem ne_of_mem_front {x b : α} (hnodup : (head :: (front ++ rest)).Nodup) (hx : x ∈ front)
    (hb : b ∈ (rest ++ [head]).head?) : x ≠ b := by
  rintro rfl
  have hmem : x ∈ rest ++ [head] := List.mem_of_mem_head? hb
  obtain ⟨hhead, hparts⟩ := List.nodup_cons.mp hnodup
  rcases List.mem_append.mp hmem with hrest | hlast
  · exact (List.nodup_append.mp hparts).2.2 x hx x hrest rfl
  · obtain rfl := List.mem_singleton.mp hlast
    exact hhead (List.mem_append_left _ hx)

theorem ne_of_mem_rest {x a : α} (hnodup : (head :: (front ++ rest)).Nodup) (hx : x ∈ rest)
    (ha : a ∈ (head :: front).getLast?) : x ≠ a := by
  rintro rfl
  have hmem : x ∈ head :: front := List.mem_of_mem_getLast? ha
  rw [← List.cons_append] at hnodup
  exact (List.nodup_append.mp hnodup).2.2 x hmem x hx rfl

/-- Between two nodes of a ring there is another way now. -/
theorem Ring.replace {old middle : List α} {a b : α}
    (h : Ring next prev head (front ++ old ++ rest)) (hnodup : (head :: (front ++ rest)).Nodup)
    (ha : a ∈ (head :: front).getLast?)
    (hb : b ∈ (rest ++ [head]).head?) (hmiddle : Path after before (a :: (middle ++ [b])))
    (hnext : ∀ x ∈ head :: (front ++ rest), x ≠ a → after x = next x)
    (hprev : ∀ x ∈ head :: (front ++ rest), x ≠ b → before x = prev x) :
    Ring after before head (front ++ middle ++ rest) := by
  obtain ⟨hfront, hrest, -⟩ := ring_append.mp h
  rw [← List.cons_append] at hfront
  have hpathA : Path after before (head :: front) := by
    have hpath : Path next prev (head :: front) := List.IsChain.left_of_append hfront
    refine hpath.congr (fun x hx ↦ hnext x ?_ ?_)
      fun x hx ↦ hprev x ?_ (ne_of_mem_front hnodup hx hb)
    · rw [← List.cons_append]
      exact List.mem_append_left _ (List.dropLast_subset _ hx)
    · exact ne_of_mem_dropLast (List.nodup_append.mp (List.cons_append ▸ hnodup)).1 hx ha
    · exact List.mem_cons_of_mem _ (List.mem_append_left _ hx)
  have hpathB : Path after before (rest ++ [head]) := by
    have hnodupB : (rest ++ [head]).Nodup := by
      obtain ⟨hhead, hparts⟩ := List.nodup_cons.mp hnodup
      refine List.nodup_append.mpr ⟨(List.nodup_append.mp hparts).2.1, List.nodup_singleton _, ?_⟩
      rintro x hx y hy rfl
      obtain rfl := List.mem_singleton.mp hy
      exact hhead (List.mem_append_right _ hx)
    refine hrest.congr (fun x hx ↦ ?_) fun x hx ↦ hprev x ?_ (ne_of_mem_tail hnodupB hx hb)
    · rw [List.dropLast_concat] at hx
      exact hnext x (List.mem_cons_of_mem _ (List.mem_append_right _ hx))
        (ne_of_mem_rest hnodup hx ha)
    · rcases List.mem_append.mp (List.mem_of_mem_tail hx) with hmem | hmem
      · exact List.mem_cons_of_mem _ (List.mem_append_right _ hmem)
      · rw [List.mem_singleton.mp hmem]
        exact List.mem_cons_self
  -- The three ways meet at the two nodes.
  rw [Ring, ← List.cons_append, ← List.cons_append, List.append_assoc, List.append_assoc,
    ← List.dropLast_append_getLast? a ha, ← List.cons_head?_tail hb, List.append_assoc,
    List.singleton_append, ← List.cons_append, ← List.append_assoc]
  refine List.isChain_split.mpr ⟨?_, ?_⟩
  · rw [List.append_assoc, List.cons_append]
    refine List.isChain_split.mpr ⟨?_, hmiddle⟩
    rw [List.dropLast_append_getLast? a ha]
    exact hpathA
  · rw [List.cons_head?_tail hb]
    exact hpathB

/-- The neighbours of a place in a ring point to each other. -/
theorem Ring.link {a b : α} (h : Ring next prev head (front ++ rest))
    (ha : a ∈ (head :: front).getLast?) (hb : b ∈ (rest ++ [head]).head?) :
    next a = some b ∧ prev b = some a :=
  (ring_append.mp h).2.2 a ha b hb

end Exc.Lib
