import Mathlib.Data.List.Basic
import Mathlib.Data.List.Nodup

/-!
# Singly linked lists in a store

A store of list cells is read by a partial function `next`: `next a` is `none` where there is no
cell to read, `some none` for a cell with a null pointer, and `some (some b)` for a cell that points
to `b`. `Linked next cells` says that the cells point to one another in the order of the list and
that the last one holds the null pointer.

The rules are the ones that a pointer program needs: what a cell in the middle points to
(`Linked.next_of_append`), that the part behind a cell is linked (`Linked.of_append`), that writes
to other cells do not matter (`Linked.congr`), and what the usual two writes do: `Linked.insert`
puts a cell behind another and `Linked.remove` takes the cell behind another out.
-/

set_option autoImplicit false
set_option relaxedAutoImplicit false

namespace Exc.Lib

variable {α : Type*}

/-- The cells are linked in the order of the list, and the last one holds the null pointer. -/
def Linked (next : α → Option (Option α)) : List α → Prop
  | [] => True
  | cell :: rest => next cell = some rest.head? ∧ Linked next rest

variable {next after : α → Option (Option α)} {front rest : List α} {cell new : α}

/-- The part of a linked list from some cell on is linked. -/
theorem Linked.of_append (h : Linked next (front ++ rest)) : Linked next rest := by
  induction front with
  | nil => exact h
  | cons first front ih => exact ih h.2

/-- A cell points to the one behind it. -/
theorem Linked.next_of_append (h : Linked next (front ++ cell :: rest)) :
    next cell = some rest.head? :=
  h.of_append.1

/-- Only the cells of the list matter. -/
theorem Linked.congr {cells : List α} (h : Linked next cells)
    (hsame : ∀ a ∈ cells, after a = next a) : Linked after cells := by
  induction cells with
  | nil => trivial
  | cons first rest ih =>
    refine ⟨?_, ih h.2 fun a ha ↦ hsame a (List.mem_cons_of_mem _ ha)⟩
    rw [hsame first List.mem_cons_self]
    exact h.1

/-- A list whose front is linked up to a cell, and which is linked from that cell on, is linked. -/
theorem Linked.of_front {behind : List α} (h : Linked next (front ++ cell :: rest))
    (hfront : ∀ a ∈ front, after a = next a) (hcell : Linked after (cell :: behind)) :
    Linked after (front ++ cell :: behind) := by
  induction front with
  | nil => exact hcell
  | cons first front ih =>
    refine ⟨?_, ih h.2 fun a ha ↦ hfront a (List.mem_cons_of_mem _ ha)⟩
    have hhead : (front ++ cell :: behind).head? = (front ++ cell :: rest).head? := by
      cases front <;> rfl
    exact (hfront first List.mem_cons_self).trans (h.1.trans (congrArg some hhead.symm))

/-- Two writes put a new cell behind another one. -/
theorem Linked.insert (h : Linked next (front ++ cell :: rest))
    (hnodup : (front ++ cell :: rest).Nodup) (hnew : new ∉ front ++ cell :: rest)
    (hcell : after cell = some (some new)) (hback : after new = some rest.head?)
    (hother : ∀ a, a ≠ cell → a ≠ new → after a = next a) :
    Linked after (front ++ cell :: new :: rest) := by
  have hfront : ∀ a ∈ front, after a = next a := by
    intro a ha
    refine hother a ?_ ?_
    · rintro rfl
      exact (List.nodup_append.mp hnodup).2.2 a ha a List.mem_cons_self rfl
    · rintro rfl
      exact hnew (List.mem_append_left _ ha)
  have hrest : Linked after rest := by
    refine h.of_append.2.congr fun a ha ↦ hother a ?_ ?_
    · rintro rfl
      exact (List.nodup_cons.mp (List.nodup_append.mp hnodup).2.1).1 ha
    · rintro rfl
      exact hnew (List.mem_append_right _ (List.mem_cons_of_mem _ ha))
  exact h.of_front hfront ⟨hcell, hback, hrest⟩

/-- One write takes the cell behind another one out. -/
theorem Linked.remove {gone : α} (h : Linked next (front ++ cell :: gone :: rest))
    (hnodup : (front ++ cell :: gone :: rest).Nodup) (hcell : after cell = some rest.head?)
    (hother : ∀ a, a ≠ cell → after a = next a) : Linked after (front ++ cell :: rest) := by
  have hfront : ∀ a ∈ front, after a = next a := by
    intro a ha
    refine hother a ?_
    rintro rfl
    exact (List.nodup_append.mp hnodup).2.2 a ha a List.mem_cons_self rfl
  have hrest : Linked after rest := by
    refine h.of_append.2.2.congr fun a ha ↦ hother a ?_
    rintro rfl
    exact (List.nodup_cons.mp (List.nodup_append.mp hnodup).2.1).1 (List.mem_cons_of_mem _ ha)
  exact h.of_front hfront ⟨hcell, hrest⟩

end Exc.Lib
