import Mathlib.Data.List.DropRight
import Mathlib.Data.List.Perm.Basic
import Mathlib.Order.Lattice

/-!
# Stable insertion into a sorted list

`insertStable key bound x list` walks a list from its end over the elements whose key is above
`bound` and puts `x` after the first element it does not pass. With `bound` the key of `x`, on a
list in non-decreasing order of key the result is again in that order, and `x` stands behind every
element with the same key, so a second component that grows with every insertion stays increasing
among equal keys (`insertStable_pairwise`).
-/

set_option autoImplicit false
set_option relaxedAutoImplicit false

namespace Exc.Lib

variable {α β : Type*} [LinearOrder β] {key : α → β} {bound : β} {x : α} {list : List α}

/-- Insertion from the end: behind the last element whose key is at most the bound. -/
def insertStable (key : α → β) (bound : β) (x : α) (list : List α) : List α :=
  list.rdropWhile (fun y ↦ bound < key y) ++ x :: list.rtakeWhile (fun y ↦ bound < key y)

/-- Insertion adds one element. -/
theorem insertStable_perm (key : α → β) (bound : β) (x : α) (list : List α) :
    (insertStable key bound x list).Perm (x :: list) := by
  refine List.perm_middle.trans (List.Perm.of_eq ?_)
  rw [List.rdropWhile_append_rtakeWhile]

@[simp] theorem mem_insertStable {y : α} :
    y ∈ insertStable key bound x list ↔ y = x ∨ y ∈ list := by
  rw [(insertStable_perm key bound x list).mem_iff, List.mem_cons]

/-- Below every key of the list, the element goes to the front. -/
theorem insertStable_of_lt (hlt : ∀ y ∈ list, bound < key y) :
    insertStable key bound x list = x :: list := by
  have hdrop : list.rdropWhile (fun y ↦ decide (bound < key y)) = [] :=
    List.rdropWhile_eq_nil_iff.mpr fun y hy ↦ by simpa using hlt y hy
  have htake : list.rtakeWhile (fun y ↦ decide (bound < key y)) = list :=
    List.rtakeWhile_eq_self_iff.mpr fun y hy ↦ by simpa using hlt y hy
  rw [insertStable, hdrop, htake, List.nil_append]

/-- A first element whose key is at most the bound stays first. -/
theorem insertStable_head? {first : α} (hhead : list.head? = some first)
    (hle : key first ≤ bound) : (insertStable key bound x list).head? = some first := by
  have hne : list.rdropWhile (fun y ↦ decide (bound < key y)) ≠ [] := by
    intro hnil
    have hlt := List.rdropWhile_eq_nil_iff.mp hnil first (List.mem_of_head? hhead)
    exact absurd (by simpa using hlt) (not_lt.mpr hle)
  obtain ⟨rest, hrest⟩ := List.rdropWhile_prefix (fun y ↦ decide (bound < key y)) list
  obtain ⟨front, tail, hfront⟩ := List.exists_cons_of_ne_nil hne
  rw [← hrest, hfront, List.cons_append, List.head?_cons] at hhead
  rw [insertStable, hfront, List.cons_append, List.head?_cons]
  exact hhead

/-- In a sorted list nothing that the walk leaves in front is above the bound. -/
theorem key_le_of_mem_rdropWhile (hsorted : list.Pairwise fun a b ↦ key a ≤ key b) {y : α}
    (hy : y ∈ list.rdropWhile fun z ↦ decide (bound < key z)) : key y ≤ bound := by
  have hne : list.rdropWhile (fun z ↦ decide (bound < key z)) ≠ [] := List.ne_nil_of_mem hy
  have hlast := List.rdropWhile_last_not (fun z ↦ decide (bound < key z)) list hne
  have hprefix := hsorted.sublist
    (List.rdropWhile_prefix (fun z ↦ decide (bound < key z)) list).sublist
  rw [← List.dropLast_append_getLast hne] at hprefix hy
  -- Every element of the part in front is at most its last one, and the last one stopped the walk.
  have hle : key y ≤ key ((list.rdropWhile fun z ↦ decide (bound < key z)).getLast hne) := by
    rcases List.mem_append.mp hy with hinit | hend
    · exact (List.pairwise_append.mp hprefix).2.2 y hinit _ (List.mem_singleton_self _)
    · rw [List.mem_singleton.mp hend]
  exact hle.trans (not_lt.mp (by simpa using hlast))

/-- Insertion into a sorted list keeps every relation that follows the order of keys strictly below
and puts the new element last among equal keys. Assumes: a relation that holds of two elements of
increasing key, and of every element of the list and `x` when their keys agree. -/
theorem insertStable_pairwise {relation : α → α → Prop} (hbound : key x = bound)
    (hlist : list.Pairwise relation)
    (hsorted : list.Pairwise fun a b ↦ key a ≤ key b)
    (hlt : ∀ a b, key a < key b → relation a b)
    (heq : ∀ a ∈ list, key a = key x → relation a x) :
    (insertStable key bound x list).Pairwise relation := by
  subst hbound
  have hparts : (list.rdropWhile (fun y ↦ decide (key x < key y)) ++
      list.rtakeWhile fun y ↦ decide (key x < key y)).Pairwise relation := by
    rw [List.rdropWhile_append_rtakeWhile]
    exact hlist
  obtain ⟨hfront, hback, hcross⟩ := List.pairwise_append.mp hparts
  refine List.pairwise_append.mpr ⟨hfront, List.pairwise_cons.mpr ⟨?_, hback⟩, ?_⟩
  · intro b hb
    exact hlt x b (by simpa using List.mem_rtakeWhile_imp hb)
  · intro a ha b hb
    rcases List.mem_cons.mp hb with rfl | hb
    · rcases (key_le_of_mem_rdropWhile hsorted ha).lt_or_eq with hbelow | hsame
      · exact hlt a b hbelow
      · exact heq a ((List.rdropWhile_prefix _ list).subset ha) hsame
    · exact hcross a ha b hb

end Exc.Lib
