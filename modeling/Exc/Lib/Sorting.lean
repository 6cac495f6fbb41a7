import Mathlib.Data.List.Perm.Basic
import Mathlib.Order.Lattice

/-!
# Sorting with a comparator that can fault

What `std::sort` asks of a comparator and what it does in return, for a comparator that can fault:
`SafeOn` is the precondition, that the comparator can be evaluated on the elements and is a strict
weak ordering of them, and `IsSort` the contract. A sort compares each element of a range of two or
more with another one, so that an element on which the comparator faults makes the sort fault.

A comparator that compares keys is safe (`safeOn_of_key`), and the contract can be met:
`insertionSort_isSort`.
-/

set_option autoImplicit false
set_option relaxedAutoImplicit false

namespace Exc.Lib

variable {α ε : Type*}

/-- A comparator can be evaluated on the elements of a set and is a strict weak ordering of them. -/
structure SafeOn (compare : α → α → Except ε Bool) (elements : Set α) : Prop where
  evaluates : ∀ first ∈ elements, ∀ second ∈ elements, ∃ less, compare first second = .ok less
  irrefl : ∀ element ∈ elements, compare element element = .ok false
  trans : ∀ first ∈ elements, ∀ second ∈ elements, ∀ third ∈ elements,
    compare first second = .ok true → compare second third = .ok true →
      compare first third = .ok true
  incomparable_trans : ∀ first ∈ elements, ∀ second ∈ elements, ∀ third ∈ elements,
    compare first second = .ok false ∧ compare second first = .ok false →
      compare second third = .ok false ∧ compare third second = .ok false →
        compare first third = .ok false ∧ compare third first = .ok false

/-- A comparator of keys is safe. -/
theorem safeOn_of_key {κ : Type*} [LinearOrder κ] {compare : α → α → Except ε Bool}
    {elements : Set α} (key : α → κ)
    (hcompare : ∀ first ∈ elements, ∀ second ∈ elements,
      ∃ less, compare first second = .ok less ∧ (less ↔ key first < key second)) :
    SafeOn compare elements := by
  have htrue : ∀ first ∈ elements, ∀ second ∈ elements,
      (compare first second = .ok true ↔ key first < key second) := by
    intro first hfirst second hsecond
    obtain ⟨less, hless, hiff⟩ := hcompare first hfirst second hsecond
    rw [hless, ← hiff, Except.ok.injEq]
  have hfalse : ∀ first ∈ elements, ∀ second ∈ elements,
      (compare first second = .ok false ↔ key second ≤ key first) := by
    intro first hfirst second hsecond
    obtain ⟨less, hless, hiff⟩ := hcompare first hfirst second hsecond
    rw [hless, ← not_lt, ← hiff, Except.ok.injEq, Bool.not_eq_true]
  refine ⟨?_, ?_, ?_, ?_⟩
  · intro first hfirst second hsecond
    obtain ⟨less, hless, -⟩ := hcompare first hfirst second hsecond
    exact ⟨less, hless⟩
  · exact fun element helement ↦ (hfalse element helement element helement).mpr (le_refl _)
  · intro first hfirst second hsecond third hthird hleft hright
    rw [htrue first hfirst second hsecond] at hleft
    rw [htrue second hsecond third hthird] at hright
    exact (htrue first hfirst third hthird).mpr (lt_trans hleft hright)
  · intro first hfirst second hsecond third hthird
    rw [hfalse first hfirst second hsecond, hfalse second hsecond first hfirst,
      hfalse second hsecond third hthird, hfalse third hthird second hsecond,
      hfalse first hfirst third hthird, hfalse third hthird first hfirst]
    rintro ⟨hleft, hright⟩ ⟨hleft', hright'⟩
    exact ⟨le_trans hleft' hleft, le_trans hright hright'⟩

namespace SafeOn

variable {compare : α → α → Except ε Bool} {elements : Set α}

theorem subset {others : Set α} (hsafe : SafeOn compare elements) (hsubset : others ⊆ elements) :
    SafeOn compare others where
  evaluates first hfirst second hsecond :=
    hsafe.evaluates first (hsubset hfirst) second (hsubset hsecond)
  irrefl element helement := hsafe.irrefl element (hsubset helement)
  trans first hfirst second hsecond third hthird :=
    hsafe.trans first (hsubset hfirst) second (hsubset hsecond) third (hsubset hthird)
  incomparable_trans first hfirst second hsecond third hthird :=
    hsafe.incomparable_trans first (hsubset hfirst) second (hsubset hsecond) third (hsubset hthird)

/-- One of two elements is less, or neither is. -/
theorem asymm (hsafe : SafeOn compare elements) {first second : α} (hfirst : first ∈ elements)
    (hsecond : second ∈ elements) (hless : compare first second = .ok true) :
    compare second first = .ok false := by
  obtain ⟨less, hcompare⟩ := hsafe.evaluates second hsecond first hfirst
  cases less with
  | false => exact hcompare
  | true =>
    have hself := hsafe.trans first hfirst second hsecond first hfirst hless hcompare
    rw [hsafe.irrefl first hfirst] at hself
    exact absurd hself (by simp)

/-- Not being less is transitive. -/
theorem not_less_trans (hsafe : SafeOn compare elements) {first second third : α}
    (hfirst : first ∈ elements) (hsecond : second ∈ elements) (hthird : third ∈ elements)
    (hleft : compare second first = .ok false) (hright : compare third second = .ok false) :
    compare third first = .ok false := by
  obtain ⟨less, hcompare⟩ := hsafe.evaluates third hthird first hfirst
  cases less with
  | false => exact hcompare
  | true =>
    -- The third is less than the first, so that the second is incomparable with both of them.
    have hfirstSecond : compare first second = .ok false := by
      obtain ⟨less, hless⟩ := hsafe.evaluates first hfirst second hsecond
      cases less with
      | false => exact hless
      | true =>
        have hchain := hsafe.trans third hthird first hfirst second hsecond hcompare hless
        rw [hright] at hchain
        exact absurd hchain (by simp)
    have hsecondThird : compare second third = .ok false := by
      obtain ⟨less, hless⟩ := hsafe.evaluates second hsecond third hthird
      cases less with
      | false => exact hless
      | true =>
        have hchain := hsafe.trans second hsecond third hthird first hfirst hless hcompare
        rw [hleft] at hchain
        exact absurd hchain (by simp)
    exact (hsafe.incomparable_trans first hfirst second hsecond third hthird
      ⟨hfirstSecond, hleft⟩ ⟨hsecondThird, hright⟩).2

end SafeOn

/-- An element cannot be compared with the elements of a list. -/
def FaultsAgainst (compare : α → α → Except ε Bool) (element : α) (elements : List α) : Prop :=
  ∀ other ∈ elements, (∃ fault, compare element other = .error fault) ∧
    ∃ fault, compare other element = .error fault

/-- What `std::sort` does. It compares nothing if there are not two elements. -/
structure IsSort (sort : (α → α → Except ε Bool) → List α → Except ε (List α)) : Prop where
  sorts : ∀ compare elements, SafeOn compare {element | element ∈ elements} →
    ∃ sorted, sort compare elements = .ok sorted ∧ sorted.Perm elements ∧
      sorted.Pairwise fun first second ↦ compare second first = .ok false
  faults : ∀ compare elements element, element ∈ elements → 2 ≤ elements.length →
    FaultsAgainst compare element elements → ∃ fault, sort compare elements = .error fault
  short : ∀ compare elements, elements.length ≤ 1 → sort compare elements = .ok elements

/-! ### A sort -/

/-- An element is inserted before the first one that is greater. -/
def insertSorted (compare : α → α → Except ε Bool) (element : α) : List α → Except ε (List α)
  | [] => .ok [element]
  | head :: rest =>
    match compare element head with
    | .error fault => .error fault
    | .ok true => .ok (element :: head :: rest)
    | .ok false => (insertSorted compare element rest).map (head :: ·)

/-- Insertion sort. -/
def insertionSort (compare : α → α → Except ε Bool) : List α → Except ε (List α)
  | [] => .ok []
  | element :: rest => do
    let sorted ← insertionSort compare rest
    insertSorted compare element sorted

variable {compare : α → α → Except ε Bool}

theorem insertSorted_cons_true {element head : α} (rest : List α)
    (hless : compare element head = .ok true) :
    insertSorted compare element (head :: rest) = .ok (element :: head :: rest) := by
  rw [insertSorted, hless]

theorem insertSorted_cons_false {element head : α} {rest inserted : List α}
    (hless : compare element head = .ok false)
    (hinserted : insertSorted compare element rest = .ok inserted) :
    insertSorted compare element (head :: rest) = .ok (head :: inserted) := by
  rw [insertSorted, hless]
  dsimp only
  rw [hinserted]
  rfl

theorem insertSorted_cons_error {element head : α} (rest : List α) {fault : ε}
    (hfault : compare element head = .error fault) :
    insertSorted compare element (head :: rest) = .error fault := by
  rw [insertSorted, hfault]

/-- Inserting into a sorted list keeps it sorted. -/
theorem insertSorted_spec {elements : Set α} (hsafe : SafeOn compare elements) {element : α}
    (helement : element ∈ elements) {list : List α} (hlist : ∀ other ∈ list, other ∈ elements)
    (hsorted : list.Pairwise fun first second ↦ compare second first = .ok false) :
    ∃ inserted, insertSorted compare element list = .ok inserted ∧
      inserted.Perm (element :: list) ∧
      inserted.Pairwise fun first second ↦ compare second first = .ok false := by
  induction list with
  | nil => exact ⟨[element], rfl, List.Perm.refl _, List.pairwise_singleton _ _⟩
  | cons head rest ih =>
    obtain ⟨hhead, hrest⟩ := List.forall_mem_cons.mp hlist
    obtain ⟨hfirst, hpairs⟩ := List.pairwise_cons.mp hsorted
    obtain ⟨less, hless⟩ := hsafe.evaluates element helement head hhead
    cases less with
    | true =>
      refine ⟨_, insertSorted_cons_true rest hless, List.Perm.refl _, ?_⟩
      have hnot := hsafe.asymm helement hhead hless
      refine List.pairwise_cons.mpr ⟨?_, hsorted⟩
      intro other hother
      rcases List.mem_cons.mp hother with rfl | hother
      · exact hnot
      · exact hsafe.not_less_trans helement hhead (hrest other hother) hnot (hfirst other hother)
    | false =>
      obtain ⟨inserted, hinserted, hperm, hpairwise⟩ := ih hrest hpairs
      refine ⟨_, insertSorted_cons_false hless hinserted, ?_, ?_⟩
      · exact (hperm.cons head).trans (List.Perm.swap element head rest)
      · refine List.pairwise_cons.mpr ⟨?_, hpairwise⟩
        intro other hother
        rcases List.mem_cons.mp (hperm.mem_iff.mp hother) with rfl | hother
        · exact hless
        · exact hfirst other hother

theorem insertionSort_sorts (elements : List α)
    (hsafe : SafeOn compare {element | element ∈ elements}) :
    ∃ sorted, insertionSort compare elements = .ok sorted ∧ sorted.Perm elements ∧
      sorted.Pairwise fun first second ↦ compare second first = .ok false := by
  induction elements with
  | nil => exact ⟨[], rfl, List.Perm.refl _, List.Pairwise.nil⟩
  | cons element rest ih =>
    obtain ⟨sorted, hsorted, hperm, hpairwise⟩ :=
      ih (hsafe.subset fun other hother ↦ List.mem_cons_of_mem element hother)
    have helement : element ∈ {other | other ∈ element :: rest} := List.mem_cons_self
    obtain ⟨inserted, hinserted, hperm', hpairwise'⟩ := insertSorted_spec hsafe helement
      (fun other hother ↦ List.mem_cons_of_mem element (hperm.mem_iff.mp hother)) hpairwise
    refine ⟨inserted, ?_, hperm'.trans (hperm.cons element), hpairwise'⟩
    rw [insertionSort, hsorted]
    exact hinserted

theorem perm_of_insertSorted {element : α} {list inserted : List α}
    (hinserted : insertSorted compare element list = .ok inserted) :
    inserted.Perm (element :: list) := by
  induction list generalizing inserted with
  | nil =>
    obtain rfl := Except.ok.inj hinserted
    exact List.Perm.refl _
  | cons head rest ih =>
    rw [insertSorted] at hinserted
    split at hinserted
    · cases hinserted
    · obtain rfl := Except.ok.inj hinserted
      exact List.Perm.refl _
    · cases hrest : insertSorted compare element rest with
      | error fault =>
        rw [hrest] at hinserted
        cases hinserted
      | ok tail =>
        rw [hrest] at hinserted
        obtain rfl := Except.ok.inj hinserted
        exact ((ih hrest).cons head).trans (List.Perm.swap element head rest)

theorem perm_of_insertionSort {elements sorted : List α}
    (hsorted : insertionSort compare elements = .ok sorted) : sorted.Perm elements := by
  induction elements generalizing sorted with
  | nil =>
    obtain rfl := Except.ok.inj hsorted
    exact List.Perm.refl _
  | cons element rest ih =>
    rw [insertionSort] at hsorted
    cases hrest : insertionSort compare rest with
    | error fault =>
      rw [hrest] at hsorted
      cases hsorted
    | ok tail =>
      rw [hrest] at hsorted
      exact (perm_of_insertSorted hsorted).trans ((ih hrest).cons element)

theorem insertionSort_faults (elements : List α) {element : α} (helement : element ∈ elements)
    (htwo : 2 ≤ elements.length) (hfaults : FaultsAgainst compare element elements) :
    ∃ fault, insertionSort compare elements = .error fault := by
  induction elements with
  | nil => exact absurd htwo (by simp)
  | cons head rest ih =>
    cases hsorted : insertionSort compare rest with
    | error fault => exact ⟨fault, by rw [insertionSort, hsorted]; rfl⟩
    | ok sorted =>
      have hperm := perm_of_insertionSort hsorted
      -- The head is compared with the first of the sorted rest, and one of the two faults.
      suffices hfirst : ∃ first tail fault, sorted = first :: tail ∧
          compare head first = .error fault by
        obtain ⟨first, tail, fault, rfl, hfault⟩ := hfirst
        refine ⟨fault, ?_⟩
        rw [insertionSort, hsorted]
        exact insertSorted_cons_error tail hfault
      rw [List.length_cons] at htwo
      cases sorted with
      | nil =>
        have hlength := hperm.length_eq
        rw [List.length_nil] at hlength
        omega
      | cons first tail =>
        have hfirst : first ∈ rest := hperm.mem_iff.mp List.mem_cons_self
        rcases List.mem_cons.mp helement with rfl | hrest
        · obtain ⟨⟨fault, hfault⟩, -⟩ := hfaults first (List.mem_cons_of_mem _ hfirst)
          exact ⟨first, tail, fault, rfl, hfault⟩
        · have hone : ¬2 ≤ rest.length := by
            intro hlength
            obtain ⟨fault, hfault⟩ := ih hrest hlength fun other hother ↦
              hfaults other (List.mem_cons_of_mem head hother)
            rw [hfault] at hsorted
            cases hsorted
          obtain ⟨single, rfl⟩ : ∃ single, rest = [single] :=
            List.length_eq_one_iff.mp (by omega)
          obtain rfl := List.mem_singleton.mp hrest
          obtain rfl := List.mem_singleton.mp hfirst
          obtain ⟨-, fault, hfault⟩ := hfaults head List.mem_cons_self
          exact ⟨first, tail, fault, rfl, hfault⟩

theorem insertionSort_isSort : IsSort (insertionSort (α := α) (ε := ε)) where
  sorts _ := insertionSort_sorts
  faults _ elements _ := insertionSort_faults elements
  short _ elements hlength := by
    match elements, hlength with
    | [], _ => rfl
    | [element], _ => rfl

end Exc.Lib
