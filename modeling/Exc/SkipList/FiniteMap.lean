import Exc.Lib.Refinement
import Exc.SkipList.Operations

/-!
# The skip list is a finite map

What the skip list is for: a partial function from keys to values with finitely many keys.
`Map.apply` is what its three operations mean there. `Represents` relates a list to the map of its
towers, and `skiplist_refines_map` says that every sequence of operations on a new list, whatever
levels are drawn, returns without a fault what the map returns.
-/

set_option autoImplicit false
set_option relaxedAutoImplicit false

namespace Exc.SkipList

open Lib

/-! ### The map -/

/-- The three operations. What `rand` does is part of an insertion. -/
inductive Op
  | insert (key value : ℤ) (odds : ℕ)
  | search (key : ℤ)
  | deleteSL (key : ℤ)

/-- What an operation returns. -/
inductive Result
  | flag (done : Bool)
  | value (found : ℤ)
  deriving DecidableEq

/-- A map from keys to values. -/
abbrev Map := ℤ → Option ℤ

/-- The operations on a map: keys are added once, and only keys that are there are removed. -/
def Map.apply (map : Map) : Op → Result × Map
  | .insert key value _ =>
    if map key = none then (.flag true, Function.update map key (some value))
    else (.flag false, map)
  | .search key => (.value ((map key).getD 0), map)
  | .deleteSL key =>
    if map key = none then (.flag false, map)
    else (.flag true, Function.update map key none)

/-- The operations on a list. -/
def Skiplist.apply (sl : Skiplist) : Op → Except Fault (Result × Skiplist)
  | .insert key value odds => do
    let (done, next) ← sl.insert key value odds
    pure (.flag done, next)
  | .search key => do
    let found ← sl.search key
    pure (.value found, sl)
  | .deleteSL key => do
    let (done, next) ← sl.deleteSL key
    pure (.flag done, next)

/-! ### The map of the towers -/

/-- The map that towers stand for. -/
def toMap (towers : List Tower) : Map :=
  fun key ↦ (towers.find? fun t ↦ t.key = key).map Tower.value

/-- The list stands for the map. -/
def Represents (sl : Skiplist) (map : Map) : Prop :=
  ∃ towers, Valid sl towers ∧ map = toMap towers

section Split

variable {key : ℤ} {before after : List Tower}

theorem toMap_absent (hbefore : ∀ t ∈ before, t.key < key) (hafter : ∀ t ∈ after, key < t.key) :
    toMap (before ++ after) key = none := by
  refine Option.map_eq_none_iff.mpr (List.find?_eq_none.mpr fun t ht ↦ ?_)
  rcases List.mem_append.mp ht with hlt | hgt
  · simpa using (hbefore t hlt).ne
  · simpa using (hafter t hgt).ne'

/-- A tower between those with smaller and those with larger keys adds its key to the map. -/
theorem toMap_middle {t : Tower} (hkey : t.key = key) (hbefore : ∀ s ∈ before, s.key < key) :
    toMap (before ++ t :: after) =
      Function.update (toMap (before ++ after)) key (some t.value) := by
  have hskip : before.find? (fun s ↦ s.key = key) = none := by
    refine List.find?_eq_none.mpr fun s hs ↦ ?_
    simpa using (hbefore s hs).ne
  funext other
  by_cases hother : other = key
  · subst hother
    simp [toMap, List.find?_append, hskip, hkey]
  · rw [Function.update_of_ne hother]
    have hne : ¬ t.key = other := fun heq ↦ hother (heq.symm.trans hkey)
    simp [toMap, List.find?_append, hne]

end Split

/-! ### The refinement -/

/-- The loop that clears the pointers of the header. -/
theorem clearForward_spec {memory : Memory} {header : Addr} {key value : ℤ}
    (hshape : memory.shape header = some (key, value, maxLevel)) :
    ∀ i ≤ maxLevel, ∃ cleared, clearForward header i memory = .ok cleared ∧
      cleared.shape = memory.shape ∧ cleared.fresh = memory.fresh ∧
      ∀ j < i, cleared.slot j header = some none := by
  intro i
  induction i with
  | zero => exact fun _ ↦ ⟨memory, rfl, rfl, rfl, fun j hj ↦ absurd hj (Nat.not_lt_zero j)⟩
  | succ i ih =>
    intro hi
    obtain ⟨below, hbelow, hbelowShape, hbelowFresh, hbelowSlot⟩ := ih (by omega)
    obtain ⟨done, hdone, hdoneShape, hdoneFresh, hdoneSlot, hdoneOthers⟩ :=
      Memory.setForward_spec (hbelowShape ▸ hshape) hi none
    refine ⟨done, ?_, hdoneShape.trans hbelowShape, hdoneFresh.trans hbelowFresh, fun j hj ↦ ?_⟩
    · rw [clearForward, hbelow]
      exact hdone
    · rcases Nat.lt_succ_iff_lt_or_eq.mp hj with hlt | rfl
      · rw [hdoneOthers j header (Or.inl hlt.ne), hbelowSlot j hlt]
      · exact hdoneSlot

/-- A new list stands for the empty map. -/
theorem createSkiplist_represents :
    ∃ sl, createSkiplist = .ok sl ∧ Represents sl fun _ ↦ none := by
  obtain ⟨hshape, -⟩ := createNode_spec ⟨fun _ ↦ none, 0⟩ (maxLevel - 1) 0 0
  obtain ⟨cleared, hcleared, hclearedShape, hclearedFresh, hslots⟩ :=
    clearForward_spec hshape maxLevel le_rfl
  refine ⟨⟨0, 0, cleared⟩, ?_, [], ⟨?_, rfl⟩, rfl⟩
  · simp only [Memory.createNode] at hcleared
    simp only [createSkiplist, Memory.createNode, hcleared]
    rfl
  · refine ⟨⟨0, 0, by rw [hclearedShape]; exact hshape⟩, by simp, by simp, List.Pairwise.nil,
      by simp, ?_, fun i hi ↦ ⟨hslots i hi, trivial⟩⟩
    intro a ha
    obtain rfl : a = 0 := by simpa using ha
    rw [hclearedFresh]
    exact Nat.zero_lt_one

/-- One operation on a list does what it does on the map, and without a fault. -/
theorem apply_refines (sl : Skiplist) (map : Map) (op : Op) (h : Represents sl map) :
    ∃ next, sl.apply op = .ok ((map.apply op).1, next) ∧ Represents next (map.apply op).2 := by
  obtain ⟨towers, hvalid, rfl⟩ := h
  cases op with
  | insert key value odds =>
    obtain ⟨before, after, hbefore, hafter, rfl | ⟨t, hkey, rfl⟩⟩ := exists_split hvalid.sorted key
    · obtain ⟨next, hinsert, hnext⟩ := insert_absent hvalid hbefore hafter value odds
      refine ⟨next, ?_, _, hnext, ?_⟩
      · simp [Skiplist.apply, hinsert, Map.apply, toMap_absent hbefore hafter, bind, Except.bind,
          pure, Except.pure]
      · rw [toMap_middle rfl hbefore]
        simp [Map.apply, toMap_absent hbefore hafter]
    · refine ⟨sl, ?_, _, hvalid, ?_⟩
      · simp [Skiplist.apply, insert_present hvalid hkey hbefore hafter, Map.apply,
          toMap_middle hkey hbefore, bind, Except.bind, pure, Except.pure]
      · simp [Map.apply, toMap_middle hkey hbefore]
  | search key =>
    refine ⟨sl, ?_, towers, hvalid, rfl⟩
    obtain ⟨before, after, hbefore, hafter, rfl | ⟨t, hkey, rfl⟩⟩ := exists_split hvalid.sorted key
    · have hsearch := searchLevels_absent hvalid.toHolds hbefore hafter sl.level sl.header
        hvalid.level_le (Or.inl rfl)
      simp [Skiplist.apply, Skiplist.search, hsearch, Map.apply, toMap_absent hbefore hafter, bind,
        Except.bind, pure, Except.pure]
    · have hpos : 1 ≤ sl.level := by
        have hmem : t ∈ before ++ t :: after := List.mem_append_right _ List.mem_cons_self
        rw [hvalid.level_eq]
        exact lt_topLevel.mpr ⟨t, hmem, (hvalid.heights t hmem).1⟩
      have hsearch := searchLevels_present hvalid.toHolds hkey hbefore hafter sl.level sl.header
        hpos hvalid.level_le (Or.inl rfl)
      simp [Skiplist.apply, Skiplist.search, hsearch, Map.apply, toMap_middle hkey hbefore, bind,
        Except.bind, pure, Except.pure]
  | deleteSL key =>
    obtain ⟨before, after, hbefore, hafter, rfl | ⟨t, hkey, rfl⟩⟩ := exists_split hvalid.sorted key
    · refine ⟨sl, ?_, _, hvalid, ?_⟩
      · simp [Skiplist.apply, deleteSL_absent hvalid hbefore hafter, Map.apply,
          toMap_absent hbefore hafter, bind, Except.bind, pure, Except.pure]
      · simp [Map.apply, toMap_absent hbefore hafter]
    · obtain ⟨next, hdelete, hnext⟩ := deleteSL_present hvalid hkey hbefore hafter
      refine ⟨next, ?_, _, hnext, ?_⟩
      · simp [Skiplist.apply, hdelete, Map.apply, toMap_middle hkey hbefore, bind, Except.bind,
          pure, Except.pure]
      · rw [Map.apply, toMap_middle hkey hbefore, if_neg (by simp)]
        simp only [Function.update_idem]
        exact Function.update_eq_self_iff.mpr (toMap_absent hbefore hafter).symm

/-- Every sequence of operations on a new list returns what a finite map returns, for every outcome
of the level draws. -/
theorem skiplist_refines_map (ops : List Op) :
    ∃ sl last, createSkiplist = .ok sl ∧
      runExcept Skiplist.apply ops sl = .ok ((runSpec Map.apply ops fun _ ↦ none).1, last) ∧
      Represents last (runSpec Map.apply ops fun _ ↦ none).2 := by
  obtain ⟨sl, hcreate, hempty⟩ := createSkiplist_represents
  obtain ⟨last, hrun, hlast⟩ := run_refines apply_refines ops sl _ hempty
  exact ⟨sl, last, hcreate, hrun, hlast⟩

end Exc.SkipList
