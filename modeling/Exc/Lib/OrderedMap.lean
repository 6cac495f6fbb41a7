import Mathlib.Data.UInt
import Mathlib.Logic.Basic

/-!
# Ordered maps

What lookups find in an `ExtTreeMap` whose order tells all keys apart, and that a map is rebuilt
from its list of entries.
-/

set_option autoImplicit false
set_option relaxedAutoImplicit false

namespace Exc.Lib

open Std

variable {α β γ : Type*} {cmp : α → α → Ordering} [TransCmp cmp] [LawfulEqCmp cmp]

omit [LawfulEqCmp cmp] in
/-- The keys of a map are those that have a value. -/
theorem mem_iff_exists_getElem? {map : ExtTreeMap α β cmp} {key : α} :
    key ∈ map ↔ ∃ value, map[key]? = some value :=
  ExtTreeMap.mem_iff_isSome_getElem?.trans Option.isSome_iff_exists

theorem getElem?_insert_eq [DecidableEq α] (map : ExtTreeMap α β cmp) (key other : α) (value : β) :
    (map.insert key value)[other]? = if key = other then some value else map[other]? := by
  rw [ExtTreeMap.getElem?_insert]
  by_cases hkey : key = other
  · rw [if_pos hkey, if_pos (LawfulEqCmp.compare_eq_iff_eq.mpr hkey)]
  · rw [if_neg hkey, if_neg fun heq ↦ hkey (LawfulEqCmp.eq_of_compare heq)]

theorem getElem?_insert_of_ne (map : ExtTreeMap α β cmp) {key other : α} (hkey : key ≠ other)
    (value : β) : (map.insert key value)[other]? = map[other]? := by
  rw [ExtTreeMap.getElem?_insert, if_neg fun heq ↦ hkey (LawfulEqCmp.eq_of_compare heq)]

theorem insert_insert (map : ExtTreeMap α β cmp) (key : α) (first second : β) :
    (map.insert key first).insert key second = map.insert key second := by
  refine ExtTreeMap.ext_getElem? fun other ↦ ?_
  by_cases hkey : key = other
  · rw [hkey, ExtTreeMap.getElem?_insert_self, ExtTreeMap.getElem?_insert_self]
  · rw [getElem?_insert_of_ne _ hkey, getElem?_insert_of_ne _ hkey, getElem?_insert_of_ne _ hkey]

/-- Changing the values changes nothing exactly if it changes no value that is there. -/
theorem map_eq_self_iff (map : ExtTreeMap α β cmp) (change : β → β) :
    (map.map fun _ ↦ change) = map ↔
      ∀ (key : α) (value : β), map[key]? = some value → change value = value := by
  constructor
  · intro hmap key value hvalue
    have hchanged : (map.map fun _ ↦ change)[key]? = map[key]? := by rw [hmap]
    rw [ExtTreeMap.getElem?_map, hvalue] at hchanged
    exact Option.some.inj hchanged
  · intro hvalues
    refine ExtTreeMap.ext_getElem? fun key ↦ ?_
    rw [ExtTreeMap.getElem?_map]
    cases hvalue : map[key]? with
    | none => rfl
    | some value => exact congrArg some (hvalues key value hvalue)

/-- The entries of a map, each with its value changed, make up the map with its values changed. -/
theorem insertMany_toList [DecidableEq α] (map : ExtTreeMap α β cmp) (change : β → γ) :
    (∅ : ExtTreeMap α γ cmp).insertMany (map.toList.map fun entry ↦ (entry.1, change entry.2)) =
      map.map fun _ ↦ change := by
  have hdistinct : (map.toList.map fun entry ↦ (entry.1, change entry.2)).Pairwise
      fun first second ↦ ¬cmp first.1 second.1 = .eq := by
    rw [List.pairwise_map]
    exact ExtTreeMap.distinct_keys_toList
  refine ExtTreeMap.ext_getElem? fun key ↦ ?_
  rw [ExtTreeMap.getElem?_map]
  cases hvalue : map[key]? with
  | none =>
    have habsent : ((map.toList.map fun entry ↦ (entry.1, change entry.2)).map Prod.fst).contains
        key = false := by
      rw [List.contains_eq_mem, decide_eq_false_iff_not]
      intro hkey
      simp only [List.map_map, List.mem_map, Function.comp_apply] at hkey
      obtain ⟨⟨first, value⟩, hentry, rfl⟩ := hkey
      rw [ExtTreeMap.mem_toList_iff_getElem?_eq_some] at hentry
      exact absurd (hentry.symm.trans hvalue) (Option.some_ne_none value)
    rw [ExtTreeMap.getElem?_insertMany_list_of_contains_eq_false habsent, ExtTreeMap.getElem?_empty]
    rfl
  | some value =>
    have hmem : (key, value) ∈ map.toList :=
      ExtTreeMap.mem_toList_iff_getElem?_eq_some.mpr hvalue
    exact ExtTreeMap.getElem?_insertMany_list_of_mem ReflCmp.compare_self hdistinct
      (List.mem_map.mpr ⟨(key, value), hmem, rfl⟩)

end Exc.Lib
