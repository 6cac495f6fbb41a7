import Mathlib.Data.List.DropRight
import Mathlib.Data.List.TakeWhile

/-!
# Trimming

A list without what satisfies a predicate at its two ends. `IsTrim` says what that is, and
`exists_isTrim` that there is one for every list.
-/

set_option autoImplicit false
set_option relaxedAutoImplicit false

namespace Exc.Lib

variable {α : Type*} {p : α → Bool} {text kept : List α}

/-- `kept` is what is left of `text` when all entries with `p` are taken away from its two ends. -/
structure IsTrim (p : α → Bool) (text kept : List α) : Prop where
  split : ∃ front back, text = front ++ kept ++ back ∧ (∀ entry ∈ front, p entry) ∧
    ∀ entry ∈ back, p entry
  head : ∀ entry ∈ kept.head?, ¬p entry
  last : ∀ entry ∈ kept.getLast?, ¬p entry

theorem exists_isTrim (p : α → Bool) (text : List α) : ∃ kept, IsTrim p text kept := by
  refine ⟨(text.dropWhile p).rdropWhile p, ⟨text.takeWhile p, (text.dropWhile p).rtakeWhile p,
    ?_, fun _ ↦ List.mem_takeWhile_imp, fun _ ↦ List.mem_rtakeWhile_imp⟩, ?_, ?_⟩
  · rw [List.append_assoc, List.rdropWhile_append_rtakeWhile, List.takeWhile_append_dropWhile]
  · intro entry hentry
    obtain ⟨rest, hrest⟩ := List.rdropWhile_prefix p (text.dropWhile p)
    have hhead : (text.dropWhile p).head? = some entry := by
      rw [← hrest, List.head?_append, Option.mem_def.mp hentry, Option.some_or]
    have hnot := List.head?_dropWhile_not p text
    rw [hhead] at hnot
    simpa using hnot
  · intro entry hentry
    obtain ⟨hne, hlast⟩ := List.mem_getLast?_eq_getLast hentry
    rw [hlast]
    exact List.rdropWhile_last_not p _ hne

/-- Nothing is left exactly if all entries are taken away. -/
theorem IsTrim.eq_nil_iff (h : IsTrim p text kept) : kept = [] ↔ ∀ entry ∈ text, p entry := by
  obtain ⟨⟨front, back, rfl, hfront, hback⟩, hhead, -⟩ := h
  constructor
  · rintro rfl entry hentry
    rw [List.append_nil] at hentry
    exact (List.mem_append.mp hentry).elim (hfront entry) (hback entry)
  · intro hall
    cases kept with
    | nil => rfl
    | cons entry rest => exact absurd (hall entry (by simp)) (hhead entry rfl)

/-- A list without such entries is its own trim. -/
theorem isTrim_self (hclean : ∀ entry ∈ text, ¬p entry) : IsTrim p text text where
  split := ⟨[], [], by simp, nofun, nofun⟩
  head entry hentry := hclean entry (List.mem_of_mem_head? hentry)
  last entry hentry := hclean entry (List.mem_of_mem_getLast? hentry)

end Exc.Lib
