import Mathlib.Data.List.Basic
import Mathlib.Logic.Function.Basic

/-!
# A row of slots

Slots with numbers, each empty or with one thing in it. Things come in at slot 0, move from a slot
to the next one if that is empty, and go out at the last slot. `contents` is what is in the slots
up to a number, the last slot first: a move does not change it (`contents_move`), what comes in is
behind everything else (`contents_put`), and what goes out was the first (`contents_take`).
-/

set_option autoImplicit false
set_option relaxedAutoImplicit false

namespace Exc.Lib

variable {α : Type*}

/-- What the slots hold, the last slot first. -/
def contents (slots : ℕ → Option α) : ℕ → List α
  | 0 => (slots 0).toList
  | last + 1 => (slots (last + 1)).toList ++ contents slots last

variable {slots other : ℕ → Option α} {last i : ℕ} {thing : α}

theorem contents_congr (hsame : ∀ i ≤ last, other i = slots i) :
    contents other last = contents slots last := by
  induction last with
  | zero => rw [contents, contents, hsame 0 (Nat.le_refl 0)]
  | succ last ih =>
    rw [contents, contents, hsame (last + 1) (Nat.le_refl _), ih fun i hi ↦ hsame i (by omega)]

theorem mem_contents : thing ∈ contents slots last ↔ ∃ i ≤ last, slots i = some thing := by
  induction last with
  | zero => simp [contents]
  | succ last ih =>
    rw [contents, List.mem_append, ih, Option.mem_toList]
    constructor
    · rintro (hlast | ⟨i, hi, hslot⟩)
      · exact ⟨last + 1, Nat.le_refl _, hlast⟩
      · exact ⟨i, by omega, hslot⟩
    · rintro ⟨i, hi, hslot⟩
      rcases Nat.lt_or_eq_of_le hi with hlt | rfl
      · exact Or.inr ⟨i, by omega, hslot⟩
      · exact Or.inl hslot

/-- What comes in at the first slot is behind everything else. -/
theorem contents_put (hempty : slots 0 = none) (last : ℕ) (thing : α) :
    contents (Function.update slots 0 (some thing)) last = contents slots last ++ [thing] := by
  induction last with
  | zero => simp [contents, hempty]
  | succ last ih =>
    rw [contents, contents, Function.update_of_ne (by omega), ih, List.append_assoc]

/-- A thing that moves to the next slot keeps its place. -/
theorem contents_move (hslot : slots i = some thing) (hempty : slots (i + 1) = none) :
    ∀ {last : ℕ}, i + 1 ≤ last →
      contents (Function.update (Function.update slots (i + 1) (some thing)) i none) last =
        contents slots last := by
  intro last hlast
  induction last with
  | zero => omega
  | succ last ih =>
    rw [contents, contents, Function.update_of_ne (by omega)]
    rcases Nat.lt_or_eq_of_le hlast with hlt | heq
    · rw [Function.update_of_ne (by omega), ih (by omega)]
    · obtain rfl : i = last := by omega
      have hbelow : contents (Function.update (Function.update slots (i + 1) (some thing)) i none) i
          = contents (Function.update slots i none) i :=
        contents_congr fun j hj ↦ by
          by_cases hji : j = i
          · rw [hji, Function.update_self, Function.update_self]
          · rw [Function.update_of_ne hji, Function.update_of_ne hji,
              Function.update_of_ne (by omega)]
      rw [hbelow, Function.update_self, hempty]
      cases i with
      | zero => simp [contents, hslot]
      | succ i =>
        have hrest : contents (Function.update slots (i + 1) none) i = contents slots i :=
          contents_congr fun j hj ↦ Function.update_of_ne (by omega) _ _
        simp [contents, hslot, hrest]

/-- What goes out at the last slot was the first. -/
theorem contents_take (hslot : slots last = some thing) :
    contents slots last = thing :: contents (Function.update slots last none) last := by
  cases last with
  | zero => simp [contents, hslot]
  | succ last =>
    have hrest : contents (Function.update slots (last + 1) none) last = contents slots last :=
      contents_congr fun j hj ↦ Function.update_of_ne (by omega) _ _
    simp [contents, hslot, hrest]

end Exc.Lib
