import Mathlib.Algebra.BigOperators.Group.Finset.Basic
import Mathlib.Algebra.BigOperators.Group.Finset.Piecewise
import Mathlib.Algebra.Order.BigOperators.Group.Finset
import Mathlib.Data.Fintype.Basic

/-!
# Threads of a program

Finitely many threads, each at a place of its program: `pc thread`. Most invariants of counting
semaphores relate a counter to the number of threads at certain places, which is the `total` of a
weight. `total_update` says how it changes when one thread moves on.

`Exclusive inside lock pc` is the invariant of a mutex: a thread is at a place inside the critical
section exactly when it holds the lock. It is kept by a move that does not cross the border
(`Exclusive.move`), by taking a free lock (`Exclusive.acquire`) and by releasing it
(`Exclusive.release`). A weight that only places inside have is then the weight of the place of the
holder (`Exclusive.total_eq`).
-/

set_option autoImplicit false
set_option relaxedAutoImplicit false

namespace Exc.Lib

variable {ι π : Type*} [Fintype ι] [DecidableEq ι]

/-- The total of a weight over the places of all threads. -/
def total (weight : π → ℕ) (pc : ι → π) : ℕ := ∑ thread, weight (pc thread)

variable {weight : π → ℕ} {pc : ι → π} {thread : ι} {place : π}

omit [DecidableEq ι] in
theorem total_const (weight : π → ℕ) (hzero : weight place = 0) :
    total weight (fun _ : ι ↦ place) = 0 :=
  Finset.sum_eq_zero fun _ _ ↦ hzero

omit [DecidableEq ι] in
theorem le_total : weight (pc thread) ≤ total weight pc :=
  Finset.single_le_sum (f := fun other ↦ weight (pc other)) (fun _ _ ↦ Nat.zero_le _)
    (Finset.mem_univ thread)

omit [DecidableEq ι] in
/-- A weight that is one at some places and zero at the others counts the threads there. -/
theorem total_eq_card {counts : π → Prop} [DecidablePred counts]
    (hweight : ∀ place, weight place = if counts place then 1 else 0) (pc : ι → π) :
    total weight pc = (Finset.univ.filter fun thread ↦ counts (pc thread)).card := by
  rw [Finset.card_filter]
  exact Finset.sum_congr rfl fun thread _ ↦ hweight (pc thread)

/-- One thread moves on: its old weight is replaced by the new one. -/
theorem total_update (weight : π → ℕ) (pc : ι → π) (thread : ι) (place : π) :
    total weight (Function.update pc thread place) + weight (pc thread) =
      total weight pc + weight place := by
  have hrest : ∑ other ∈ Finset.univ.erase thread, weight (Function.update pc thread place other) =
      ∑ other ∈ Finset.univ.erase thread, weight (pc other) := by
    refine Finset.sum_congr rfl fun other hother ↦ ?_
    rw [Function.update_of_ne (Finset.ne_of_mem_erase hother)]
  rw [total, total, ← Finset.add_sum_erase _ _ (Finset.mem_univ thread), hrest,
    ← Finset.add_sum_erase Finset.univ (fun other ↦ weight (pc other)) (Finset.mem_univ thread),
    Function.update_self]
  omega

/-! ### Mutual exclusion -/

/-- A thread is inside exactly when it holds the lock. -/
def Exclusive (inside : π → Bool) (lock : Option ι) (pc : ι → π) : Prop :=
  ∀ thread, inside (pc thread) = true ↔ lock = some thread

variable {inside : π → Bool} {lock : Option ι}

omit [Fintype ι] in
/-- A thread moves without entering or leaving the critical section. -/
theorem Exclusive.move (h : Exclusive inside lock pc) (hsame : inside place = inside (pc thread)) :
    Exclusive inside lock (Function.update pc thread place) := by
  intro other
  by_cases hother : other = thread
  · subst hother
    rw [Function.update_self, hsame]
    exact h other
  · rw [Function.update_of_ne hother]
    exact h other

omit [Fintype ι] in
/-- A thread takes the free lock. -/
theorem Exclusive.acquire (h : Exclusive inside none pc) (hinside : inside place = true) :
    Exclusive inside (some thread) (Function.update pc thread place) := by
  intro other
  by_cases hother : other = thread
  · subst hother
    simp [hinside]
  · have hout := (h other).not.mpr (by simp)
    rw [Function.update_of_ne hother]
    exact ⟨fun hin ↦ absurd hin hout, fun heq ↦ absurd (Option.some.inj heq).symm hother⟩

omit [Fintype ι] in
/-- The holder releases the lock. -/
theorem Exclusive.release (h : Exclusive inside lock pc) (hin : inside (pc thread) = true)
    (hout : inside place = false) : Exclusive inside none (Function.update pc thread place) := by
  intro other
  by_cases hother : other = thread
  · subst hother
    simp [hout]
  · have hholder := (h thread).mp hin
    rw [Function.update_of_ne hother]
    refine ⟨fun hinside ↦ ?_, fun heq ↦ by cases heq⟩
    rw [(h other).mp hinside] at hholder
    exact absurd (Option.some.inj hholder) hother

omit [Fintype ι] [DecidableEq ι] in
/-- Two threads are not inside at once. -/
theorem Exclusive.unique (h : Exclusive inside lock pc) (hin : inside (pc thread) = true)
    {other : ι} (hother : inside (pc other) = true) : other = thread := by
  have hlock := (h thread).mp hin
  rw [(h other).mp hother] at hlock
  exact Option.some.inj hlock

omit [DecidableEq ι] in
/-- A weight of places inside is the weight of the place of the holder. -/
theorem Exclusive.total_eq (weight : π → ℕ) (h : Exclusive inside lock pc)
    (hin : inside (pc thread) = true) (hweight : ∀ place, inside place = false → weight place = 0) :
    total weight pc = weight (pc thread) := by
  refine Finset.sum_eq_single thread (fun other _ hne ↦ hweight _ ?_)
    (fun hmem ↦ absurd (Finset.mem_univ thread) hmem)
  by_contra hother
  exact hne (h.unique hin (by simpa using hother))

end Exc.Lib
