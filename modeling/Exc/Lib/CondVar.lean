import Exc.Lib.Threads

/-!
# Condition variables

Threads wait on a condition variable at places of their program that `waits` marks, and waking one
moves it from such a place to another (`wake`). A signal wakes at least one of the threads that
wait, if any does, and a broadcast wakes them all; which threads a signal wakes is the choice of the
scheduler, a set that `Signals` admits. A spurious wake-up wakes one thread, whatever happened.

`wakeUp` is the effect of all three on the places. A weight that waking does not change has the same
total afterwards (`total_wakeUp`), and a signal that leaves a thread waiting has woken another
(`Signals.exists_woken`).
-/

set_option autoImplicit false
set_option relaxedAutoImplicit false

namespace Exc.Lib

variable {ι π : Type*} [Fintype ι] [DecidableEq ι]

/-- The threads that wait. -/
def waiters (waits : π → Bool) (pc : ι → π) : Finset ι :=
  Finset.univ.filter fun thread ↦ waits (pc thread) = true

omit [DecidableEq ι] in
@[simp] theorem mem_waiters {waits : π → Bool} {pc : ι → π} {thread : ι} :
    thread ∈ waiters waits pc ↔ waits (pc thread) = true := by
  simp [waiters]

omit [Fintype ι] in
/-- The threads of a set are woken. -/
def wakeUp (wake : π → π) (woken : Finset ι) (pc : ι → π) : ι → π :=
  fun thread ↦ if thread ∈ woken then wake (pc thread) else pc thread

/-- `pthread_cond_signal` may wake the threads of the set: they all wait, and there is one when any
thread waits. -/
def Signals (waits : π → Bool) (pc : ι → π) (woken : Finset ι) : Prop :=
  woken ⊆ waiters waits pc ∧ (woken = ∅ → waiters waits pc = ∅)

instance (waits : π → Bool) (pc : ι → π) (woken : Finset ι) : Decidable (Signals waits pc woken) :=
  inferInstanceAs (Decidable (_ ∧ _))

variable {waits : π → Bool} {wake : π → π} {pc : ι → π} {woken : Finset ι}

omit [Fintype ι] in
theorem wakeUp_of_notMem {thread : ι} (hnot : thread ∉ woken) :
    wakeUp wake woken pc thread = pc thread :=
  if_neg hnot

omit [Fintype ι] in
theorem wakeUp_of_mem {thread : ι} (hmem : thread ∈ woken) :
    wakeUp wake woken pc thread = wake (pc thread) :=
  if_pos hmem

/-- Waking does not change the total of a weight that the places before and after it share. -/
theorem total_wakeUp {weight : π → ℕ} (hwoken : woken ⊆ waiters waits pc)
    (hweight : ∀ place, waits place = true → weight (wake place) = weight place) :
    total weight (wakeUp wake woken pc) = total weight pc := by
  refine Finset.sum_congr rfl fun thread _ ↦ ?_
  by_cases hmem : thread ∈ woken
  · rw [wakeUp_of_mem hmem]
    exact hweight _ (mem_waiters.mp (hwoken hmem))
  · rw [wakeUp_of_notMem hmem]

/-- Where a thread still waits after a signal, another one was woken. -/
theorem Signals.exists_woken (h : Signals waits pc woken) {thread : ι}
    (hwaits : waits (wakeUp wake woken pc thread) = true) :
    ∃ other ∈ woken, waits (pc other) = true := by
  by_cases hnone : woken = ∅
  · have hempty := h.2 hnone
    rw [wakeUp_of_notMem (by simp [hnone])] at hwaits
    have hmem : thread ∈ waiters waits pc := mem_waiters.mpr hwaits
    rw [hempty] at hmem
    exact absurd hmem (Finset.notMem_empty thread)
  · obtain ⟨other, hother⟩ := Finset.nonempty_iff_ne_empty.mpr hnone
    exact ⟨other, hother, mem_waiters.mp (h.1 hother)⟩

end Exc.Lib
