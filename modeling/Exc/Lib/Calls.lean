import Mathlib.Data.List.Induction

/-!
# Sequences of calls with an exact guard

An object is called again and again, and a call can stop for good. `afterCalls` is what a sequence
of calls leaves. A guard is exact when a call from a good state gives a good outcome exactly if the
call meets the guard there; then all outcomes of a sequence are good exactly if all its calls meet
the guard (`alwaysGood_iff`).
-/

set_option autoImplicit false
set_option relaxedAutoImplicit false

namespace Exc.Lib

universe u

variable {ε σ : Type u} {α : Type*} {step : σ → α → Except ε σ} {first : σ}

/-- The state after a sequence of calls, or why one of them has stopped. -/
def afterCalls (step : σ → α → Except ε σ) (first : σ) (calls : List α) : Except ε σ :=
  calls.foldlM step first

/-- The outcome after each of the calls is good, and so is the first state. -/
def AlwaysGood (step : σ → α → Except ε σ) (first : σ) (good : Except ε σ → Prop)
    (calls : List α) : Prop :=
  ∀ before after, calls = before ++ after → good (afterCalls step first before)

/-- Each call meets the guard in the state that it is made in. -/
def MeetsGuard (step : σ → α → Except ε σ) (first : σ) (guard : σ → α → Prop)
    (calls : List α) : Prop :=
  ∀ before call after state, calls = before ++ call :: after →
    afterCalls step first before = .ok state → guard state call

@[simp] theorem afterCalls_nil : afterCalls step first [] = .ok first := rfl

theorem afterCalls_snoc (before : List α) (call : α) :
    afterCalls step first (before ++ [call]) =
      (afterCalls step first before).bind fun state ↦ step state call := by
  rw [afterCalls, List.foldlM_append]
  simp only [List.foldlM_cons, List.foldlM_nil, bind_pure]
  rfl

/-- By induction over the calls, the last one first. -/
theorem alwaysGood_iff {good : Except ε σ → Prop} {guard : σ → α → Prop} (hfirst : good (.ok first))
    (hstep : ∀ state call, good (.ok state) → (good (step state call) ↔ guard state call))
    (calls : List α) :
    AlwaysGood step first good calls ↔ MeetsGuard step first guard calls := by
  constructor
  · intro hgood before call after state hcalls hstate
    have hbefore := hgood before (call :: after) hcalls
    have hnext := hgood (before ++ [call]) after (by rw [hcalls, List.append_assoc]; rfl)
    rw [hstate] at hbefore
    rw [afterCalls_snoc, hstate] at hnext
    exact (hstep state call hbefore).mp hnext
  · intro hguard before
    induction before using List.reverseRecOn with
    | nil => exact fun _ _ ↦ hfirst
    | append_singleton before call ih =>
      intro after hcalls
      rw [List.append_assoc] at hcalls
      have hbefore := ih (call :: after) hcalls
      rw [afterCalls_snoc]
      cases hstate : afterCalls step first before with
      | error stop => rwa [hstate] at hbefore
      | ok state =>
        rw [hstate] at hbefore
        exact (hstep state call hbefore).mpr (hguard before call after state hcalls hstate)

end Exc.Lib
