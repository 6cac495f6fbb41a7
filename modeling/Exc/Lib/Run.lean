import Mathlib.Data.List.Basic
import Mathlib.Logic.Function.Basic

/-!
# Runs of a labelled transition system

A transition system is a relation `step state action next`. `Run step` is its finite runs, built by
adding one action at the end, so that an induction over a run looks at the last step first. The
invariant rule is `Run.invariant`: what holds at the start and is kept by every step holds at the
end, and since every prefix of a run is a run it holds of every state on the way. `guarded`
restricts a system to the steps taken in states that meet a condition, which is how a statement
about the runs whose steps all meet a condition is written.

The systems of this development are partial functions `State → Action → Option State`, so that they
can be evaluated. `stepOf` is the relation of such a function and `Run.of_isSome` turns an evaluated
run into a `Run`.
-/

set_option autoImplicit false
set_option relaxedAutoImplicit false

namespace Exc.Lib

variable {σ α : Type*}

/-- The finite runs of a transition system, oldest action first. -/
inductive Run (step : σ → α → σ → Prop) (first : σ) : List α → σ → Prop
  | refl : Run step first [] first
  | tail {middle last : σ} {actions : List α} {action : α} :
      Run step first actions middle → step middle action last →
        Run step first (actions ++ [action]) last

/-- The steps of a system taken in a state that meets the guard. -/
def guarded (guard : σ → α → Prop) (step : σ → α → σ → Prop) : σ → α → σ → Prop :=
  fun state action next ↦ guard state action ∧ step state action next

/-- The transition relation of a partial step function. -/
def stepOf (next : σ → α → Option σ) : σ → α → σ → Prop :=
  fun state action result ↦ next state action = some result

variable {step other : σ → α → σ → Prop} {first middle last : σ} {actions later : List α}

/-- The invariant rule: a property of the first state that every step keeps holds of the last. -/
theorem Run.invariant (property : σ → Prop) (hrun : Run step first actions last)
    (hfirst : property first)
    (hstep : ∀ state action next, property state → step state action next → property next) :
    property last := by
  induction hrun with
  | refl => exact hfirst
  | tail _ hlast ih => exact hstep _ _ _ ih hlast

/-- Runs compose. -/
theorem Run.trans (hfirst : Run step first actions middle) (hlast : Run step middle later last) :
    Run step first (actions ++ later) last := by
  induction hlast with
  | refl => simpa using hfirst
  | tail _ hstep ih =>
    rw [← List.append_assoc]
    exact ih.tail hstep

/-- A run of one system is a run of every system that has all its steps. -/
theorem Run.mono (hrun : Run step first actions last)
    (hle : ∀ state action next, step state action next → other state action next) :
    Run other first actions last := by
  induction hrun with
  | refl => exact .refl
  | tail _ hlast ih => exact ih.tail (hle _ _ _ hlast)

/-- A guarded run is a run. -/
theorem Run.of_guarded {guard : σ → α → Prop} (hrun : Run (guarded guard step) first actions last) :
    Run step first actions last :=
  hrun.mono fun _ _ _ hstep ↦ hstep.2

/-- A run with one more action at the front. -/
theorem Run.head {action : α} (hstep : step first action middle)
    (hrun : Run step middle actions last) : Run step first (action :: actions) last :=
  Run.trans (Run.tail .refl hstep) hrun

/-- The simulation rule: a system whose steps are all matched by steps of another system with the
same action, from related states to related states, has only runs that the other one has. -/
theorem Run.simulation {τ : Type*} {spec : τ → α → τ → Prop} {related : σ → τ → Prop} {start : τ}
    (hrun : Run step first actions last) (hfirst : related first start)
    (hstep : ∀ state abstract action next, related state abstract → step state action next →
      ∃ result, spec abstract action result ∧ related next result) :
    ∃ result, Run spec start actions result ∧ related last result := by
  induction hrun with
  | refl => exact ⟨start, .refl, hfirst⟩
  | tail _ hlast ih =>
    obtain ⟨abstract, hspec, hrelated⟩ := ih
    obtain ⟨result, hmatch, hnext⟩ := hstep _ _ _ _ hrelated hlast
    exact ⟨result, hspec.tail hmatch, hnext⟩

/-- A run of a partial step function is its fold. -/
theorem Run.foldlM_eq {next : σ → α → Option σ} (hrun : Run (stepOf next) first actions last) :
    actions.foldlM next first = some last := by
  induction hrun with
  | refl => rfl
  | tail _ hlast ih =>
    rw [List.foldlM_append, ih]
    simpa [stepOf] using hlast

/-- A partial step function that is stuck where the guard fails. -/
def guardedNext (guard : σ → α → Prop) [∀ state action, Decidable (guard state action)]
    (next : σ → α → Option σ) : σ → α → Option σ :=
  fun state action ↦ if guard state action then next state action else none

/-- Folding a partial step function over a list of actions is a run of its relation. -/
theorem Run.of_foldlM {guard : σ → α → Prop} [∀ state action, Decidable (guard state action)]
    {next : σ → α → Option σ} :
    ∀ {actions : List α} {first last : σ},
      actions.foldlM (guardedNext guard next) first = some last →
        Run (guarded guard (stepOf next)) first actions last
  | [], first, last, hfold => by
    obtain rfl : first = last := by simpa using hfold
    exact .refl
  | action :: rest, first, last, hfold => by
    rw [List.foldlM_cons] at hfold
    obtain ⟨middle, hmiddle, hrest⟩ := Option.bind_eq_some_iff.mp hfold
    rw [guardedNext] at hmiddle
    split_ifs at hmiddle with hguard
    exact Run.head ⟨hguard, hmiddle⟩ (Run.of_foldlM hrest)

/-- A run that goes through can be evaluated: its last state is the value of the fold. -/
theorem Run.of_isSome {guard : σ → α → Prop} [∀ state action, Decidable (guard state action)]
    {next : σ → α → Option σ} {actions : List α} {first : σ}
    (hsome : (actions.foldlM (guardedNext guard next) first).isSome) :
    Run (guarded guard (stepOf next)) first actions
      ((actions.foldlM (guardedNext guard next) first).get hsome) :=
  Run.of_foldlM (Option.some_get hsome).symm

/-- The same for a system without a guard. -/
theorem Run.of_eval {next : σ → α → Option σ} {actions : List α} {first : σ}
    (hsome : (actions.foldlM next first).isSome) :
    Run (stepOf next) first actions ((actions.foldlM next first).get hsome) := by
  have hfold : actions.foldlM (guardedNext (fun _ _ ↦ True) next) first =
      some ((actions.foldlM next first).get hsome) := by
    rw [Option.some_get]
    rfl
  exact (Run.of_foldlM hfold).of_guarded

end Exc.Lib
