import Mathlib.Data.List.Basic

/-!
# Refinement of a total specification by a fallible implementation

An implementation takes an operation and a state, and fails or returns a result and a state; a
specification always returns. `run_refines` is the simulation rule: when every operation on related
states succeeds with the result of the specification and leads to related states again, so does
every sequence of operations. `runExcept_invariant` is the rule for a property of the implementation
alone.
-/

set_option autoImplicit false
set_option relaxedAutoImplicit false

namespace Exc.Lib

universe u

/-- A computation that succeeds does so in each of its parts. -/
theorem bind_eq_ok {ε α β : Type u} {x : Except ε α} {f : α → Except ε β} {result : β}
    (h : x >>= f = .ok result) : ∃ a, x = .ok a ∧ f a = .ok result := by
  cases x with
  | error e => cases h
  | ok a => exact ⟨a, rfl, h⟩

variable {ε σ τ α ρ : Type*}

/-- The results of a sequence of operations of an implementation, and its last state. -/
def runExcept (step : σ → α → Except ε (ρ × σ)) : List α → σ → Except ε (List ρ × σ)
  | [], state => .ok ([], state)
  | op :: rest, state => do
    let (result, next) ← step state op
    let (results, last) ← runExcept step rest next
    pure (result :: results, last)

/-- The results of a sequence of operations of a specification, and its last state. -/
def runSpec (spec : τ → α → ρ × τ) : List α → τ → List ρ × τ
  | [], state => ([], state)
  | op :: rest, state =>
    let (result, next) := spec state op
    let (results, last) := runSpec spec rest next
    (result :: results, last)

/-- The simulation rule. -/
theorem run_refines {step : σ → α → Except ε (ρ × σ)} {spec : τ → α → ρ × τ}
    {related : σ → τ → Prop}
    (hstep : ∀ concrete abstract op, related concrete abstract →
      ∃ next, step concrete op = .ok ((spec abstract op).1, next) ∧
        related next (spec abstract op).2) :
    ∀ (ops : List α) (concrete : σ) (abstract : τ), related concrete abstract →
      ∃ last, runExcept step ops concrete = .ok ((runSpec spec ops abstract).1, last) ∧
        related last (runSpec spec ops abstract).2 := by
  intro ops
  induction ops with
  | nil => exact fun concrete abstract h ↦ ⟨concrete, rfl, h⟩
  | cons op rest ih =>
    intro concrete abstract h
    obtain ⟨next, hok, hnext⟩ := hstep concrete abstract op h
    obtain ⟨last, hrest, hlast⟩ := ih next _ hnext
    refine ⟨last, ?_, hlast⟩
    simp only [runExcept, runSpec, hok, hrest, bind, Except.bind]
    rfl

/-- The invariant rule: operations that succeed from every good state and lead to one succeed in
every sequence. -/
theorem runExcept_invariant {step : σ → α → Except ε (ρ × σ)} {good : σ → Prop}
    (hstep : ∀ state op, good state →
      ∃ result next, step state op = .ok (result, next) ∧ good next) :
    ∀ (ops : List α) (state : σ), good state →
      ∃ results last, runExcept step ops state = .ok (results, last) ∧ good last := by
  intro ops
  induction ops with
  | nil => exact fun state h ↦ ⟨[], state, rfl, h⟩
  | cons op rest ih =>
    intro state h
    obtain ⟨result, next, hok, hnext⟩ := hstep state op h
    obtain ⟨results, last, hrest, hlast⟩ := ih next hnext
    refine ⟨result :: results, last, ?_, hlast⟩
    simp only [runExcept, hok, hrest, bind, Except.bind]
    rfl

end Exc.Lib
