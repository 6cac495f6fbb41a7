import Mathlib.Algebra.Group.Fin.Basic
import Mathlib.Algebra.GroupWithZero.Nat
import Mathlib.Data.Fin.VecNotation
import Mathlib.Logic.Function.Basic

/-!
# Rounds on rotating registers

A round of a hash function computes some new words in the places of old ones and then moves every
word to the next register. Code that unrolls the rounds leaves the words where they are and renames
the registers from round to round instead: in round `t` the word at position `i` is in the register
`i - t` (`renamed`, `renamed_update`).

The words of a message enter the rounds through a ring of sixteen variables: a new word overwrites
the one that is sixteen rounds old. `RingHolds` says what is in the ring.
-/

set_option autoImplicit false
set_option relaxedAutoImplicit false

namespace Exc.Lib

variable {α : Type*} {n : ℕ} [NeZero n]

/-- Every word moves to the next register. -/
def rotate (words : Fin n → α) : Fin n → α := fun i ↦ words (i - 1)

/-- The words by their positions in a round, when the registers are renamed. -/
def renamed (round : ℕ) (registers : Fin n → α) : Fin n → α :=
  fun i ↦ registers (i - Fin.ofNat n round)

theorem renamed_zero (registers : Fin n → α) : renamed 0 registers = registers := by
  funext i
  rw [renamed, show Fin.ofNat n 0 = 0 from rfl, sub_zero]

/-- One round more is one name further. -/
theorem renamed_succ (round : ℕ) (registers : Fin n → α) :
    renamed (round + 1) registers = rotate (renamed round registers) := by
  funext i
  have hname : i - Fin.ofNat n (round + 1) = i - 1 - Fin.ofNat n round := by
    have hsum : Fin.ofNat n (round + 1) = Fin.ofNat n round + 1 := by
      apply Fin.ext
      simp [Fin.val_add]
    rw [hsum, sub_sub, add_comm]
  rw [renamed, rotate, renamed, hname]

/-- After a number of rounds that is a multiple of the number of registers the names are the
positions again. -/
theorem renamed_of_dvd {round : ℕ} (hround : n ∣ round) (registers : Fin n → α) :
    renamed round registers = registers := by
  funext i
  have hname : Fin.ofNat n round = 0 := by
    apply Fin.ext
    simp [Nat.mod_eq_zero_of_dvd hround]
  rw [renamed, hname, sub_zero]

/-- A write to the register of a position. -/
theorem renamed_update (round : ℕ) (registers : Fin n → α) (i : Fin n) (word : α) :
    renamed round (Function.update registers (i - Fin.ofNat n round) word) =
      Function.update (renamed round registers) i word := by
  funext j
  by_cases hj : j = i
  · subst hj
    rw [renamed, Function.update_self, Function.update_self]
  · have hname : j - Fin.ofNat n round ≠ i - Fin.ofNat n round := fun h ↦ hj (sub_left_injective h)
    rw [renamed, Function.update_of_ne hname, Function.update_of_ne hj, renamed]

/-! ### Rings -/

/-- The ring holds the values of the last rounds, as far as they were stored. -/
def RingHolds (stored : ℕ) (values : ℕ → α) (count : ℕ) (ring : Fin n → α) : Prop :=
  ∀ round < count, round < stored → count ≤ round + n → ring (Fin.ofNat n round) = values round

variable {stored count : ℕ} {values : ℕ → α} {ring : Fin n → α}

theorem ringHolds_zero : RingHolds stored values 0 ring := fun _ hround ↦ absurd hround (by omega)

theorem RingHolds.write (h : RingHolds stored values count ring) :
    RingHolds stored values (count + 1)
      (Function.update ring (Fin.ofNat n count) (values count)) := by
  intro round hround hstored hyoung
  obtain rfl | hlt : round = count ∨ round < count := by omega
  · rw [Function.update_self]
  · have hplace : Fin.ofNat n round ≠ Fin.ofNat n count := by
      intro heq
      have hmod : round % n = count % n := congrArg Fin.val heq
      have hdvd : n ∣ count - round :=
        Nat.dvd_of_mod_eq_zero (Nat.sub_mod_eq_zero_of_mod_eq hmod.symm)
      have hle := Nat.le_of_dvd (by omega) hdvd
      omega
    rw [Function.update_of_ne hplace]
    exact h round hlt hstored (by omega)

/-- A value that is not stored. -/
theorem RingHolds.skip (h : RingHolds stored values count ring) (hstored : stored ≤ count) :
    RingHolds stored values (count + 1) ring :=
  fun round hround hlt hyoung ↦ h round (by omega) hlt (by omega)

end Exc.Lib
