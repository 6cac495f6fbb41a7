import Mathlib.Algebra.BigOperators.Ring.Finset
import Mathlib.Data.Fintype.BigOperators
import Mathlib.Tactic.LinearCombination
import Mathlib.Tactic.Ring

/-!
# Weighted checksums

A word gives every position a value of a ring, and its checksum is the sum of the values, each
times the weight of its position. Over a ring without zero divisors the checksum of a word moves
when one value at a position of non-zero weight is replaced (`checksum_update_ne`), and when two
different values at positions of different weights are swapped (`checksum_swap_ne`). So a check
that fixes the checksum notices a single error and a transposition.
-/

set_option autoImplicit false
set_option relaxedAutoImplicit false

namespace Exc.Lib.Checksum

variable {position scalar : Type*} [Fintype position] [CommRing scalar]

def checksum (weights word : position → scalar) : scalar := ∑ i, weights i * word i

theorem checksum_sub (weights word other : position → scalar) :
    checksum weights other - checksum weights word = ∑ i, weights i * (other i - word i) := by
  simp only [checksum, mul_sub, Finset.sum_sub_distrib]

variable [DecidableEq position]

theorem checksum_update_sub (weights word : position → scalar) (i : position) (value : scalar) :
    checksum weights (Function.update word i value) - checksum weights word =
      weights i * (value - word i) := by
  rw [checksum_sub, Fintype.sum_eq_single i, Function.update_self]
  intro j hj
  rw [Function.update_of_ne hj, sub_self, mul_zero]

theorem checksum_swap_sub (weights word : position → scalar) {i j : position} (hij : i ≠ j) :
    checksum weights (Function.update (Function.update word i (word j)) j (word i)) -
        checksum weights word = (weights i - weights j) * (word j - word i) := by
  have hfirst := checksum_update_sub weights word i (word j)
  have hsecond := checksum_update_sub weights (Function.update word i (word j)) j (word i)
  rw [Function.update_of_ne hij.symm] at hsecond
  linear_combination hfirst + hsecond

variable [NoZeroDivisors scalar]

theorem checksum_update_ne (weights word : position → scalar) {i : position} {value : scalar}
    (hweight : weights i ≠ 0) (hvalue : value ≠ word i) :
    checksum weights (Function.update word i value) ≠ checksum weights word := by
  rw [← sub_ne_zero, checksum_update_sub]
  exact mul_ne_zero hweight (sub_ne_zero.mpr hvalue)

theorem checksum_swap_ne (weights word : position → scalar) {i j : position}
    (hweight : weights i ≠ weights j) (hvalue : word i ≠ word j) :
    checksum weights (Function.update (Function.update word i (word j)) j (word i)) ≠
      checksum weights word := by
  rw [← sub_ne_zero, checksum_swap_sub weights word fun hij ↦ hvalue (congrArg word hij)]
  exact mul_ne_zero (sub_ne_zero.mpr hweight) (sub_ne_zero.mpr hvalue.symm)

end Exc.Lib.Checksum
