import Exc.Lib.Literals
import Mathlib.Analysis.Complex.Trigonometric
import Mathlib.Analysis.Normed.Field.Basic
import Mathlib.Analysis.SpecialFunctions.Exp
import Mathlib.Data.List.GetD
import Mathlib.Tactic.LinearCombination
import Mathlib.Tactic.Ring

/-!
# The bits of sines

A table of constants can be the first bits of the sines of the whole numbers, `sineBits`. That a
given number is that is decided by whole numbers (`sineBits_of_table`): the exponential series, cut
off after thirty terms, gives `exp I` as a fraction, and the powers of the fraction give the sines.
-/

set_option autoImplicit false
set_option relaxedAutoImplicit false

namespace Exc.Lib

open Complex

attribute [local instance] atLeastTwo_two

/-- The first bits of the absolute value of a sine, in radians. -/
noncomputable def sineBits (width angle : ℕ) : ℕ := ⌊2 ^ width * |Real.sin angle|⌋₊

namespace SineTable

/-! ### Complex numbers in whole numbers -/

def mul (z w : ℤ × ℤ) : ℤ × ℤ := (z.1 * w.1 - z.2 * w.2, z.1 * w.2 + z.2 * w.1)

def power (z : ℤ × ℤ) : ℕ → ℤ × ℤ
  | 0 => (1, 0)
  | n + 1 => mul (power z n) z

/-- The exponential series for `I` up to a term, times the factorial of its index. -/
def series : ℕ → ℤ × ℤ
  | 0 => (1, 0)
  | n + 1 =>
    ((n + 1) * (series n).1 + (power (0, 1) (n + 1)).1,
      (n + 1) * (series n).2 + (power (0, 1) (n + 1)).2)

def toComplex (z : ℤ × ℤ) : ℂ := z.1 + z.2 * I

theorem toComplex_mul (z w : ℤ × ℤ) : toComplex (mul z w) = toComplex z * toComplex w := by
  simp only [toComplex, mul]
  push_cast
  linear_combination (-(z.2 : ℂ) * w.2) * I_mul_I

theorem toComplex_power (z : ℤ × ℤ) (n : ℕ) : toComplex (power z n) = toComplex z ^ n := by
  induction n with
  | zero => simp [power, toComplex]
  | succ n ih => rw [power, toComplex_mul, ih, pow_succ]

theorem toComplex_series (n : ℕ) :
    toComplex (series n) = n.factorial * ∑ m ∈ Finset.range (n + 1), I ^ m / m.factorial := by
  induction n with
  | zero => simp [series, toComplex]
  | succ n ih =>
    have hunit : toComplex (0, 1) = I := by simp [toComplex]
    have hlast : toComplex (power (0, 1) (n + 1)) = I ^ (n + 1) := by
      rw [toComplex_power, hunit]
    have hfactorial : ((n + 1).factorial : ℂ) ≠ 0 :=
      Nat.cast_ne_zero.mpr (Nat.factorial_ne_zero _)
    have hsplit : toComplex (series (n + 1)) =
        (n + 1) * toComplex (series n) + toComplex (power (0, 1) (n + 1)) := by
      simp only [series, toComplex]
      push_cast
      ring
    have hnext : ((n + 1).factorial : ℂ) * (I ^ (n + 1) / (n + 1).factorial) = I ^ (n + 1) :=
      mul_div_cancel₀ _ hfactorial
    rw [hsplit, ih, hlast, Finset.sum_range_succ _ (n + 1), mul_add, hnext, Nat.factorial_succ]
    push_cast
    ring

theorem im_toComplex (z : ℤ × ℤ) : (toComplex z).im = z.2 := by simp [toComplex]

/-! ### The error -/

/-- The error of the series after thirty terms. -/
noncomputable def seriesError : ℝ := 31 / (Nat.factorial 30 * 30)

theorem norm_exp_sub_le :
    ‖exp I - toComplex (series 29) / Nat.factorial 29‖ ≤ seriesError := by
  have hbound := Complex.exp_bound (x := I) (by simp) (show 0 < 30 by decide)
  have hfactorial : ((Nat.factorial 29 : ℕ) : ℂ) ≠ 0 :=
    Nat.cast_ne_zero.mpr (Nat.factorial_ne_zero _)
  rw [toComplex_series, mul_div_cancel_left₀ _ hfactorial, seriesError]
  simpa [div_eq_mul_inv] using hbound

/-- The error of a power, for a number on the unit circle. By induction on the exponent. -/
theorem norm_pow_sub_pow_le {z w : ℂ} {error : ℝ} (hz : ‖z‖ = 1) (herror : ‖z - w‖ ≤ error)
    (n : ℕ) : ‖z ^ n - w ^ n‖ ≤ (1 + error) ^ n - 1 := by
  have hnonneg : 0 ≤ error := (norm_nonneg _).trans herror
  induction n with
  | zero => simp
  | succ n ih =>
    have hsplit : z ^ (n + 1) - w ^ (n + 1) = z * (z ^ n - w ^ n) + (z - w) * w ^ n := by ring
    have hpow : ‖w ^ n‖ ≤ (1 + error) ^ n := by
      have htriangle : ‖w ^ n‖ ≤ ‖z ^ n‖ + ‖z ^ n - w ^ n‖ := by
        have hsub := norm_sub_norm_le (w ^ n) (z ^ n)
        rw [norm_sub_rev] at hsub
        linarith
      rw [norm_pow z, hz, one_pow] at htriangle
      linarith
    calc ‖z ^ (n + 1) - w ^ (n + 1)‖
        ≤ ‖z * (z ^ n - w ^ n)‖ + ‖(z - w) * w ^ n‖ := hsplit ▸ norm_add_le _ _
      _ ≤ ((1 + error) ^ n - 1) + error * (1 + error) ^ n := by
          rw [norm_mul, norm_mul, hz, one_mul]
          exact add_le_add ih (mul_le_mul herror hpow (norm_nonneg _) hnonneg)
      _ = (1 + error) ^ (n + 1) - 1 := by ring

/-- The sines of the numbers up to 64, as fractions with a small error. -/
theorem abs_sin_sub_le {n : ℕ} (hn : n ≤ 64) :
    |Real.sin n - (power (series 29) n).2 / (Nat.factorial 29 : ℝ) ^ n| ≤ 1 / 2 ^ 80 := by
  have hunit : ‖exp I‖ = 1 := by
    have h := norm_exp_ofReal_mul_I 1
    rwa [ofReal_one, one_mul] at h
  have hpow := norm_pow_sub_pow_le hunit norm_exp_sub_le n
  have hsmall : (1 + seriesError) ^ n - 1 ≤ 1 / 2 ^ 80 := by
    have hnonneg : 0 ≤ seriesError := by
      rw [seriesError]
      positivity
    have hmono : (1 + seriesError) ^ n ≤ (1 + seriesError) ^ 64 :=
      pow_le_pow_right₀ (by linarith) hn
    have hlast : (1 + seriesError) ^ 64 - 1 ≤ 1 / 2 ^ 80 := by
      rw [seriesError]
      norm_num [Nat.factorial]
    linarith
  have hsin : Real.sin n = (exp I ^ n).im := by
    have hexp : exp I ^ n = exp ((n : ℝ) * I) := by
      rw [← exp_nat_mul]
      simp
    rw [hexp, exp_ofReal_mul_I_im]
  have hpart : (power (series 29) n).2 / (Nat.factorial 29 : ℝ) ^ n =
      ((toComplex (series 29) / Nat.factorial 29) ^ n).im := by
    rw [div_pow, ← toComplex_power]
    have hreal : ((Nat.factorial 29 : ℕ) : ℂ) ^ n = (((Nat.factorial 29 : ℕ) : ℝ) ^ n : ℝ) := by
      push_cast
      rfl
    rw [hreal, div_ofReal_im, im_toComplex]
  rw [hsin, hpart, ← sub_im]
  exact (abs_im_le_norm _).trans (hpow.trans hsmall)

end SineTable

/-- A fraction that is near enough decides the bits. -/
theorem sineBits_eq {width precision angle bits scale : ℕ} {numerator : ℤ} (hscale : 0 < scale)
    (herror : |Real.sin angle - numerator / scale| ≤ 1 / 2 ^ precision)
    (hlower : (bits * 2 ^ precision + 2 ^ width) * scale ≤ 2 ^ (width + precision) * |numerator|)
    (hupper : 2 ^ (width + precision) * |numerator| <
      ((bits + 1) * 2 ^ precision - 2 ^ width) * scale) :
    sineBits width angle = bits := by
  have hscaleReal : (0 : ℝ) < scale := Nat.cast_pos.mpr hscale
  have hlowerReal : ((bits : ℝ) * 2 ^ precision + 2 ^ width) * scale ≤
      2 ^ (width + precision) * |(numerator : ℝ)| := by exact_mod_cast hlower
  have hupperReal : 2 ^ (width + precision) * |(numerator : ℝ)| <
      (((bits : ℝ) + 1) * 2 ^ precision - 2 ^ width) * scale := by exact_mod_cast hupper
  have hnear := abs_le.mp ((abs_abs_sub_abs_le _ _).trans herror)
  rw [abs_div, abs_of_pos hscaleReal] at hnear
  have hfractionLower : ((bits : ℝ) * 2 ^ precision + 2 ^ width) / 2 ^ (width + precision) ≤
      |(numerator : ℝ)| / scale := by
    rw [div_le_div_iff₀ (by positivity) hscaleReal]
    linarith
  have hfractionUpper : |(numerator : ℝ)| / scale <
      (((bits : ℝ) + 1) * 2 ^ precision - 2 ^ width) / 2 ^ (width + precision) := by
    rw [div_lt_div_iff₀ hscaleReal (by positivity)]
    linarith
  have hwidth : (0 : ℝ) < 2 ^ width := by positivity
  have hsplitLower : ((bits : ℝ) * 2 ^ precision + 2 ^ width) / 2 ^ (width + precision) =
      bits / 2 ^ width + 1 / 2 ^ precision := by
    rw [pow_add]
    field_simp
  have hsplitUpper : (((bits : ℝ) + 1) * 2 ^ precision - 2 ^ width) / 2 ^ (width + precision) =
      (bits + 1) / 2 ^ width - 1 / 2 ^ precision := by
    rw [pow_add]
    field_simp
  rw [hsplitLower] at hfractionLower
  rw [hsplitUpper] at hfractionUpper
  have hlow : bits / 2 ^ width ≤ |Real.sin angle| := by linarith [hnear.1]
  have hhigh : |Real.sin angle| < (bits + 1) / 2 ^ width := by linarith [hnear.2]
  rw [sineBits, Nat.floor_eq_iff (by positivity)]
  constructor
  · rwa [div_le_iff₀' hwidth] at hlow
  · rwa [lt_div_iff₀' hwidth] at hhigh

/-- The inequalities for the bits of the sines of the numbers from 1 on. -/
def isSineTable (width : ℕ) (table : List ℕ) : Bool :=
  table.length ≤ 64 && (List.range table.length).all fun index ↦
    let bits := table.getD index 0
    let scale := Nat.factorial 29 ^ (index + 1)
    let sine := 2 ^ (width + 80) * |(SineTable.power (SineTable.series 29) (index + 1)).2|
    (bits * 2 ^ 80 + 2 ^ width) * scale ≤ sine && sine < ((bits + 1) * 2 ^ 80 - 2 ^ width) * scale

/-- A table of the bits of the sines of the numbers from 1 on. -/
theorem sineBits_of_table {width index : ℕ} {table : List ℕ}
    (htable : isSineTable width table = true) (hindex : index < table.length) :
    sineBits width (index + 1) = table[index] := by
  simp only [isSineTable, Bool.and_eq_true, decide_eq_true_eq, List.all_eq_true,
    List.mem_range] at htable
  obtain ⟨hlength, hall⟩ := htable
  obtain ⟨hlower, hupper⟩ := hall index hindex
  rw [List.getD_eq_getElem _ _ hindex] at hlower hupper
  have herror := SineTable.abs_sin_sub_le (n := index + 1) (by omega)
  rw [← Nat.cast_pow] at herror
  exact sineBits_eq (Nat.pow_pos (Nat.factorial_pos 29)) herror hlower hupper

end Exc.Lib
