import Exc.Lib.Literals
import Mathlib.Analysis.SpecialFunctions.Pow.NthRootLemmas
import Mathlib.Analysis.SpecialFunctions.Pow.Real
import Mathlib.Data.Nat.Nth
import Mathlib.Data.Nat.Prime.Defs

/-!
# The bits of the roots of primes

Numbers that are meant to have no structure are taken from the binary expansions of roots: the
first bits behind the point of a root of a prime are `fractionBits`. That a given number is that is
two inequalities between natural numbers (`fractionBits_eq`).

`nth_of_filter` computes the primes in their order.
-/

set_option autoImplicit false
set_option relaxedAutoImplicit false

namespace Exc.Lib

attribute [local instance] atLeastTwo_two

/-- The first bits behind the point of a root. -/
noncomputable def fractionBits (width degree number : ℕ) : ℕ :=
  ⌊2 ^ width * Int.fract ((number : ℝ) ^ (1 / degree : ℝ))⌋₊

/-- What the root is, cut off behind these bits, shows in the powers of it. -/
theorem fractionBits_eq {width degree number whole bits : ℕ} (hdegree : degree ≠ 0)
    (hbits : bits < 2 ^ width)
    (hle : (whole * 2 ^ width + bits) ^ degree ≤ number * 2 ^ (width * degree))
    (hlt : number * 2 ^ (width * degree) < (whole * 2 ^ width + bits + 1) ^ degree) :
    fractionBits width degree number = bits := by
  set root : ℝ := (number : ℝ) ^ (1 / degree : ℝ) with hroot
  have hnonneg : 0 ≤ root := Real.rpow_nonneg (Nat.cast_nonneg number) _
  have hpow : root ^ degree = number := by
    rw [hroot, one_div]
    exact Real.rpow_inv_natCast_pow (Nat.cast_nonneg number) hdegree
  have hscaled : (2 ^ width * root) ^ degree = (number : ℝ) * 2 ^ (width * degree) := by
    rw [mul_pow, hpow, ← pow_mul, mul_comm]
  have hlower : (whole * 2 ^ width + bits : ℝ) ≤ 2 ^ width * root := by
    refine le_of_pow_le_pow_left₀ hdegree (by positivity) ?_
    rw [hscaled]
    exact_mod_cast hle
  have hupper : 2 ^ width * root < (whole * 2 ^ width + bits + 1 : ℝ) := by
    refine lt_of_pow_lt_pow_left₀ degree (by positivity) ?_
    rw [hscaled]
    exact_mod_cast hlt
  have hwidth : (0 : ℝ) < 2 ^ width := by positivity
  have hbitsReal : (bits + 1 : ℝ) ≤ 2 ^ width := by exact_mod_cast hbits
  have hfloor : ⌊root⌋ = (whole : ℤ) := by
    rw [Int.floor_eq_iff]
    have hbits₀ : (0 : ℝ) ≤ bits := Nat.cast_nonneg bits
    constructor
    · refine le_of_mul_le_mul_left ?_ hwidth
      push_cast
      linarith [mul_comm (whole : ℝ) (2 ^ width)]
    · refine lt_of_mul_lt_mul_left ?_ hwidth.le
      push_cast
      linarith [mul_comm (whole : ℝ) (2 ^ width), mul_add (2 ^ width : ℝ) whole 1]
  have hfract : 2 ^ width * Int.fract root = 2 ^ width * root - whole * 2 ^ width := by
    rw [Int.fract, hfloor]
    push_cast
    ring
  rw [fractionBits, hfract]
  refine (Nat.floor_eq_iff (by linarith [Nat.cast_nonneg (α := ℝ) bits])).mpr ⟨?_, ?_⟩
  · linarith
  · linarith

/-- The first bits of a root, with those in front of the point. -/
noncomputable def rootBits (width degree number : ℕ) : ℕ :=
  ⌊2 ^ width * (number : ℝ) ^ (1 / degree : ℝ)⌋₊

theorem rootBits_eq {width degree number bits : ℕ} (hdegree : degree ≠ 0)
    (hle : bits ^ degree ≤ number * 2 ^ (width * degree))
    (hlt : number * 2 ^ (width * degree) < (bits + 1) ^ degree) :
    rootBits width degree number = bits := by
  have hnonneg : 0 ≤ (number : ℝ) ^ (1 / degree : ℝ) := Real.rpow_nonneg (Nat.cast_nonneg number) _
  have hscaled : (2 ^ width * (number : ℝ) ^ (1 / degree : ℝ)) ^ degree =
      (number : ℝ) * 2 ^ (width * degree) := by
    rw [mul_pow, one_div, Real.rpow_inv_natCast_pow (Nat.cast_nonneg number) hdegree, ← pow_mul,
      mul_comm]
  rw [rootBits, Nat.floor_eq_iff (by positivity)]
  constructor
  · refine le_of_pow_le_pow_left₀ hdegree (by positivity) ?_
    rw [hscaled]
    exact_mod_cast hle
  · refine lt_of_pow_lt_pow_left₀ degree (by positivity) ?_
    rw [hscaled]
    exact_mod_cast hlt

/-- The numbers with a property in their order. By induction on the bound. -/
theorem nth_of_filter {p : ℕ → Prop} [DecidablePred p] {bound index value : ℕ}
    (hvalue : ((List.range bound).filter p)[index]? = some value) : Nat.nth p index = value := by
  have hcount (bound : ℕ) : ((List.range bound).filter p).length = Nat.count p bound := by
    induction bound with
    | zero => simp
    | succ bound ih =>
      rw [List.range_succ, List.filter_append, List.length_append, ih, Nat.count_succ]
      by_cases hp : p bound <;> simp [hp]
  induction bound with
  | zero => simp at hvalue
  | succ bound ih =>
    rw [List.range_succ, List.filter_append] at hvalue
    by_cases hfront : index < ((List.range bound).filter p).length
    · exact ih (by rwa [List.getElem?_append_left hfront] at hvalue)
    · rw [List.getElem?_append_right (Nat.le_of_not_lt hfront)] at hvalue
      by_cases hp : p bound
      · rw [List.filter_cons_of_pos (by simpa using hp), List.filter_nil,
          List.getElem?_singleton] at hvalue
        split_ifs at hvalue with hlast
        have hindex : index = Nat.count p bound := by
          rw [← hcount]
          omega
        rw [hindex, Nat.nth_count hp]
        exact Option.some.inj hvalue
      · rw [List.filter_cons_of_neg (by simpa using hp)] at hvalue
        simp at hvalue

/-- The primes up to 409. -/
def smallPrimes : List ℕ :=
  [2, 3, 5, 7, 11, 13, 17, 19, 23, 29, 31, 37, 41, 43, 47, 53, 59, 61, 67, 71, 73, 79, 83, 89, 97,
    101, 103, 107, 109, 113, 127, 131, 137, 139, 149, 151, 157, 163, 167, 173, 179, 181, 191, 193,
    197, 199, 211, 223, 227, 229, 233, 239, 241, 251, 257, 263, 269, 271, 277, 281, 283, 293, 307,
    311, 313, 317, 331, 337, 347, 349, 353, 359, 367, 373, 379, 383, 389, 397, 401, 409]

/-- No number from 2 on up to the root divides. -/
def passesTrial (number : ℕ) : Bool :=
  2 ≤ number && [2, 3, 5, 7, 11, 13, 17, 19].all fun divisor ↦
    number < divisor * divisor || number % divisor != 0

/-- Below 441 it is enough to divide by the primes up to 20. -/
theorem passesTrial_iff {number : ℕ} (hnumber : number < 441) :
    passesTrial number = true ↔ number.Prime := by
  have hsmall : ∀ divisor < 21, divisor.Prime → divisor ∈ [2, 3, 5, 7, 11, 13, 17, 19] := by
    decide +kernel
  simp only [passesTrial, Bool.and_eq_true, decide_eq_true_eq, List.all_eq_true, Bool.or_eq_true,
    bne_iff_ne, ne_eq]
  constructor
  · rintro ⟨htwo, htrial⟩
    by_contra hprime
    have hfactor := Nat.minFac_prime (show number ≠ 1 by omega)
    have hsquare : number.minFac ^ 2 ≤ number := Nat.minFac_sq_le_self (by omega) hprime
    have hmem := hsmall number.minFac (by nlinarith) hfactor
    obtain hlt | hmod := htrial _ hmem
    · rw [← pow_two] at hlt
      omega
    · exact hmod (Nat.mod_eq_zero_of_dvd (Nat.minFac_dvd number))
  · intro hprime
    refine ⟨hprime.two_le, fun divisor hmem ↦ ?_⟩
    rw [or_iff_not_imp_left]
    intro hle hmod
    have htwo : 2 ≤ divisor := by
      simp only [List.mem_cons, List.not_mem_nil, or_false] at hmem
      omega
    obtain hone | hself := (Nat.dvd_prime hprime).mp (Nat.dvd_of_mod_eq_zero hmod)
    · omega
    · subst hself
      nlinarith

theorem filter_prime_eq : (List.range 410).filter (fun number ↦ number.Prime) = smallPrimes := by
  have htrial : (List.range 410).filter (fun number ↦ number.Prime) =
      (List.range 410).filter passesTrial := by
    refine List.filter_congr fun number hnumber ↦ ?_
    have hlt := List.mem_range.mp hnumber
    rw [Bool.eq_iff_iff, decide_eq_true_eq, passesTrial_iff (by omega)]
  rw [htrial]
  decide +kernel

theorem nth_prime_eq {index value : ℕ} (hvalue : smallPrimes[index]? = some value) :
    Nat.nth Nat.Prime index = value :=
  nth_of_filter (filter_prime_eq ▸ hvalue)

/-- The inequalities for the bits of the roots of the first primes. -/
def isRootTable (width degree : ℕ) (table : List ℕ) : Bool :=
  table.length ≤ smallPrimes.length && (table.zip smallPrimes).all fun (bits, prime) ↦
    bits < 2 ^ width && (List.range 21).any fun whole ↦
      (whole * 2 ^ width + bits) ^ degree ≤ prime * 2 ^ (width * degree) &&
        prime * 2 ^ (width * degree) < (whole * 2 ^ width + bits + 1) ^ degree

/-- A table of the bits of the roots of the first primes. -/
theorem fractionBits_of_table {width degree index : ℕ} {table : List ℕ} (hdegree : degree ≠ 0)
    (htable : isRootTable width degree table = true) (hindex : index < table.length) :
    fractionBits width degree (Nat.nth Nat.Prime index) = table[index] := by
  rw [isRootTable, Bool.and_eq_true, decide_eq_true_eq, List.all_eq_true] at htable
  obtain ⟨hlength, hall⟩ := htable
  have hprime : index < smallPrimes.length := by omega
  have hzip : index < (table.zip smallPrimes).length := by
    rw [List.length_zip]
    omega
  have hentry := hall _ (List.getElem_mem hzip)
  rw [List.getElem_zip, Bool.and_eq_true, decide_eq_true_eq, List.any_eq_true] at hentry
  obtain ⟨hbits, whole, -, hbounds⟩ := hentry
  rw [Bool.and_eq_true, decide_eq_true_eq, decide_eq_true_eq] at hbounds
  rw [nth_prime_eq (List.getElem?_eq_getElem hprime)]
  exact fractionBits_eq hdegree hbits hbounds.1 hbounds.2

end Exc.Lib
