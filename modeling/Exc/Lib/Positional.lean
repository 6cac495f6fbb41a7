import Mathlib.Data.List.TakeWhile
import Mathlib.Data.Nat.Digits.Lemmas

/-!
# Positional notation with a fixed number of places

A number is kept in places of a base, the least significant one first. `mulAdd` multiplies it by a
factor and adds a number to it, in the places that there are; what does not fit is the carry that is
left at the end. When the result fits there is none (`mulAdd_of_lt`), and the places of a ratio of
logarithms are enough to change the base (`pow_le_pow_of_ratio`).

A numeral with leading zeros, most significant digit first, is determined by their number and its
value: `compose` and `decompose` are inverse to each other.
-/

set_option autoImplicit false
set_option relaxedAutoImplicit false

namespace Exc.Lib

variable {base factor : ℕ}

/-! ### Arithmetic in place -/

/-- The places times a factor, plus a carry, and the carry that is left. -/
def mulAdd (base factor : ℕ) : List ℕ → ℕ → List ℕ × ℕ
  | [], carry => ([], carry)
  | digit :: digits, carry =>
    let carry := carry + factor * digit
    let (later, left) := mulAdd base factor digits (carry / base)
    (carry % base :: later, left)

@[simp] theorem length_mulAdd (digits : List ℕ) (carry : ℕ) :
    (mulAdd base factor digits carry).1.length = digits.length := by
  induction digits generalizing carry with
  | nil => rfl
  | cons digit digits ih => rw [mulAdd, List.length_cons, List.length_cons, ih]

theorem mulAdd_lt (hbase : 0 < base) (digits : List ℕ) (carry : ℕ) :
    ∀ digit ∈ (mulAdd base factor digits carry).1, digit < base := by
  induction digits generalizing carry with
  | nil => exact fun digit hdigit ↦ absurd hdigit List.not_mem_nil
  | cons first digits ih =>
    intro digit hdigit
    obtain rfl | hlater := List.mem_cons.mp hdigit
    · exact Nat.mod_lt _ hbase
    · exact ih _ digit hlater

/-- Nothing gets lost but by the carry that is left. -/
theorem mulAdd_value (base factor : ℕ) (digits : List ℕ) (carry : ℕ) :
    Nat.ofDigits base (mulAdd base factor digits carry).1 +
        base ^ digits.length * (mulAdd base factor digits carry).2 =
      factor * Nat.ofDigits base digits + carry := by
  induction digits generalizing carry with
  | nil => simp [mulAdd]
  | cons digit digits ih =>
    have hlater := ih ((carry + factor * digit) / base)
    have hcarry := Nat.mod_add_div (carry + factor * digit) base
    simp only [mulAdd, Nat.ofDigits_cons, List.length_cons, pow_succ']
    calc (carry + factor * digit) % base +
          base * Nat.ofDigits base
            (mulAdd base factor digits ((carry + factor * digit) / base)).1 +
          base * base ^ digits.length *
            (mulAdd base factor digits ((carry + factor * digit) / base)).2
        = (carry + factor * digit) % base + base * (Nat.ofDigits base
            (mulAdd base factor digits ((carry + factor * digit) / base)).1 +
          base ^ digits.length *
            (mulAdd base factor digits ((carry + factor * digit) / base)).2) := by ring
      _ = (carry + factor * digit) % base + base * ((carry + factor * digit) / base) +
          base * (factor * Nat.ofDigits base digits) := by rw [hlater]; ring
      _ = factor * (digit + base * Nat.ofDigits base digits) + carry := by rw [hcarry]; ring

/-- A result that fits is in the places, and no carry is left. -/
theorem mulAdd_of_lt {digits : List ℕ} {carry : ℕ}
    (hfits : factor * Nat.ofDigits base digits + carry < base ^ digits.length) :
    (mulAdd base factor digits carry).2 = 0 ∧
      Nat.ofDigits base (mulAdd base factor digits carry).1 =
        factor * Nat.ofDigits base digits + carry := by
  have hvalue := mulAdd_value base factor digits carry
  have hnone : (mulAdd base factor digits carry).2 = 0 := by
    by_contra hsome
    have hle := Nat.le_mul_of_pos_right (base ^ digits.length) (Nat.pos_of_ne_zero hsome)
    omega
  rw [hnone, Nat.mul_zero, Nat.add_zero] at hvalue
  exact ⟨hnone, hvalue⟩

/-- Numbers that are added one after the other, each behind a multiplication. No value means that a
carry was left. -/
def mulAddAll (base factor : ℕ) : List ℕ → List ℕ → Option (List ℕ)
  | [], places => some places
  | number :: numbers, places =>
    let (places, left) := mulAdd base factor places number
    if left = 0 then mulAddAll base factor numbers places else none

/-- When the last result fits, all the others do, and it has the value of the numbers as digits of
the factor. By induction over the numbers. -/
theorem mulAddAll_of_lt (hbase : 0 < base) (hfactor : 0 < factor) {numbers places : List ℕ}
    (hplaces : ∀ digit ∈ places, digit < base)
    (hfits : factor ^ numbers.length * Nat.ofDigits base places +
      Nat.ofDigits factor numbers.reverse < base ^ places.length) :
    ∃ result, mulAddAll base factor numbers places = some result ∧
      (∀ digit ∈ result, digit < base) ∧
      Nat.ofDigits base result = factor ^ numbers.length * Nat.ofDigits base places +
        Nat.ofDigits factor numbers.reverse := by
  induction numbers generalizing places with
  | nil => exact ⟨places, rfl, hplaces, by simp⟩
  | cons number numbers ih =>
    have hsplit : factor ^ (number :: numbers).length * Nat.ofDigits base places +
        Nat.ofDigits factor (number :: numbers).reverse =
        factor ^ numbers.length * (factor * Nat.ofDigits base places + number) +
          Nat.ofDigits factor numbers.reverse := by
      rw [List.reverse_cons, Nat.ofDigits_append, List.length_reverse, Nat.ofDigits_singleton,
        List.length_cons, pow_succ]
      ring
    rw [hsplit] at hfits ⊢
    have hstep : factor * Nat.ofDigits base places + number < base ^ places.length := by
      have hle := Nat.le_mul_of_pos_left (factor * Nat.ofDigits base places + number)
        (Nat.pow_pos hfactor (n := numbers.length))
      omega
    obtain ⟨hleft, hvalue⟩ := mulAdd_of_lt hstep
    obtain ⟨result, hresult, hdigits, hlast⟩ := ih (mulAdd_lt hbase places number)
      (by rwa [hvalue, length_mulAdd])
    refine ⟨result, ?_, hdigits, by rw [hlast, hvalue]⟩
    rw [mulAddAll]
    dsimp only
    rw [if_pos hleft, hresult]

/-- As many places as a ratio gives, and one more, are enough for the numbers of another base. -/
theorem pow_le_pow_of_ratio {other numerator denominator : ℕ} (hbase : 0 < base)
    (hpos : 0 < denominator) (hratio : other ^ denominator ≤ base ^ numerator) (count : ℕ) :
    other ^ count ≤ base ^ (count * numerator / denominator + 1) := by
  have hplaces : numerator * count ≤ (count * numerator / denominator + 1) * denominator := by
    have hdiv := Nat.lt_div_mul_add (a := count * numerator) hpos
    rw [Nat.add_mul, Nat.one_mul, Nat.mul_comm numerator]
    exact hdiv.le
  refine le_of_pow_le_pow_left₀ hpos.ne' (Nat.zero_le _) ?_
  calc (other ^ count) ^ denominator = (other ^ denominator) ^ count := pow_right_comm _ _ _
    _ ≤ (base ^ numerator) ^ count := Nat.pow_le_pow_left hratio count
    _ = base ^ (numerator * count) := (pow_mul _ _ _).symm
    _ ≤ base ^ ((count * numerator / denominator + 1) * denominator) :=
      Nat.pow_le_pow_right hbase hplaces
    _ = (base ^ (count * numerator / denominator + 1)) ^ denominator := pow_mul _ _ _

/-! ### Leading zeros -/

/-- The number of leading zeros of a numeral, and its value. -/
def decompose (base : ℕ) (digits : List ℕ) : ℕ × ℕ :=
  ((digits.takeWhile (· = 0)).length, Nat.ofDigits base digits.reverse)

/-- The numeral with so many leading zeros and this value. -/
def compose (base : ℕ) (parts : ℕ × ℕ) : List ℕ :=
  List.replicate parts.1 0 ++ (Nat.digits base parts.2).reverse

theorem compose_lt (hbase : 1 < base) {parts : ℕ × ℕ} :
    ∀ digit ∈ compose base parts, digit < base := by
  intro digit hdigit
  obtain hzero | hdigit := List.mem_append.mp hdigit
  · rw [List.eq_of_mem_replicate hzero]
    omega
  · exact Nat.digits_lt_base hbase (List.mem_reverse.mp hdigit)

theorem takeWhile_zero_eq (digits : List ℕ) :
    digits.takeWhile (· = 0) = List.replicate (digits.takeWhile (· = 0)).length 0 :=
  List.eq_replicate_of_mem fun digit hdigit ↦ by simpa using List.mem_takeWhile_imp hdigit

theorem ofDigits_dropWhile_zero (base : ℕ) (digits : List ℕ) :
    Nat.ofDigits base (digits.dropWhile (· = 0)).reverse = Nat.ofDigits base digits.reverse := by
  have hsplit : digits.reverse = (digits.dropWhile (· = 0)).reverse ++
      List.replicate (digits.takeWhile (· = 0)).length 0 := by
    rw [← List.reverse_replicate, ← takeWhile_zero_eq, ← List.reverse_append,
      List.takeWhile_append_dropWhile]
  rw [hsplit, Nat.ofDigits_append_replicate_zero]

/-- Without its leading zeros a numeral is the digits of its value. -/
theorem dropWhile_zero_eq (hbase : 1 < base) {digits : List ℕ}
    (hdigits : ∀ digit ∈ digits, digit < base) :
    digits.dropWhile (· = 0) = (Nat.digits base (Nat.ofDigits base digits.reverse)).reverse := by
  rw [← ofDigits_dropWhile_zero, Nat.digits_ofDigits base hbase, List.reverse_reverse]
  · exact fun digit hdigit ↦
      hdigits digit ((List.dropWhile_sublist _).mem (List.mem_reverse.mp hdigit))
  · intro hne
    rw [List.getLast_reverse]
    exact of_decide_eq_false (List.head_dropWhile_not (· = 0) fun hnil ↦ hne (by simp [hnil]))

theorem compose_decompose (hbase : 1 < base) {digits : List ℕ}
    (hdigits : ∀ digit ∈ digits, digit < base) : compose base (decompose base digits) = digits := by
  rw [compose, decompose, ← dropWhile_zero_eq hbase hdigits, ← takeWhile_zero_eq,
    List.takeWhile_append_dropWhile]

theorem decompose_compose (base : ℕ) (parts : ℕ × ℕ) :
    decompose base (compose base parts) = parts := by
  obtain ⟨zeros, value⟩ := parts
  have hvalue : Nat.ofDigits base (compose base (zeros, value)).reverse = value := by
    rw [compose, List.reverse_append, List.reverse_reverse, List.reverse_replicate,
      Nat.ofDigits_append_replicate_zero, Nat.ofDigits_digits]
  have hfirst : (Nat.digits base value).reverse.takeWhile (· = 0) = [] := by
    cases hdigits : (Nat.digits base value).reverse with
    | nil => rfl
    | cons digit digits =>
      have hlast : Nat.digits base value = digits.reverse ++ [digit] := by
        rw [← List.reverse_cons, ← hdigits, List.reverse_reverse]
      have hpos : value ≠ 0 := by
        rintro rfl
        simp at hdigits
      have hne := Nat.getLast_digit_ne_zero base hpos
      simp only [hlast, List.getLast_append_singleton] at hne
      rw [List.takeWhile_cons, if_neg (by simpa using hne)]
  have hzeros : (compose base (zeros, value)).takeWhile (· = 0) = List.replicate zeros 0 := by
    rw [compose, List.takeWhile_append_of_pos (fun digit hdigit ↦ ?_), hfirst, List.append_nil]
    simpa using List.eq_of_mem_replicate hdigit
  rw [decompose, hvalue, hzeros, List.length_replicate]

/-- A numeral in another base: enough places, and the leading zeros of the result are dropped. -/
theorem changeBase (hbase : 1 < base) (hfactor : 1 < factor) {numbers : List ℕ}
    (hnumbers : ∀ number ∈ numbers, number < factor) {size : ℕ}
    (hsize : factor ^ numbers.length ≤ base ^ size) :
    ∃ result, mulAddAll base factor numbers (List.replicate size 0) = some result ∧
      result.reverse.dropWhile (· = 0) =
        (Nat.digits base (Nat.ofDigits factor numbers.reverse)).reverse := by
  have hzero : Nat.ofDigits base (List.replicate size 0) = 0 := by
    exact Nat.ofDigits_append_replicate_zero (b := base) (l := []) (k := size)
  have hvalue : Nat.ofDigits factor numbers.reverse < factor ^ numbers.length := by
    have hlt := Nat.ofDigits_lt_base_pow_length hfactor (l := numbers.reverse)
      fun number hnumber ↦ hnumbers number (List.mem_reverse.mp hnumber)
    rwa [List.length_reverse] at hlt
  have hplaces : ∀ digit ∈ List.replicate size 0, digit < base := fun digit hdigit ↦ by
    rw [List.eq_of_mem_replicate hdigit]
    omega
  have hfits : factor ^ numbers.length * Nat.ofDigits base (List.replicate size 0) +
      Nat.ofDigits factor numbers.reverse < base ^ (List.replicate size 0).length := by
    rw [hzero, List.length_replicate]
    omega
  obtain ⟨result, hresult, hdigits, hlast⟩ := mulAddAll_of_lt (by omega) (by omega) hplaces hfits
  refine ⟨result, hresult, ?_⟩
  rw [dropWhile_zero_eq hbase fun digit hdigit ↦ hdigits digit (List.mem_reverse.mp hdigit),
    List.reverse_reverse, hlast, hzero, Nat.mul_zero, Nat.zero_add]

end Exc.Lib
