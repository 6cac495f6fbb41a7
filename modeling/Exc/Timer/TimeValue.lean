import Mathlib.Order.Lattice
import Mathlib.Order.Defs.LinearOrder
import Mathlib.Tactic.Ring
import Mathlib.Tactic.Linarith
import Mathlib.Logic.Function.Iterate

/-!
# Time values

`comLib/dhntimer/Time_Value.h` and `Time_Value.cpp`. A `TimeValue` is a pair of seconds and
microseconds. Seconds and microseconds are unbounded integers here: the sums of the timer queue stay
inside `time_t`, whose overflow is undefined in the source.

`normalize` is the source's two carry loops and its sign correction. The loops are written with a
bound on their rounds; `carryUp_spec` and `carryDown_spec` show that `|usec|` rounds are enough for
the loop test to fail, so `normalize` is the loop run to its end. `normalize_total` and
`normalize_normalised` are what it computes: the same time, with `|usec| < 10^6` and no opposite
signs. A sum is normalised whatever its arguments are (`add_normalised`) and its time is the sum of
the times (`add_total`).

The comparison operators are the lexicographic order on seconds and microseconds, a linear order on
all pairs. On normalised values it is the order of the times (`lt_iff_total_lt`).
-/

set_option autoImplicit false
set_option relaxedAutoImplicit false

namespace Exc.Timer

/-- `ONE_SECOND_IN_USECS`. -/
def oneSecondInUsecs : ℤ := 1000000

/-- A `TimeValue`: the `tv_sec` and `tv_usec` of its `timeval`. -/
structure TimeValue where
  sec : ℤ
  usec : ℤ
  deriving DecidableEq, Repr

namespace TimeValue

/-- `TimeValue::zero`. -/
def zero : TimeValue := ⟨0, 0⟩

/-- The time in microseconds. -/
def total (tv : TimeValue) : ℤ := tv.sec * oneSecondInUsecs + tv.usec

/-- Less than a second of microseconds, on either side of zero. -/
def UsecBounded (tv : TimeValue) : Prop :=
  -oneSecondInUsecs < tv.usec ∧ tv.usec < oneSecondInUsecs

instance (tv : TimeValue) : Decidable tv.UsecBounded :=
  inferInstanceAs (Decidable (_ ∧ _))

/-- Normal form: less than a second of microseconds, and no opposite signs. -/
structure Normalised (tv : TimeValue) : Prop where
  bounded : tv.UsecBounded
  of_pos : 0 < tv.sec → 0 ≤ tv.usec
  of_neg : tv.sec < 0 → tv.usec ≤ 0

/-! ### Normalisation -/

/-- The first loop of `normalize`: while there is a second of microseconds, carry it. -/
def carryUp : ℕ → TimeValue → TimeValue
  | 0, tv => tv
  | rounds + 1, tv =>
    if oneSecondInUsecs ≤ tv.usec then carryUp rounds ⟨tv.sec + 1, tv.usec - oneSecondInUsecs⟩
    else tv

/-- The second loop of `normalize`: while a second of microseconds is owed, borrow it. -/
def carryDown : ℕ → TimeValue → TimeValue
  | 0, tv => tv
  | rounds + 1, tv =>
    if tv.usec ≤ -oneSecondInUsecs then carryDown rounds ⟨tv.sec - 1, tv.usec + oneSecondInUsecs⟩
    else tv

/-- The sign correction at the end of `normalize`. -/
def fixSigns (tv : TimeValue) : TimeValue :=
  if 1 ≤ tv.sec ∧ tv.usec < 0 then ⟨tv.sec - 1, tv.usec + oneSecondInUsecs⟩
  else if tv.sec < 0 ∧ 0 < tv.usec then ⟨tv.sec + 1, tv.usec - oneSecondInUsecs⟩
  else tv

/-- `TimeValue::normalize`. -/
def normalize (tv : TimeValue) : TimeValue :=
  fixSigns
    (if oneSecondInUsecs ≤ tv.usec then carryUp tv.usec.natAbs tv
    else if tv.usec ≤ -oneSecondInUsecs then carryDown tv.usec.natAbs tv
    else tv)

/-- Enough rounds of the first loop end it: the time is kept, and the microseconds that remain are
between zero and a second. -/
theorem carryUp_spec : ∀ (rounds : ℕ) (tv : TimeValue), 0 ≤ tv.usec → tv.usec ≤ rounds →
    (carryUp rounds tv).total = tv.total ∧ 0 ≤ (carryUp rounds tv).usec ∧
      (carryUp rounds tv).usec < oneSecondInUsecs
  | 0, tv, hnonneg, hle => by
    refine ⟨rfl, hnonneg, ?_⟩
    simp only [carryUp, oneSecondInUsecs]
    omega
  | rounds + 1, tv, hnonneg, hle => by
    unfold carryUp
    split_ifs with hcarry
    · have hrest := carryUp_spec rounds ⟨tv.sec + 1, tv.usec - oneSecondInUsecs⟩
        (by simp only [oneSecondInUsecs] at hcarry ⊢; omega)
        (by simp only [oneSecondInUsecs]; omega)
      refine ⟨hrest.1.trans ?_, hrest.2⟩
      simp only [total, oneSecondInUsecs]
      ring
    · exact ⟨rfl, hnonneg, not_le.mp hcarry⟩

/-- Enough rounds of the second loop end it: the time is kept, and the microseconds that remain are
between minus a second and zero. -/
theorem carryDown_spec : ∀ (rounds : ℕ) (tv : TimeValue), tv.usec ≤ 0 → -tv.usec ≤ rounds →
    (carryDown rounds tv).total = tv.total ∧ (carryDown rounds tv).usec ≤ 0 ∧
      -oneSecondInUsecs < (carryDown rounds tv).usec
  | 0, tv, hnonpos, hle => by
    refine ⟨rfl, hnonpos, ?_⟩
    simp only [carryDown, oneSecondInUsecs]
    omega
  | rounds + 1, tv, hnonpos, hle => by
    unfold carryDown
    split_ifs with hcarry
    · have hrest := carryDown_spec rounds ⟨tv.sec - 1, tv.usec + oneSecondInUsecs⟩
        (by simp only [oneSecondInUsecs] at hcarry ⊢; omega)
        (by simp only [oneSecondInUsecs]; omega)
      refine ⟨hrest.1.trans ?_, hrest.2⟩
      simp only [total, oneSecondInUsecs]
      ring
    · exact ⟨rfl, hnonpos, not_le.mp hcarry⟩

/-- The sign correction keeps the time and turns bounded microseconds into the normal form. -/
theorem fixSigns_spec (tv : TimeValue) (hbounded : tv.UsecBounded) :
    (fixSigns tv).total = tv.total ∧ (fixSigns tv).Normalised := by
  obtain ⟨hlow, hhigh⟩ := hbounded
  unfold fixSigns
  split_ifs with hpos hneg
  · refine ⟨by simp only [total, oneSecondInUsecs]; ring, ⟨⟨?_, ?_⟩, ?_, ?_⟩⟩ <;>
      simp only [oneSecondInUsecs] at * <;> omega
  · refine ⟨by simp only [total, oneSecondInUsecs]; ring, ⟨⟨?_, ?_⟩, ?_, ?_⟩⟩ <;>
      simp only [oneSecondInUsecs] at * <;> omega
  · exact ⟨rfl, ⟨⟨hlow, hhigh⟩, by omega, by omega⟩⟩

/-- The carry loops keep the time and leave bounded microseconds, so `normalize` keeps the time and
reaches the normal form. -/
theorem normalize_spec (tv : TimeValue) :
    (normalize tv).total = tv.total ∧ (normalize tv).Normalised := by
  have hone : oneSecondInUsecs = 1000000 := rfl
  unfold normalize
  split_ifs with hup hdown
  · have hcarry := carryUp_spec tv.usec.natAbs tv (by omega) (by omega)
    have hsigns := fixSigns_spec (carryUp tv.usec.natAbs tv) ⟨by omega, hcarry.2.2⟩
    exact ⟨hsigns.1.trans hcarry.1, hsigns.2⟩
  · have hcarry := carryDown_spec tv.usec.natAbs tv (by omega) (by omega)
    have hsigns := fixSigns_spec (carryDown tv.usec.natAbs tv) ⟨hcarry.2.2, by omega⟩
    exact ⟨hsigns.1.trans hcarry.1, hsigns.2⟩
  · exact fixSigns_spec tv ⟨by omega, by omega⟩

theorem normalize_total (tv : TimeValue) : (normalize tv).total = tv.total :=
  (normalize_spec tv).1

theorem normalize_normalised (tv : TimeValue) : (normalize tv).Normalised :=
  (normalize_spec tv).2

/-! ### Sums -/

/-- `operator+`: a copy of the first argument, `+=` the second, normalised. -/
instance : Add TimeValue := ⟨fun tv1 tv2 ↦ normalize ⟨tv1.sec + tv2.sec, tv1.usec + tv2.usec⟩⟩

theorem add_def (tv1 tv2 : TimeValue) :
    tv1 + tv2 = normalize ⟨tv1.sec + tv2.sec, tv1.usec + tv2.usec⟩ := rfl

@[simp] theorem add_total (tv1 tv2 : TimeValue) : (tv1 + tv2).total = tv1.total + tv2.total := by
  rw [add_def, normalize_total]
  simp only [total]
  ring

theorem add_normalised (tv1 tv2 : TimeValue) : (tv1 + tv2).Normalised :=
  normalize_normalised _

/-- `k` additions of an interval add `k` times its time. -/
theorem iterate_add_total (interval tv : TimeValue) (k : ℕ) :
    ((· + interval)^[k] tv).total = tv.total + k * interval.total := by
  induction k with
  | zero => simp
  | succ k ih =>
    rw [Function.iterate_succ_apply', add_total, ih]
    push_cast
    ring

/-! ### Comparisons -/

/-- `operator>=` and `operator<=`. -/
instance : LE TimeValue :=
  ⟨fun tv1 tv2 ↦ tv1.sec < tv2.sec ∨ tv1.sec = tv2.sec ∧ tv1.usec ≤ tv2.usec⟩

/-- `operator>` and `operator<`. -/
instance : LT TimeValue :=
  ⟨fun tv1 tv2 ↦ tv1.sec < tv2.sec ∨ tv1.sec = tv2.sec ∧ tv1.usec < tv2.usec⟩

theorem le_def {tv1 tv2 : TimeValue} :
    tv1 ≤ tv2 ↔ tv1.sec < tv2.sec ∨ tv1.sec = tv2.sec ∧ tv1.usec ≤ tv2.usec := Iff.rfl

theorem lt_def {tv1 tv2 : TimeValue} :
    tv1 < tv2 ↔ tv1.sec < tv2.sec ∨ tv1.sec = tv2.sec ∧ tv1.usec < tv2.usec := Iff.rfl

instance : DecidableRel (α := TimeValue) (· ≤ ·) := fun tv1 tv2 ↦
  inferInstanceAs (Decidable (tv1.sec < tv2.sec ∨ tv1.sec = tv2.sec ∧ tv1.usec ≤ tv2.usec))

instance : DecidableRel (α := TimeValue) (· < ·) := fun tv1 tv2 ↦
  inferInstanceAs (Decidable (tv1.sec < tv2.sec ∨ tv1.sec = tv2.sec ∧ tv1.usec < tv2.usec))

/-- The comparison operators are a linear order on all pairs, normalised or not. -/
instance : LinearOrder TimeValue where
  le_refl := fun tv ↦ by rw [le_def]; omega
  le_trans := fun tv1 tv2 tv3 h12 h23 ↦ by rw [le_def] at *; omega
  lt_iff_le_not_ge := fun tv1 tv2 ↦ by rw [lt_def, le_def, le_def]; omega
  le_antisymm := fun tv1 tv2 h12 h21 ↦ by
    rw [le_def] at h12 h21
    cases tv1
    cases tv2
    simp only [TimeValue.mk.injEq] at *
    omega
  le_total := fun tv1 tv2 ↦ by rw [le_def, le_def]; omega
  toDecidableLE := inferInstance
  toDecidableLT := inferInstance

/-- On normalised values the operators compare the times. -/
theorem lt_iff_total_lt {tv1 tv2 : TimeValue} (h1 : tv1.Normalised) (h2 : tv2.Normalised) :
    tv1 < tv2 ↔ tv1.total < tv2.total := by
  obtain ⟨⟨hlow1, hhigh1⟩, hpos1, hneg1⟩ := h1
  obtain ⟨⟨hlow2, hhigh2⟩, hpos2, hneg2⟩ := h2
  rw [lt_def]
  simp only [total, oneSecondInUsecs] at *
  omega

theorem le_iff_total_le {tv1 tv2 : TimeValue} (h1 : tv1.Normalised) (h2 : tv2.Normalised) :
    tv1 ≤ tv2 ↔ tv1.total ≤ tv2.total := by
  rw [← not_lt, ← not_lt, lt_iff_total_lt h2 h1]

theorem zero_normalised : zero.Normalised :=
  ⟨⟨by decide, by decide⟩, by decide, by decide⟩

/-- A value with bounded microseconds that the operators call positive has a positive time. -/
theorem total_pos_of_zero_lt {tv : TimeValue} (hbounded : tv.UsecBounded) (hpos : zero < tv) :
    0 < tv.total := by
  obtain ⟨hlow, hhigh⟩ := hbounded
  simp only [lt_def, zero, total, oneSecondInUsecs] at *
  omega

/-- A positive normalised value has no negative part. -/
theorem nonneg_of_zero_lt {tv : TimeValue} (hnorm : tv.Normalised) (hpos : zero < tv) :
    0 ≤ tv.sec ∧ 0 ≤ tv.usec := by
  obtain ⟨⟨hlow, hhigh⟩, hof_pos, hof_neg⟩ := hnorm
  simp only [lt_def, zero] at hpos
  omega

/-! ### Milliseconds -/

/-- The millisecond setter `msec(long)`. -/
def ofMsec (milliseconds : ℤ) : TimeValue :=
  let secs := milliseconds.tdiv 1000
  ⟨secs, (milliseconds - secs * 1000) * 1000⟩

/-- The getter `msec()`: the milliseconds of the time, cut and converted to `unsigned long`. -/
def msec (longBits : ℕ) (tv : TimeValue) : ℕ :=
  ((tv.sec * 1000 + tv.usec.tdiv 1000) % 2 ^ longBits).toNat

theorem ofMsec_total (milliseconds : ℤ) :
    (ofMsec milliseconds).total = milliseconds * 1000 := by
  simp only [ofMsec, total, oneSecondInUsecs]
  ring

/-- For a positive normalised value the getter is the time in whole milliseconds, reduced to the
width of `unsigned long`. -/
theorem msec_eq {tv : TimeValue} (longBits : ℕ) (hnorm : tv.Normalised) (hpos : zero < tv) :
    msec longBits tv = (tv.total / 1000).toNat % 2 ^ longBits := by
  obtain ⟨hsec, husec⟩ := nonneg_of_zero_lt hnorm hpos
  have hmillis : tv.sec * 1000 + tv.usec.tdiv 1000 = tv.total / 1000 := by
    rw [Int.tdiv_eq_ediv_of_nonneg husec]
    simp only [total, oneSecondInUsecs]
    omega
  have htotal : 0 ≤ tv.total / 1000 := by
    simp only [total, oneSecondInUsecs]
    omega
  rw [msec, hmillis, Int.toNat_emod htotal (by positivity)]
  congr 1

end TimeValue

end Exc.Timer
