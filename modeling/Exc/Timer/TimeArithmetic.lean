import Exc.Timer.TimeValue

/-!
# The arithmetic of time values

The other operators of `comLib/dhntimer/Time_Value.cpp`, and what all of them compute. The loops of
`normalize` are run here until their own test fails (`normalizeWithin`), and `normalizeWithin_eq`
says that they end with what `normalize` is. `arithmetic_exact` collects the arithmetic: every
operator that ends with `normalize` is exact and returns the normal form, and on normal forms the
comparisons are those of the times.

Two operators do not end with `normalize`: `+=` and `-=` with a number of seconds. They keep the
microseconds as they are, so a value with microseconds of one sign can get seconds of the other. A
`Computation` is any use of the operators, starting from the zero value; `normal_form_iff` says that
all values of a computation are in normal form exactly if no such change of sign occurs in it.
An argument may be the value itself, as in `a -= a`: each field is computed from the same field of
the argument, before it is written.
-/

set_option autoImplicit false
set_option relaxedAutoImplicit false

namespace Exc.Timer

namespace TimeValue

/-! ### Loops that run until their test fails -/

/-- A `while` loop, for at most `rounds` rounds: no value if its test holds then. -/
def loopWithin (test : TimeValue → Bool) (body : TimeValue → TimeValue) :
    ℕ → TimeValue → Option TimeValue
  | 0, tv => if test tv then none else some tv
  | rounds + 1, tv => if test tv then loopWithin test body rounds (body tv) else some tv

/-- The test of the first loop of `normalize`. -/
def mustCarryUp (tv : TimeValue) : Bool := oneSecondInUsecs ≤ tv.usec

/-- The body of the first loop of `normalize`. -/
def carryUpBody (tv : TimeValue) : TimeValue := ⟨tv.sec + 1, tv.usec - oneSecondInUsecs⟩

/-- The test of the second loop of `normalize`. -/
def mustCarryDown (tv : TimeValue) : Bool := tv.usec ≤ -oneSecondInUsecs

/-- The body of the second loop of `normalize`. -/
def carryDownBody (tv : TimeValue) : TimeValue := ⟨tv.sec - 1, tv.usec + oneSecondInUsecs⟩

/-- `normalize`, with at most `rounds` rounds of its loops: no value if a loop has not ended
then. -/
def normalizeWithin (rounds : ℕ) (tv : TimeValue) : Option TimeValue :=
  (if mustCarryUp tv then loopWithin mustCarryUp carryUpBody rounds tv
    else if mustCarryDown tv then loopWithin mustCarryDown carryDownBody rounds tv
    else some tv).map fixSigns

/-- A loop ends in time if each round makes a measure smaller that is positive at the test. -/
theorem loopWithin_eq {test : TimeValue → Bool} {body : TimeValue → TimeValue}
    {loop : ℕ → TimeValue → TimeValue} (measure : TimeValue → ℤ)
    (hzero : ∀ tv, loop 0 tv = tv)
    (hsucc : ∀ rounds tv, loop (rounds + 1) tv = if test tv then loop rounds (body tv) else tv)
    (hpositive : ∀ tv, test tv → 0 < measure tv)
    (hsmaller : ∀ tv, test tv → measure (body tv) < measure tv)
    (rounds : ℕ) (tv : TimeValue) (hrounds : measure tv ≤ rounds) :
    loopWithin test body rounds tv = some (loop rounds tv) := by
  induction rounds generalizing tv with
  | zero =>
    have htest : ¬test tv := fun htest ↦ by
      have hpos := hpositive tv htest
      omega
    rw [loopWithin, if_neg htest, hzero]
  | succ rounds ih =>
    rw [loopWithin, hsucc]
    by_cases htest : test tv
    · have hbody : measure (body tv) ≤ rounds := by
        have hless := hsmaller tv htest
        omega
      rw [if_pos htest, if_pos htest, ih _ hbody]
    · rw [if_neg htest, if_neg htest]

theorem loopWithin_carryUp (rounds : ℕ) (tv : TimeValue) (hrounds : tv.usec ≤ rounds) :
    loopWithin mustCarryUp carryUpBody rounds tv = some (carryUp rounds tv) := by
  refine loopWithin_eq (fun tv ↦ tv.usec) (fun tv ↦ rfl) ?_ ?_ ?_ rounds tv hrounds
  · intro rounds tv
    simp only [carryUp, mustCarryUp, carryUpBody, decide_eq_true_eq]
  all_goals
    intro tv htest
    have hsecond : oneSecondInUsecs ≤ tv.usec := of_decide_eq_true htest
    simp only [carryUpBody, oneSecondInUsecs] at hsecond ⊢
    omega

theorem loopWithin_carryDown (rounds : ℕ) (tv : TimeValue) (hrounds : -tv.usec ≤ rounds) :
    loopWithin mustCarryDown carryDownBody rounds tv = some (carryDown rounds tv) := by
  refine loopWithin_eq (fun tv ↦ -tv.usec) (fun tv ↦ rfl) ?_ ?_ ?_ rounds tv hrounds
  · intro rounds tv
    simp only [carryDown, mustCarryDown, carryDownBody, decide_eq_true_eq]
  all_goals
    intro tv htest
    have hsecond : tv.usec ≤ -oneSecondInUsecs := of_decide_eq_true htest
    simp only [carryDownBody, oneSecondInUsecs] at hsecond ⊢
    omega

/-- The loops of `normalize` end: as many rounds as there are microseconds are enough. -/
theorem normalizeWithin_eq (tv : TimeValue) :
    normalizeWithin tv.usec.natAbs tv = some (normalize tv) := by
  rw [normalizeWithin, normalize, loopWithin_carryUp _ _ (by omega),
    loopWithin_carryDown _ _ (by omega)]
  simp only [mustCarryUp, mustCarryDown, decide_eq_true_eq]
  split_ifs <;> rfl

/-! ### The other operators -/

/-- `operator+=` with a time. -/
def addAssign (this tv : TimeValue) : TimeValue :=
  normalize ⟨this.sec + tv.sec, this.usec + tv.usec⟩

/-- `operator+=` with a number of seconds. -/
def addSeconds (this : TimeValue) (tv : ℤ) : TimeValue := { this with sec := this.sec + tv }

/-- `operator=` with a time. -/
def assign (_this tv : TimeValue) : TimeValue := ⟨tv.sec, tv.usec⟩

/-- `operator=` with a number of seconds. -/
def assignSeconds (_this : TimeValue) (tv : ℤ) : TimeValue := ⟨tv, 0⟩

/-- `operator-=` with a time. -/
def subAssign (this tv : TimeValue) : TimeValue :=
  normalize ⟨this.sec - tv.sec, this.usec - tv.usec⟩

/-- `operator-=` with a number of seconds. -/
def subSeconds (this : TimeValue) (tv : ℤ) : TimeValue := { this with sec := this.sec - tv }

/-- `operator-`: a copy of the first argument, `-=` the second. -/
instance : Sub TimeValue := ⟨fun tv1 tv2 ↦ subAssign tv1 tv2⟩

/-- `operator++`, the value afterwards. -/
def increment (this : TimeValue) : TimeValue := normalize ⟨this.sec, this.usec + 1⟩

/-- `operator--`, the value afterwards. -/
def decrement (this : TimeValue) : TimeValue := normalize ⟨this.sec, this.usec - 1⟩

/-- `operator==`. -/
def equal (tv1 tv2 : TimeValue) : Bool := tv1.sec = tv2.sec ∧ tv1.usec = tv2.usec

/-- `operator!=`. -/
def notEqual (tv1 tv2 : TimeValue) : Bool := !equal tv1 tv2

variable {tv1 tv2 : TimeValue}

theorem subAssign_total (tv1 tv2 : TimeValue) :
    (subAssign tv1 tv2).total = tv1.total - tv2.total := by
  rw [subAssign, normalize_total]
  simp only [total]
  ring

@[simp] theorem sub_total (tv1 tv2 : TimeValue) : (tv1 - tv2).total = tv1.total - tv2.total :=
  subAssign_total tv1 tv2

theorem sub_normalised (tv1 tv2 : TimeValue) : (tv1 - tv2).Normalised := normalize_normalised _

theorem increment_total (tv : TimeValue) : (increment tv).total = tv.total + 1 := by
  rw [increment, normalize_total]
  simp only [total]
  ring

theorem decrement_total (tv : TimeValue) : (decrement tv).total = tv.total - 1 := by
  rw [decrement, normalize_total]
  simp only [total]
  ring

theorem equal_iff : equal tv1 tv2 ↔ tv1 = tv2 := by
  cases tv1
  cases tv2
  simp [equal]

/-- A time has one normal form. -/
theorem equal_iff_total_eq (h1 : tv1.Normalised) (h2 : tv2.Normalised) :
    equal tv1 tv2 ↔ tv1.total = tv2.total := by
  rw [equal_iff, le_antisymm_iff, le_antisymm_iff, le_iff_total_le h1 h2, le_iff_total_le h2 h1]

/-- `normalize` ends, keeps the time and reaches the normal form, whatever the fields are. On normal
forms all sums and differences are normal forms of the exact time, and all comparisons are those of
the times. -/
theorem arithmetic_exact :
    (∀ tv : TimeValue, ∃ rounds result, normalizeWithin rounds tv = some result ∧
      result.total = tv.total ∧ result.Normalised) ∧
    ∀ a b : TimeValue, a.Normalised → b.Normalised →
      ((a + b).Normalised ∧ (a + b).total = a.total + b.total) ∧
      ((a - b).Normalised ∧ (a - b).total = a.total - b.total) ∧
      ((a.addAssign b).Normalised ∧ (a.addAssign b).total = a.total + b.total) ∧
      ((a.subAssign b).Normalised ∧ (a.subAssign b).total = a.total - b.total) ∧
      (a.increment.Normalised ∧ a.increment.total = a.total + 1) ∧
      (a.decrement.Normalised ∧ a.decrement.total = a.total - 1) ∧
      (a < b ↔ a.total < b.total) ∧ (a ≤ b ↔ a.total ≤ b.total) ∧
      (a > b ↔ a.total > b.total) ∧ (a ≥ b ↔ a.total ≥ b.total) ∧
      (equal a b ↔ a.total = b.total) ∧ (notEqual a b ↔ a.total ≠ b.total) := by
  refine ⟨fun tv ↦ ⟨_, _, normalizeWithin_eq tv, normalize_spec tv⟩, fun a b ha hb ↦ ?_⟩
  have hequal := equal_iff_total_eq ha hb
  refine ⟨⟨add_normalised a b, add_total a b⟩, ⟨sub_normalised a b, sub_total a b⟩,
    ⟨add_normalised a b, add_total a b⟩, ⟨sub_normalised a b, subAssign_total a b⟩,
    ⟨normalize_normalised _, increment_total a⟩, ⟨normalize_normalised _, decrement_total a⟩,
    lt_iff_total_lt ha hb, le_iff_total_le ha hb, lt_iff_total_lt hb ha, le_iff_total_le hb ha,
    hequal, ?_⟩
  rw [notEqual, Bool.not_eq_true', ← Bool.not_eq_true, hequal]

/-- Minus half a second and a quarter of a second. -/
theorem arithmetic_exact_negative :
    ((⟨0, -500000⟩ : TimeValue) - ⟨0, 250000⟩).total = -750000 ∧
      (⟨0, -500000⟩ : TimeValue) < ⟨0, 250000⟩ := by
  have hexact := arithmetic_exact.2 ⟨0, -500000⟩ ⟨0, 250000⟩
    ⟨⟨by decide, by decide⟩, by decide, by decide⟩ ⟨⟨by decide, by decide⟩, by decide, by decide⟩
  obtain ⟨-, ⟨-, hdifference⟩, -, -, -, -, hless, -⟩ := hexact
  exact ⟨hdifference, hless.mpr (by decide)⟩

/-! ### Computations with all operators -/

/-- A use of the operators, as the way in which a value came about from the zero value. An argument
that is a time came about in the same way. The two forms of `++` and of `--` leave the same value;
the value that the postfix form returns is the one before. -/
inductive Computation
  | zero
  | assign (this tv : Computation)
  | assignSeconds (this : Computation) (tv : ℤ)
  | addAssign (this tv : Computation)
  | addSeconds (this : Computation) (tv : ℤ)
  | subAssign (this tv : Computation)
  | subSeconds (this : Computation) (tv : ℤ)
  | add (tv1 tv2 : Computation)
  | sub (tv1 tv2 : Computation)
  | increment (this : Computation)
  | decrement (this : Computation)
  | msec (this : Computation) (milliseconds : ℤ)

namespace Computation

/-- The value that a computation ends with. -/
def value : Computation → TimeValue
  | zero => .zero
  | assign this tv => this.value.assign tv.value
  | assignSeconds this tv => this.value.assignSeconds tv
  | addAssign this tv => this.value.addAssign tv.value
  | addSeconds this tv => this.value.addSeconds tv
  | subAssign this tv => this.value.subAssign tv.value
  | subSeconds this tv => this.value.subSeconds tv
  | add tv1 tv2 => tv1.value + tv2.value
  | sub tv1 tv2 => tv1.value - tv2.value
  | increment this => this.value.increment
  | decrement this => this.value.decrement
  | msec _ milliseconds => .ofMsec milliseconds

/-- A computation with all the computations that it contains. -/
def parts : Computation → List Computation
  | zero => [zero]
  | assign this tv => assign this tv :: (this.parts ++ tv.parts)
  | assignSeconds this tv => assignSeconds this tv :: this.parts
  | addAssign this tv => addAssign this tv :: (this.parts ++ tv.parts)
  | addSeconds this tv => addSeconds this tv :: this.parts
  | subAssign this tv => subAssign this tv :: (this.parts ++ tv.parts)
  | subSeconds this tv => subSeconds this tv :: this.parts
  | add tv1 tv2 => add tv1 tv2 :: (tv1.parts ++ tv2.parts)
  | sub tv1 tv2 => sub tv1 tv2 :: (tv1.parts ++ tv2.parts)
  | increment this => increment this :: this.parts
  | decrement this => decrement this :: this.parts
  | msec this milliseconds => msec this milliseconds :: this.parts

/-- Seconds that do not have the opposite sign of the microseconds of a value. -/
def SignsAgree (this : TimeValue) (sec : ℤ) : Prop :=
  (0 < sec → 0 ≤ this.usec) ∧ (sec < 0 → this.usec ≤ 0)

/-- If the last operator adds or subtracts seconds, the new seconds agree in sign with the
microseconds before it. -/
def KeepsSigns : Computation → Prop
  | addSeconds this tv => SignsAgree this.value (this.value.sec + tv)
  | subSeconds this tv => SignsAgree this.value (this.value.sec - tv)
  | _ => True

theorem mem_parts (computation : Computation) : computation ∈ computation.parts := by
  cases computation <;> exact List.mem_cons_self

/-- The millisecond setter gives both fields the sign of its argument. -/
theorem ofMsec_normalised (milliseconds : ℤ) : (ofMsec milliseconds).Normalised := by
  have hsplit := Int.mul_tdiv_add_tmod milliseconds 1000
  have hrest : milliseconds - milliseconds.tdiv 1000 * 1000 = milliseconds.tmod 1000 := by omega
  have habove := Int.tmod_lt_of_pos milliseconds (show (0 : ℤ) < 1000 by decide)
  have hbelow := Int.lt_tmod_of_pos milliseconds (show (0 : ℤ) < 1000 by decide)
  have hsigns : 0 ≤ milliseconds ∧ 0 ≤ milliseconds.tmod 1000 ∨
      milliseconds ≤ 0 ∧ milliseconds.tmod 1000 ≤ 0 := by
    rcases le_total 0 milliseconds with hnonneg | hnonpos
    · exact Or.inl ⟨hnonneg, Int.tmod_nonneg 1000 hnonneg⟩
    · have hflip := Int.tmod_nonneg 1000 (Int.neg_nonneg.mpr hnonpos)
      rw [Int.neg_tmod] at hflip
      exact Or.inr ⟨hnonpos, by omega⟩
  rw [ofMsec, hrest]
  refine ⟨⟨?_, ?_⟩, ?_, ?_⟩ <;> simp only [oneSecondInUsecs] <;> omega

/-- A change of the seconds keeps the normal form exactly if the signs agree afterwards. -/
theorem normalised_seconds_iff {this : TimeValue} (hthis : this.Normalised) (sec : ℤ) :
    ({ this with sec := sec } : TimeValue).Normalised ↔ SignsAgree this sec :=
  ⟨fun h ↦ ⟨h.of_pos, h.of_neg⟩, fun h ↦ ⟨hthis.bounded, h.1, h.2⟩⟩

/-- One operator, applied to values in normal form. -/
theorem value_normalised_iff (computation : Computation)
    (hparts : ∀ part ∈ computation.parts.tail, part.value.Normalised) :
    computation.value.Normalised ↔ computation.KeepsSigns := by
  cases computation with
  | zero => exact iff_of_true zero_normalised trivial
  | assign this tv =>
    exact iff_of_true (hparts tv (List.mem_append_right _ tv.mem_parts)) trivial
  | assignSeconds this tv =>
    have hbounded : (⟨tv, 0⟩ : TimeValue).UsecBounded := by simp [UsecBounded, oneSecondInUsecs]
    exact iff_of_true ⟨hbounded, fun _ ↦ le_rfl, fun _ ↦ le_rfl⟩ trivial
  | addSeconds this tv => exact normalised_seconds_iff (hparts this this.mem_parts) _
  | subSeconds this tv => exact normalised_seconds_iff (hparts this this.mem_parts) _
  | msec this milliseconds => exact iff_of_true (ofMsec_normalised milliseconds) trivial
  | addAssign | subAssign | add | sub | increment | decrement =>
    exact iff_of_true (normalize_normalised _) trivial

/-- The last value is in normal form under a condition, and the values before it are. -/
theorem forall_cons_iff {computation : Computation} {rest : List Computation}
    (hparts : computation.parts = computation :: rest)
    (hrest : (∀ part ∈ rest, part.value.Normalised) ↔ ∀ part ∈ rest, part.KeepsSigns) :
    (∀ part ∈ computation.parts, part.value.Normalised) ↔
      ∀ part ∈ computation.parts, part.KeepsSigns := by
  have hlast := computation.value_normalised_iff
  rw [hparts, List.tail_cons] at hlast
  rw [hparts, List.forall_mem_cons, List.forall_mem_cons, ← hrest]
  exact and_congr_left hlast

/-- By induction over the computation, one operator at a time. -/
theorem parts_normalised_iff (computation : Computation) :
    (∀ part ∈ computation.parts, part.value.Normalised) ↔
      ∀ part ∈ computation.parts, part.KeepsSigns := by
  induction computation with
  | zero => exact forall_cons_iff rfl (by simp)
  | assign _ _ h1 h2 | addAssign _ _ h1 h2 | subAssign _ _ h1 h2 | add _ _ h1 h2 | sub _ _ h1 h2 =>
    refine forall_cons_iff rfl ?_
    rw [List.forall_mem_append, List.forall_mem_append, h1, h2]
  | assignSeconds _ _ h | addSeconds _ _ h | subSeconds _ _ h | increment _ h | decrement _ h
    | msec _ _ h => exact forall_cons_iff rfl h

/-- All values of two computations are in normal form, and the values that they end with are equal
exactly if their times are, if and only if every `+=` and `-=` with seconds keeps the signs. -/
theorem normal_form_iff (first second : Computation) :
    ((∀ part ∈ first.parts ++ second.parts, part.value.Normalised) ∧
      (equal first.value second.value ↔ first.value.total = second.value.total)) ↔
    ∀ part ∈ first.parts ++ second.parts, part.KeepsSigns := by
  have hparts : (∀ part ∈ first.parts ++ second.parts, part.value.Normalised) ↔
      ∀ part ∈ first.parts ++ second.parts, part.KeepsSigns := by
    rw [List.forall_mem_append, List.forall_mem_append, parts_normalised_iff, parts_normalised_iff]
  rw [hparts, and_iff_left_iff_imp]
  intro hsigns
  have hnormal := List.forall_mem_append.mp (hparts.mpr hsigns)
  exact equal_iff_total_eq (hnormal.1 _ first.mem_parts) (hnormal.2 _ second.mem_parts)

/-- One microsecond before zero, and then five seconds more: it is not equal to the same time that
is made from five seconds. -/
theorem seconds_leave_normal_form :
    (addSeconds (decrement zero) 5).value = ⟨5, -1⟩ ∧
      ¬(addSeconds (decrement zero) 5).value.Normalised ∧
      (decrement (addSeconds zero 5)).value = ⟨4, 999999⟩ ∧
      (addSeconds (decrement zero) 5).value.total = (decrement (addSeconds zero 5)).value.total ∧
      ¬equal (addSeconds (decrement zero) 5).value (decrement (addSeconds zero 5)).value := by
  have hvalue : (addSeconds (decrement zero) 5).value = ⟨5, -1⟩ := by decide
  refine ⟨hvalue, fun hnormal ↦ ?_, by decide, by decide, by decide⟩
  rw [hvalue] at hnormal
  exact absurd (hnormal.of_pos (by decide)) (by decide)

end Computation

end TimeValue

end Exc.Timer
