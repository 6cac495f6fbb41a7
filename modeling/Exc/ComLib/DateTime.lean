import Mathlib.Data.Int.Order.Basic

/-!
# The arithmetic of `DateTime`

`comLib/DateTime.h`: a number of seconds and a number of milliseconds below a thousand. Numbers are
integers without bounds here, so nothing overflows. The argument of `+=` and `-=` may be the value
itself: each field is computed from the old one, and the test from fields not yet written.

The four sums and differences carry and borrow between the two fields and are exact (`sums_exact`).
Unary minus goes through the constructor that sets the milliseconds to zero, so it is exact on whole
seconds only (`neg_total_iff`). The six comparisons read the seconds only, so they are those of the
times unless two times differ within one second (`comparisons_iff`).
-/

set_option autoImplicit false
set_option relaxedAutoImplicit false

namespace Exc.ComLib

structure DateTime where
  m_sec : ℤ
  tm_millisec : ℤ
  tm_sec : ℤ
  tm_min : ℤ
  tm_hour : ℤ
  tm_mday : ℤ
  tm_mon : ℤ
  tm_year : ℤ
  tm_wday : ℤ
  tm_yday : ℤ
  deriving DecidableEq, Repr

namespace DateTime

/-! ### The class -/

def tmInit (this : DateTime) : DateTime :=
  { this with
    tm_sec := 0, tm_min := 0, tm_hour := 0, tm_mday := 0, tm_mon := 0, tm_year := 0, tm_wday := 0,
    tm_yday := 0, tm_millisec := 0 }

/-- The constructor `DateTime(long time_t)`; `this` is what the memory holds before. -/
def ofSeconds (this : DateTime) (time_t : ℤ) : DateTime := { this.tmInit with m_sec := time_t }

/-- The constructor `DateTime(long time_t, int millitm)`. -/
def ofMillis (this : DateTime) (time_t millitm : ℤ) : DateTime :=
  { this.tmInit with m_sec := time_t, tm_millisec := millitm }

/-- `operator-() const`, with the memory of the value that is returned. -/
def neg (this memory : DateTime) : DateTime := ofSeconds memory (-this.m_sec)

def sub (this rhs memory : DateTime) : DateTime :=
  if this.tm_millisec ≥ rhs.tm_millisec then
    ofMillis memory (this.m_sec - rhs.m_sec) (this.tm_millisec - rhs.tm_millisec)
  else
    ofMillis memory (this.m_sec - rhs.m_sec - 1) (1000 + this.tm_millisec - rhs.tm_millisec)

def subAssign (this rhs : DateTime) : DateTime :=
  if this.tm_millisec ≥ rhs.tm_millisec then
    { this with
      m_sec := this.m_sec - rhs.m_sec
      tm_millisec := this.tm_millisec - rhs.tm_millisec }
  else
    { this with
      m_sec := this.m_sec - rhs.m_sec - 1
      tm_millisec := this.tm_millisec - rhs.tm_millisec + 1000 }

def add (this rhs memory : DateTime) : DateTime :=
  if this.tm_millisec + rhs.tm_millisec < 1000 then
    ofMillis memory (this.m_sec + rhs.m_sec) (this.tm_millisec + rhs.tm_millisec)
  else
    ofMillis memory (this.m_sec + rhs.m_sec + 1) (this.tm_millisec + rhs.tm_millisec - 1000)

def addAssign (this rhs : DateTime) : DateTime :=
  if this.tm_millisec + rhs.tm_millisec < 1000 then
    { this with
      m_sec := this.m_sec + rhs.m_sec
      tm_millisec := this.tm_millisec + rhs.tm_millisec }
  else
    { this with
      m_sec := this.m_sec + rhs.m_sec + 1
      tm_millisec := this.tm_millisec + rhs.tm_millisec - 1000 }

def lt (this rhs : DateTime) : Bool := this.m_sec < rhs.m_sec
def le (this rhs : DateTime) : Bool := this.m_sec ≤ rhs.m_sec
def gt (this rhs : DateTime) : Bool := this.m_sec > rhs.m_sec
def ge (this rhs : DateTime) : Bool := this.m_sec ≥ rhs.m_sec
def eq (this rhs : DateTime) : Bool := this.m_sec = rhs.m_sec
def ne (this rhs : DateTime) : Bool := this.m_sec ≠ rhs.m_sec

/-! ### Times -/

/-- The time in milliseconds. -/
def total (date : DateTime) : ℤ := 1000 * date.m_sec + date.tm_millisec

def Normal (date : DateTime) : Prop := 0 ≤ date.tm_millisec ∧ date.tm_millisec < 1000

/-- The date is the normal form of a time. -/
def Stands (date : DateTime) (time : ℤ) : Prop := date.Normal ∧ date.total = time

/-- A time has one normal form. -/
theorem stands_iff {date : DateTime} {time : ℤ} :
    date.Stands time ↔ date.m_sec = time / 1000 ∧ date.tm_millisec = time % 1000 := by
  unfold Stands Normal total
  omega

theorem total_eq_iff {a b : DateTime} (ha : a.Normal) (hb : b.Normal) :
    a.total = b.total ↔ a.m_sec = b.m_sec ∧ a.tm_millisec = b.tm_millisec := by
  obtain ⟨hseconds, hmillis⟩ := stands_iff.mp (And.intro ha rfl)
  obtain ⟨hseconds', hmillis'⟩ := stands_iff.mp (And.intro hb rfl)
  constructor
  · intro hequal
    rw [hseconds, hmillis, hseconds', hmillis', hequal]
    exact ⟨rfl, rfl⟩
  · rintro ⟨hsec, hms⟩
    rw [total, total, hsec, hms]

/-- The order of times is lexicographic in normal forms. -/
theorem total_lt_iff {a b : DateTime} (ha : a.Normal) (hb : b.Normal) :
    a.total < b.total ↔
      a.m_sec < b.m_sec ∨ a.m_sec = b.m_sec ∧ a.tm_millisec < b.tm_millisec := by
  unfold Normal at ha hb
  unfold total
  omega

/-! ### What the operators compute -/

def SumsExact (a b memory : DateTime) : Prop :=
  (a.add b memory).Stands (a.total + b.total) ∧ (a.sub b memory).Stands (a.total - b.total) ∧
    (a.addAssign b).Stands (a.total + b.total) ∧ (a.subAssign b).Stands (a.total - b.total)

theorem sums_exact {a b : DateTime} (ha : a.Normal) (hb : b.Normal) (memory : DateTime) :
    SumsExact a b memory := by
  unfold Normal at ha hb
  unfold SumsExact add sub addAssign subAssign Stands Normal total ofMillis
  refine ⟨?_, ?_, ?_, ?_⟩ <;> split_ifs <;> dsimp only <;> omega

theorem neg_total_iff (a memory : DateTime) :
    (a.neg memory).total = -a.total ↔ a.tm_millisec = 0 := by
  have hneg : (a.neg memory).total = 1000 * -a.m_sec + 0 := rfl
  rw [hneg, total]
  omega

def ComparisonsAgree (a b : DateTime) : Prop :=
  (a.lt b ↔ a.total < b.total) ∧ (a.le b ↔ a.total ≤ b.total) ∧ (a.gt b ↔ a.total > b.total) ∧
    (a.ge b ↔ a.total ≥ b.total) ∧ (a.eq b ↔ a.total = b.total) ∧ (a.ne b ↔ a.total ≠ b.total)

theorem comparisons_iff {a b : DateTime} (ha : a.Normal) (hb : b.Normal) :
    ComparisonsAgree a b ↔ (a.m_sec = b.m_sec → a.tm_millisec = b.tm_millisec) := by
  have hless := total_lt_iff ha hb
  have hgreater := total_lt_iff hb ha
  have hequal := total_eq_iff ha hb
  unfold ComparisonsAgree lt le gt ge eq ne
  simp only [decide_eq_true_eq]
  constructor
  · rintro ⟨-, -, -, -, hagree, -⟩ hsec
    exact (hequal.mp (hagree.mp hsec)).2
  · intro hmillis
    refine ⟨?_, ?_, ?_, ?_, ?_, ?_⟩ <;> omega

/-- All operators are exact for two times. -/
def Exact (a b memory : DateTime) : Prop :=
  SumsExact a b memory ∧ (a.neg memory).total = -a.total ∧ ComparisonsAgree a b

/-- The operators are exact for two times if and only if the first one is a whole number of seconds
and the times do not differ within one second. -/
theorem exact_iff {a b : DateTime} (ha : a.Normal) (hb : b.Normal) (memory : DateTime) :
    Exact a b memory ↔
      a.tm_millisec = 0 ∧ (a.m_sec = b.m_sec → a.tm_millisec = b.tm_millisec) := by
  rw [Exact, neg_total_iff, comparisons_iff ha hb]
  exact and_iff_right (sums_exact ha hb memory)

/-- A date with all structure fields zero. -/
def ofTime (time_t millitm : ℤ) : DateTime := ofMillis ⟨0, 0, 0, 0, 0, 0, 0, 0, 0, 0⟩ time_t millitm

/-- Two seconds and one and a half. -/
theorem exact_two_seconds : Exact (ofTime 2 0) (ofTime 1 500) (ofTime 0 0) :=
  (exact_iff (by unfold Normal; decide) (by unfold Normal; decide) (ofTime 0 0)).mpr (by decide)

/-- Half a second is not negated, and it is equal to no time at all. -/
theorem not_exact_half_second :
    ((ofTime 0 500).neg (ofTime 0 0)).total = 0 ∧ (ofTime 0 500).eq (ofTime 0 0) = true ∧
      ¬∀ a b memory : DateTime, a.Normal → b.Normal → Exact a b memory := by
  refine ⟨by decide, by decide, fun hall ↦ ?_⟩
  have hexact := hall (ofTime 0 500) (ofTime 0 0) (ofTime 0 0)
    (by unfold Normal; decide) (by unfold Normal; decide)
  exact absurd hexact.2.1 (by decide)

end DateTime

end Exc.ComLib
