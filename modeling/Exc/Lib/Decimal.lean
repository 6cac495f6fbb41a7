import Mathlib.Data.UInt
import Mathlib.Tactic.Ring

/-!
# Numbers as text

What C's library does with numbers in text: `snprintf` with `%d`, `strtol` in base 10 and `atoi`,
and `sscanf` with `%x`. `long` has 64 bits: a number out of its range is read as the bound that is
nearest to it, and `atoi` and `sscanf` keep the low 32 bits of it.
-/

set_option autoImplicit false
set_option relaxedAutoImplicit false

namespace Exc.Lib

/-! ### Reading -/

/-- `isspace`. -/
def isSpace (char : UInt8) : Bool :=
  char = ' '.toUInt8 || ('\t'.toUInt8 ≤ char && char ≤ '\r'.toUInt8)

/-- The value of a digit of a base up to 16. -/
def digitValue (char : UInt8) : Option ℕ :=
  if '0'.toUInt8 ≤ char ∧ char ≤ '9'.toUInt8 then some (char.toNat - '0'.toNat)
  else if 'a'.toUInt8 ≤ char ∧ char ≤ 'f'.toUInt8 then some (char.toNat - 'a'.toNat + 10)
  else if 'A'.toUInt8 ≤ char ∧ char ≤ 'F'.toUInt8 then some (char.toNat - 'A'.toNat + 10)
  else none

/-- The number that the digits at the beginning of a text make up. -/
def readDigits (base : ℕ) (value : ℕ) : List UInt8 → ℕ
  | [] => value
  | char :: rest =>
    match digitValue char with
    | some digit => if digit < base then readDigits base (base * value + digit) rest else value
    | none => value

/-- An optional sign: whether it is a minus, and what follows it. -/
def readSign : List UInt8 → Bool × List UInt8
  | [] => (false, [])
  | char :: rest =>
    if char = '-'.toUInt8 then (true, rest)
    else if char = '+'.toUInt8 then (false, rest)
    else (false, char :: rest)

/-- `strtol(text, 0, 10)`. -/
def strtol (text : List UInt8) : ℤ :=
  let signed := readSign (text.dropWhile isSpace)
  let magnitude : ℤ := readDigits 10 0 signed.2
  max (-2 ^ 63) (min (2 ^ 63 - 1) (if signed.1 then -magnitude else magnitude))

/-- `atoi`. -/
def atoi (text : List UInt8) : Int32 := Int32.ofInt (strtol text)

/-- The optional `0x` of a hexadecimal number. -/
def skipHexMark : List UInt8 → List UInt8
  | zero :: mark :: rest =>
    if zero = '0'.toUInt8 ∧ (mark = 'x'.toUInt8 ∨ mark = 'X'.toUInt8) then rest
    else zero :: mark :: rest
  | text => text

/-- What `sscanf(text, "%x", &number)` leaves in a `number` that was 0. -/
def sscanfHex (text : List UInt8) : Int32 :=
  let signed := readSign (text.dropWhile isSpace)
  let magnitude := readDigits 16 0 (skipHexMark signed.2)
  let number : ℤ :=
    if 2 ^ 64 ≤ magnitude then 2 ^ 64 - 1 else if signed.1 then -magnitude else magnitude
  Int32.ofInt number

/-! ### Writing -/

/-- The decimal digits of a number. -/
def decimal (number : ℕ) : List UInt8 := (Nat.toDigits 10 number).map Char.toUInt8

/-- `snprintf` with `%d`. -/
def formatInt (number : Int32) : List UInt8 :=
  if number.toInt < 0 then '-'.toUInt8 :: decimal number.toInt.natAbs
  else decimal number.toInt.natAbs

/-! ### Reading what was written -/

variable {char : Char} {number : ℕ}

/-- A digit has the same code as a character and as a byte. -/
theorem toNat_toUInt8_of_isDigit (hdigit : char.isDigit) :
    char.toUInt8.toNat = char.toNat ∧ '0'.toNat ≤ char.toNat ∧ char.toNat ≤ '9'.toNat := by
  have hrange : '0'.toNat ≤ char.toNat ∧ char.toNat ≤ '9'.toNat := by
    simpa [Char.isDigit, UInt32.le_iff_toNat_le] using hdigit
  have hlt : char.toNat < 256 := lt_of_le_of_lt hrange.2 (by decide)
  refine ⟨?_, hrange⟩
  rw [Char.toUInt8, UInt32.toNat_toUInt8]
  exact Nat.mod_eq_of_lt hlt

theorem digitValue_of_isDigit (hdigit : char.isDigit) :
    digitValue char.toUInt8 = some (char.toNat - '0'.toNat) := by
  obtain ⟨hcode, hle, hge⟩ := toNat_toUInt8_of_isDigit hdigit
  rw [digitValue, if_pos, hcode]
  rw [UInt8.le_iff_toNat_le, UInt8.le_iff_toNat_le, hcode]
  exact ⟨hle, hge⟩

/-- All digits are read. -/
theorem readDigits_eq_ofDigitChars {digits : List Char} (hdigits : ∀ char ∈ digits, char.isDigit)
    (value : ℕ) :
    readDigits 10 value (digits.map Char.toUInt8) = Nat.ofDigitChars 10 digits value := by
  induction digits generalizing value with
  | nil => simp [readDigits]
  | cons char rest ih =>
    obtain ⟨hchar, hrest⟩ := List.forall_mem_cons.mp hdigits
    obtain ⟨-, hle, hge⟩ := toNat_toUInt8_of_isDigit hchar
    have hsmall : char.toNat - '0'.toNat < 10 := by
      have hnine : '9'.toNat = '0'.toNat + 9 := rfl
      omega
    rw [List.map_cons, readDigits, digitValue_of_isDigit hchar, Nat.ofDigitChars_cons]
    dsimp only
    rw [if_pos hsmall]
    exact ih hrest _

theorem readDigits_decimal (number : ℕ) : readDigits 10 0 (decimal number) = number := by
  have hdigits : ∀ char ∈ Nat.toDigits 10 number, char.isDigit := fun char hchar ↦
    Nat.isDigit_of_mem_toDigits (by decide) (by decide) hchar
  rw [decimal, readDigits_eq_ofDigitChars hdigits, Nat.ofDigitChars_ten_toDigits]

/-- A number in decimals begins with a digit. -/
theorem decimal_eq_cons (number : ℕ) : ∃ char : Char, ∃ rest : List UInt8,
    char.isDigit ∧ decimal number = char.toUInt8 :: rest := by
  cases hdigits : Nat.toDigits 10 number with
  | nil => exact absurd hdigits Nat.toDigits_ne_nil
  | cons char rest =>
    refine ⟨char, rest.map Char.toUInt8, ?_, by rw [decimal, hdigits, List.map_cons]⟩
    refine Nat.isDigit_of_mem_toDigits (b := 10) (n := number) (by decide) (by decide) ?_
    rw [hdigits]
    exact List.mem_cons_self

/-- The marks below `0` are no digits. -/
theorem toUInt8_ne_of_isDigit (hdigit : char.isDigit) {mark : UInt8} (hmark : mark.toNat < 48) :
    char.toUInt8 ≠ mark := by
  rintro rfl
  obtain ⟨hcode, hle, -⟩ := toNat_toUInt8_of_isDigit hdigit
  have hzero : '0'.toNat = 48 := rfl
  omega

theorem not_isSpace_of_isDigit (hdigit : char.isDigit) : ¬isSpace char.toUInt8 := by
  have hreturn : ¬char.toUInt8 ≤ '\r'.toUInt8 := by
    obtain ⟨hcode, hle, -⟩ := toNat_toUInt8_of_isDigit hdigit
    have hzero : '0'.toNat = 48 := rfl
    have hthirteen : ('\r'.toUInt8).toNat = 13 := rfl
    rw [UInt8.le_iff_toNat_le]
    omega
  have hblank : char.toUInt8 ≠ ' '.toUInt8 := toUInt8_ne_of_isDigit hdigit (by decide)
  simp only [isSpace, hblank, hreturn, decide_false, Bool.and_false, Bool.or_false,
    Bool.false_eq_true, not_false_eq_true]

theorem dropWhile_isSpace_decimal (number : ℕ) :
    (decimal number).dropWhile isSpace = decimal number := by
  obtain ⟨char, rest, hdigit, hcons⟩ := decimal_eq_cons number
  rw [hcons, List.dropWhile_cons_of_neg (not_isSpace_of_isDigit hdigit)]

/-- A digit is no sign. -/
theorem readSign_decimal (number : ℕ) : readSign (decimal number) = (false, decimal number) := by
  obtain ⟨char, rest, hdigit, hcons⟩ := decimal_eq_cons number
  have hminus : char.toUInt8 ≠ '-'.toUInt8 := toUInt8_ne_of_isDigit hdigit (by decide)
  have hplus : char.toUInt8 ≠ '+'.toUInt8 := toUInt8_ne_of_isDigit hdigit (by decide)
  rw [hcons, readSign, if_neg hminus, if_neg hplus]

/-- A number in decimals has only digits. -/
theorem toNat_mem_decimal {byte : UInt8} (hbyte : byte ∈ decimal number) :
    48 ≤ byte.toNat ∧ byte.toNat ≤ 57 := by
  obtain ⟨char, hchar, rfl⟩ := List.mem_map.mp hbyte
  have hdigit : char.isDigit := Nat.isDigit_of_mem_toDigits (by decide) (by decide) hchar
  obtain ⟨hcode, hle, hge⟩ := toNat_toUInt8_of_isDigit hdigit
  have hzero : '0'.toNat = 48 := rfl
  have hnine : '9'.toNat = 57 := rfl
  omega

/-- What `%d` writes are digits and a minus. -/
theorem toNat_mem_formatInt {value : Int32} {byte : UInt8} (hbyte : byte ∈ formatInt value) :
    45 ≤ byte.toNat ∧ byte.toNat ≤ 57 := by
  rw [formatInt] at hbyte
  split at hbyte
  · rcases List.mem_cons.mp hbyte with rfl | hbyte
    · decide
    · have hdigit := toNat_mem_decimal hbyte
      omega
  · have hdigit := toNat_mem_decimal hbyte
    omega

/-- What is read is in the range of `long`. -/
theorem clamp_toInt (number : Int32) :
    max (-2 ^ 63) (min (2 ^ 63 - 1) number.toInt) = number.toInt := by
  have hupper := number.toInt_lt
  have hlower := number.le_toInt
  omega

/-- `strtol` reads what `%d` writes. -/
theorem strtol_formatInt (number : Int32) : strtol (formatInt number) = number.toInt := by
  rw [formatInt]
  split
  · rename_i hneg
    have hminus : ¬isSpace '-'.toUInt8 := by decide
    have hsigned : readSign ('-'.toUInt8 :: decimal number.toInt.natAbs) =
        (true, decimal number.toInt.natAbs) := rfl
    have hvalue : -(number.toInt.natAbs : ℤ) = number.toInt := by omega
    rw [strtol, List.dropWhile_cons_of_neg hminus, hsigned]
    simp only [readDigits_decimal, if_true, hvalue]
    exact clamp_toInt number
  · rename_i hneg
    have hvalue : (number.toInt.natAbs : ℤ) = number.toInt := by omega
    rw [strtol, dropWhile_isSpace_decimal, readSign_decimal]
    simp only [readDigits_decimal, Bool.false_eq_true, if_false, hvalue]
    exact clamp_toInt number

/-- `atoi` reads what `%d` writes. -/
theorem atoi_formatInt (number : Int32) : atoi (formatInt number) = number := by
  rw [atoi, strtol_formatInt, Int32.ofInt_toInt]

end Exc.Lib
