import Exc.Des.EasyDES

/-!
# Hexadecimal text and back

`EasyDES::toHex` writes two digits for a byte. `EasyDES::toBin` copies each pair of them into an
array of three bytes and calls `strtol`, but it never writes the third byte. What `strtol` reads
depends on it: at any byte that is no digit the number ends after the pair, and behind a digit
`strtol` goes on outside of the array (`strtolHex_pair`). So the bytes come back exactly if there is
none to read or the third byte is no digit (`toBin_toHex_iff`).
-/

set_option autoImplicit false
set_option relaxedAutoImplicit false

namespace Exc.Des.EasyDES

open Lib

/-- What `%02X` writes for a byte. -/
def hexPair (byte : UInt8) : List UInt8 := [hexDigit (byte.toNat / 16), hexDigit (byte.toNat % 16)]

theorem toHex_nil (bin : List UInt8) : toHex bin [] = bin.flatMap hexPair := rfl

/-! ### The digits -/

theorem digitValue_hexDigit {value : ℕ} (hvalue : value < 16) :
    digitValue (hexDigit value) = some value := by
  revert value
  decide

/-- A digit is none of the characters that `strtol` skips, and it ends no string. -/
theorem hexDigit_plain {value : ℕ} (hvalue : value < 16) :
    hexDigit value ≠ 0 ∧ isSpace (hexDigit value) = false ∧ hexDigit value ≠ '-'.toUInt8 ∧
      hexDigit value ≠ '+'.toUInt8 ∧ hexDigit value ≠ 'x'.toUInt8 ∧
      hexDigit value ≠ 'X'.toUInt8 := by
  revert value
  decide

section Pair

variable {high low : ℕ} (hhigh : high < 16) (hlow : low < 16) (third : UInt8)

include hhigh hlow

/-- The number of a pair, unless the third byte is a digit, too. -/
theorem strtolHex_pair :
    strtolHex [hexDigit high, hexDigit low, third] =
      if (digitValue third).isSome then none else some ((16 * high + low : ℕ) : ℤ) := by
  obtain ⟨-, hspace, hminus, hplus, -, -⟩ := hexDigit_plain hhigh
  obtain ⟨-, -, -, -, hx, hX⟩ := hexDigit_plain hlow
  have hdigits : readDigits 16 0 [hexDigit high, hexDigit low, third] =
      readDigits 16 (16 * high + low) [third] := by
    simp only [readDigits, digitValue_hexDigit hhigh, digitValue_hexDigit hlow, if_pos hhigh,
      if_pos hlow, Nat.mul_zero, Nat.zero_add]
  simp only [strtolHex, List.dropWhile_cons, hspace, Bool.false_eq_true, if_false, readSign,
    if_neg hminus, if_neg hplus, skipHexMark, hx, hX, or_self, and_false, List.all_cons,
    List.all_nil, digitValue_hexDigit hhigh, digitValue_hexDigit hlow, Option.isSome_some,
    Bool.true_and, Bool.and_true, hdigits]
  split_ifs with hthird
  · rfl
  · rw [Option.not_isSome_iff_eq_none] at hthird
    simp only [readDigits, hthird]

theorem strncpy_pair (hex : List UInt8) :
    strncpy [0, 0, third] 0 (hexDigit high :: hexDigit low :: hex) 0 2 =
      some [hexDigit high, hexDigit low, third] := by
  have hclean : 0 ∉ [hexDigit high, hexDigit low] := by
    simp [(hexDigit_plain hhigh).1.symm, (hexDigit_plain hlow).1.symm]
  rw [strncpy_eq (by simp) (by simp)]
  simp [padded_eq_self hclean]

end Pair

/-! ### One pair after the other -/

/-- A round of the loop of `toBin`. -/
def readPair (third : UInt8) (hex : List UInt8) (i : ℕ) : Option UInt8 := do
  let tmp ← strncpy [0, 0, third] 0 hex (2 * i) 2
  let value ← strtolHex tmp
  pure (UInt8.ofNat (value % 256).toNat)

theorem readPair_zero (third byte : UInt8) (hex : List UInt8) :
    readPair third (hexPair byte ++ hex) 0 =
      if (digitValue third).isSome then none else some byte := by
  have hlt := byte.toNat_lt
  have hhigh : byte.toNat / 16 < 16 := by omega
  have hlow : byte.toNat % 16 < 16 := Nat.mod_lt _ (by decide)
  have hmod : ((byte.toNat : ℤ) % 256).toNat = byte.toNat := by omega
  simp only [readPair, hexPair, List.cons_append, List.nil_append, Nat.mul_zero,
    strncpy_pair hhigh hlow, Option.bind_eq_bind, Option.bind_some, strtolHex_pair hhigh hlow,
    Nat.div_add_mod]
  split_ifs with hthird
  · rfl
  · rw [Option.bind_some, hmod, UInt8.ofNat_toNat]
    rfl

theorem readPair_succ (third byte : UInt8) (hex : List UInt8) (i : ℕ) :
    readPair third (hexPair byte ++ hex) (i + 1) = readPair third hex i := by
  have hlength : 2 * i + 2 ≤ hex.length + 1 + 1 ↔ 2 * i ≤ hex.length := by omega
  simp only [readPair, strncpy, hexPair, List.cons_append, List.nil_append, List.length_cons,
    Nat.mul_add, Nat.mul_one, hlength, List.drop_succ_cons]

/-- The first byte comes from the first pair, the rest from the rest of the text. -/
theorem toBin_pair (third byte : UInt8) (hex : List UInt8) (len : ℕ) :
    toBin third (hexPair byte ++ hex) (2 * (len + 1)) =
      if (digitValue third).isSome then none
      else (toBin third hex (2 * len)).map fun bin ↦ byte :: bin := by
  have hrounds (count : ℕ) : (2 * count + 1) / 2 = count := by omega
  have hbin (text : List UInt8) (count : ℕ) :
      toBin third text (2 * count) = (List.range count).mapM (readPair third text) := by
    rw [toBin, hrounds]
    rfl
  rw [hbin, hbin, List.range_succ_eq_map, List.mapM_cons, List.mapM_map, readPair_zero]
  have hrest : readPair third (hexPair byte ++ hex) ∘ Nat.succ = readPair third hex :=
    funext (readPair_succ third byte hex)
  rw [hrest]
  split_ifs with hthird
  · rfl
  · cases (List.range len).mapM (readPair third hex) <;> rfl

theorem toBin_flatMap {third : UInt8} (hthird : digitValue third = none) (bin : List UInt8) :
    toBin third (bin.flatMap hexPair) (2 * bin.length) = some bin := by
  induction bin with
  | nil => rfl
  | cons byte rest ih =>
    rw [List.flatMap_cons, List.length_cons, toBin_pair, hthird, ih]
    rfl

theorem length_flatMap_hexPair (bin : List UInt8) :
    (bin.flatMap hexPair).length = 2 * bin.length := by
  induction bin with
  | nil => rfl
  | cons byte rest ih =>
    rw [List.flatMap_cons, List.length_append, ih, List.length_cons, hexPair, List.length_cons,
      List.length_singleton]
    ring

/-- The bytes come back if and only if there are none or the third byte of `tmp` is no digit. -/
theorem toBin_toHex_iff (third : UInt8) (bin : List UInt8) :
    toBin third (toHex bin []) (toHex bin []).length = some bin ↔
      bin = [] ∨ digitValue third = none := by
  rw [toHex_nil, length_flatMap_hexPair]
  constructor
  · intro hbin
    cases bin with
    | nil => exact .inl rfl
    | cons byte rest =>
      refine .inr (Option.not_isSome_iff_eq_none.mp fun hthird ↦ ?_)
      rw [List.flatMap_cons, List.length_cons, toBin_pair, if_pos hthird] at hbin
      cases hbin
  · rintro (rfl | hthird)
    · rfl
    · exact toBin_flatMap hthird bin

/-- With a zero as the third byte, `strtol` reads on behind the array. -/
theorem not_toBin_toHex_zero :
    toBin '0'.toUInt8 (toHex [65] []) (toHex [65] []).length = none ∧
      ¬∀ (third : UInt8) (bin : List UInt8),
        toBin third (toHex bin []) (toHex bin []).length = some bin := by
  have hread : toBin '0'.toUInt8 (toHex [65] []) (toHex [65] []).length = none := by decide
  refine ⟨hread, fun hall ↦ ?_⟩
  have hbin := hall '0'.toUInt8 [65]
  rw [hread] at hbin
  cases hbin

end Exc.Des.EasyDES
