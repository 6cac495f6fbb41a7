import Exc.Base64.Base64
import Exc.Lib.Rfc4648

/-!
# What the encoder writes

`ZBase64::Encode` writes the encoding of RFC 4648, with a carriage return and a line feed behind
every 76th character of those that full groups of three bytes give (`encode_eq`).

`standard_cons` and `encodeTail_eq` compare the shifts and masks with the groups of the standard.
`encodeLoop_eq` is the loop: its counter `LineLength` is the position in the text modulo 76.
-/

set_option autoImplicit false
set_option relaxedAutoImplicit false

namespace Exc.Base64

open Lib

/-- A text with a line break behind every 76th character, when so many characters are in front of
it. -/
def breakLines (start : ℕ) (text : List UInt8) : List UInt8 :=
  (text.zipIdx start).flatMap fun entry ↦
    if (entry.2 + 1) % 76 = 0 then [entry.1, carriageReturn, lineFeed] else [entry.1]

/-- A text without its line breaks. -/
def removeBreaks (text : List UInt8) : List UInt8 :=
  text.filter fun char ↦ char ≠ carriageReturn ∧ char ≠ lineFeed

/-! ### Characters -/

theorem encodeChar_eq {index : ℕ} (hindex : index < 64) :
    encodeChar index = Rfc4648.alphabet index := by
  have hall : ∀ index < 64, encodeChar index = Rfc4648.alphabet index := by
    decide +kernel
  exact hall index hindex

theorem encodeChar_inj {first second : ℕ} (hfirst : first < 64) (hsecond : second < 64)
    (heq : encodeChar first = encodeChar second) : first = second := by
  rw [encodeChar_eq hfirst, encodeChar_eq hsecond] at heq
  exact Rfc4648.alphabet_inj hfirst hsecond heq

theorem and_three (number : ℕ) : number &&& 0x03 = number % 4 :=
  Nat.and_two_pow_sub_one_eq_mod number 2

theorem and_fifteen (number : ℕ) : number &&& 0x0F = number % 16 :=
  Nat.and_two_pow_sub_one_eq_mod number 4

theorem and_sixtyThree (number : ℕ) : number &&& 0x3F = number % 64 :=
  Nat.and_two_pow_sub_one_eq_mod number 6

/-- The bits of two parts that do not overlap. -/
theorem shiftLeft_or {low shift : ℕ} (high : ℕ) (hlow : low < 2 ^ shift) :
    high <<< shift ||| low = high * 2 ^ shift + low := by
  rw [← Nat.shiftLeft_add_eq_or_of_lt hlow, Nat.shiftLeft_eq]

/-- Two shifted bytes under the mask, as quotients and remainders. -/
theorem encodeGroup_eq (tmp1 tmp2 tmp3 : UInt8) :
    encodeGroup tmp1 tmp2 tmp3 =
      [encodeChar (tmp1.toNat / 4), encodeChar (tmp1.toNat % 4 * 16 + tmp2.toNat / 16),
        encodeChar (tmp2.toNat % 16 * 4 + tmp3.toNat / 64), encodeChar (tmp3.toNat % 64)] := by
  have hsecond := tmp2.toNat_lt
  have hthird := tmp3.toNat_lt
  have hupper : (tmp1.toNat * 2 ^ 4 + tmp2.toNat / 2 ^ 4) % 64 =
      tmp1.toNat % 4 * 16 + tmp2.toNat / 16 := by omega
  have hlower : (tmp2.toNat * 2 ^ 2 + tmp3.toNat / 2 ^ 6) % 64 =
      tmp2.toNat % 16 * 4 + tmp3.toNat / 64 := by omega
  rw [encodeGroup, Nat.shiftRight_eq_div_pow, Nat.shiftRight_eq_div_pow, Nat.shiftRight_eq_div_pow,
    shiftLeft_or tmp1.toNat (by omega), shiftLeft_or tmp2.toNat (by omega), and_sixtyThree,
    and_sixtyThree, and_sixtyThree, hupper, hlower]

theorem and_shiftRight_two (byte : UInt8) : (byte.toNat &&& 0xFC) >>> 2 = byte.toNat / 4 := by
  have hbyte := byte.toNat_lt
  rw [Nat.shiftRight_and_distrib, Nat.shiftRight_eq_div_pow, show 0xFC >>> 2 = 0x3F from rfl,
    and_sixtyThree]
  omega

theorem and_shiftRight_four (byte : UInt8) : (byte.toNat &&& 0xF0) >>> 4 = byte.toNat / 16 := by
  have hbyte := byte.toNat_lt
  rw [Nat.shiftRight_and_distrib, Nat.shiftRight_eq_div_pow, show 0xF0 >>> 4 = 0x0F from rfl,
    and_fifteen]
  omega

theorem encodeTail_one (tmp1 : UInt8) :
    encodeTail [tmp1] =
      [encodeChar (tmp1.toNat / 4), encodeChar (tmp1.toNat % 4 * 16), padding, padding] := by
  rw [encodeTail, and_shiftRight_two, and_three, Nat.shiftLeft_eq]

theorem encodeTail_two (tmp1 tmp2 : UInt8) :
    encodeTail [tmp1, tmp2] =
      [encodeChar (tmp1.toNat / 4), encodeChar (tmp1.toNat % 4 * 16 + tmp2.toNat / 16),
        encodeChar (tmp2.toNat % 16 * 4), padding] := by
  have hsecond := tmp2.toNat_lt
  rw [encodeTail, and_shiftRight_two, and_shiftRight_four, and_three, and_fifteen,
    shiftLeft_or _ (by omega), Nat.shiftLeft_eq]
  rfl

/-! ### Groups of the standard -/

theorem standard_cons (tmp1 tmp2 tmp3 : UInt8) (data : List UInt8) :
    Rfc4648.standard (tmp1 :: tmp2 :: tmp3 :: data) =
      encodeGroup tmp1 tmp2 tmp3 ++ Rfc4648.standard data := by
  have hfirst := tmp1.toNat_lt
  have hsecond := tmp2.toNat_lt
  have hthird := tmp3.toNat_lt
  rw [Rfc4648.standard_triple, encodeGroup_eq, encodeChar_eq (by omega), encodeChar_eq (by omega),
    encodeChar_eq (by omega), encodeChar_eq (by omega)]

/-- What is left behind the full groups is encoded with padding. -/
theorem encodeTail_eq {data : List UInt8} (hshort : data.length < 3) :
    encodeTail data = Rfc4648.standard data := by
  match data, hshort with
  | [], _ => rfl
  | [tmp1], _ =>
    have hfirst := tmp1.toNat_lt
    rw [encodeTail_one, Rfc4648.standard_one, encodeChar_eq (by omega), encodeChar_eq (by omega)]
    rfl
  | [tmp1, tmp2], _ =>
    have hfirst := tmp1.toNat_lt
    have hsecond := tmp2.toNat_lt
    rw [encodeTail_two, Rfc4648.standard_two, encodeChar_eq (by omega), encodeChar_eq (by omega),
      encodeChar_eq (by omega)]
    rfl

/-! ### Lines -/

/-- A group of four characters: the line can end behind the last of them only. -/
theorem breakLines_group {start : ℕ} (hstart : start % 4 = 0) (first second third fourth : UInt8)
    (text : List UInt8) :
    breakLines start ([first, second, third, fourth] ++ text) =
      [first, second, third, fourth] ++
        if start % 76 + 4 = 76 then carriageReturn :: lineFeed :: breakLines (start + 4) text
        else breakLines (start + 4) text := by
  have hfirst : ¬(start + 1) % 76 = 0 := by omega
  have hsecond : ¬(start + 1 + 1) % 76 = 0 := by omega
  have hthird : ¬(start + 1 + 1 + 1) % 76 = 0 := by omega
  have hfourth : (start + 1 + 1 + 1 + 1) % 76 = 0 ↔ start % 76 + 4 = 76 := by omega
  simp only [breakLines, List.cons_append, List.nil_append, List.zipIdx_cons, List.flatMap_cons,
    hfirst, hsecond, hthird, hfourth, if_false]
  split_ifs <;> rfl

/-- The encoding in full groups, and the rest of it. -/
def brokenStandard (start : ℕ) (data : List UInt8) : List UInt8 :=
  breakLines start ((Rfc4648.standard data).take (4 * (data.length / 3))) ++
    (Rfc4648.standard data).drop (4 * (data.length / 3))

theorem brokenStandard_triple {start : ℕ} (hstart : start % 4 = 0) (tmp1 tmp2 tmp3 : UInt8)
    (data : List UInt8) :
    brokenStandard start (tmp1 :: tmp2 :: tmp3 :: data) =
      encodeGroup tmp1 tmp2 tmp3 ++
        if start % 76 + 4 = 76 then carriageReturn :: lineFeed :: brokenStandard (start + 4) data
        else brokenStandard (start + 4) data := by
  have hcount : 4 * ((tmp1 :: tmp2 :: tmp3 :: data).length / 3) = 4 + 4 * (data.length / 3) := by
    simp only [List.length_cons]
    omega
  have hlength : (encodeGroup tmp1 tmp2 tmp3).length = 4 := rfl
  rw [brokenStandard, hcount, standard_cons,
    List.take_append, List.drop_append, hlength, List.take_of_length_le (by rw [hlength]; omega),
    List.drop_of_length_le (by rw [hlength]; omega), Nat.add_sub_cancel_left, List.nil_append,
    encodeGroup, breakLines_group hstart]
  split_ifs <;> rfl

theorem brokenStandard_short (start : ℕ) {data : List UInt8} (hshort : data.length < 3) :
    brokenStandard start data = Rfc4648.standard data := by
  rw [brokenStandard, Nat.div_eq_of_lt hshort]
  rfl

theorem encodeLoop_short {data : List UInt8} (hshort : data.length < 3) (lineLength : ℕ) :
    encodeLoop data lineLength = encodeTail data := by
  match data, hshort with
  | [], _ => rfl
  | [_], _ => rfl
  | [_, _], _ => rfl

/-- The loop: its counter is the position in the text modulo 76. -/
theorem encodeLoop_eq (data : List UInt8) (start : ℕ) (hstart : start % 4 = 0) :
    encodeLoop data (start % 76) = brokenStandard start data := by
  match data with
  | tmp1 :: tmp2 :: tmp3 :: data =>
    have hnext := encodeLoop_eq data (start + 4) (by omega)
    rw [brokenStandard_triple hstart, encodeLoop, ← hnext]
    split_ifs with hfull
    · rw [show (start + 4) % 76 = 0 by omega]
    · rw [show (start + 4) % 76 = start % 76 + 4 by omega]
  | [] => rfl
  | [_] =>
    rw [encodeLoop_short (by simp), encodeTail_eq (by simp), brokenStandard_short _ (by simp)]
  | [_, _] =>
    rw [encodeLoop_short (by simp), encodeTail_eq (by simp), brokenStandard_short _ (by simp)]

/-! ### Without line breaks -/

theorem removeBreaks_append (front rest : List UInt8) :
    removeBreaks (front ++ rest) = removeBreaks front ++ removeBreaks rest :=
  List.filter_append ..

theorem removeBreaks_breakLines (start : ℕ) (text : List UInt8) :
    removeBreaks (breakLines start text) = removeBreaks text := by
  induction text generalizing start with
  | nil => rfl
  | cons char text ih =>
    have hline : removeBreaks (if (start + 1) % 76 = 0 then [char, carriageReturn, lineFeed]
        else [char]) = removeBreaks [char] := by
      split_ifs
      · exact removeBreaks_append [char] [carriageReturn, lineFeed] |>.trans (List.append_nil _)
      · rfl
    rw [breakLines, List.zipIdx_cons, List.flatMap_cons, ← breakLines, removeBreaks_append, hline,
      ih, ← removeBreaks_append, List.singleton_append]

/-- No character of the alphabet is a line break. -/
theorem alphabet_ne_break (index : ℕ) :
    Rfc4648.alphabet index ≠ carriageReturn ∧ Rfc4648.alphabet index ≠ lineFeed := by
  have hall : ∀ index < 63, Rfc4648.alphabet index ≠ carriageReturn ∧
      Rfc4648.alphabet index ≠ lineFeed := by decide +kernel
  by_cases hindex : index < 63
  · exact hall index hindex
  · rw [Rfc4648.alphabet, if_neg (by omega), if_neg (by omega), if_neg (by omega),
      if_neg (by omega)]
    decide

theorem removeBreaks_standard (data : List UInt8) :
    removeBreaks (Rfc4648.standard data) = Rfc4648.standard data := by
  refine List.filter_eq_self.mpr fun char hchar ↦ ?_
  rw [decide_eq_true_eq]
  obtain hdigit | hpadding := List.mem_append.mp hchar
  · obtain ⟨index, -, rfl⟩ := List.mem_map.mp hdigit
    exact alphabet_ne_break index
  · rw [List.eq_of_mem_replicate hpadding]
    decide

/-- `ZBase64::Encode` without its line breaks is the encoding of RFC 4648, and the line breaks stand
behind every 76th character of those that the full groups of three bytes give. -/
theorem encode_eq (data : List UInt8) :
    removeBreaks (encode data) = Rfc4648.standard data ∧
      encode data =
        breakLines 0 ((Rfc4648.standard data).take (4 * (data.length / 3))) ++
          (Rfc4648.standard data).drop (4 * (data.length / 3)) := by
  have hencode : encode data = brokenStandard 0 data := encodeLoop_eq data 0 rfl
  refine ⟨?_, hencode⟩
  rw [hencode, brokenStandard, removeBreaks_append, removeBreaks_breakLines, ← removeBreaks_append,
    List.take_append_drop, removeBreaks_standard]

end Exc.Base64
