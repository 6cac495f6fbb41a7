import Mathlib.Algebra.Order.Group.Nat
import Mathlib.Data.UInt
import Mathlib.Tactic.Ring

/-!
# The base 64 encoding of RFC 4648

The bits of the bytes, the most significant one of a byte first, are cut into groups of six, and
zeros are added on the right when the last group is not full. Each group is a character of the
alphabet, and padding makes the number of characters a multiple of four (`standard`).

`standard_triple` is the step of three bytes, `standard_one` and `standard_two` are what a rest of
one or two bytes gives. They say the characters by arithmetic, so that an encoder that shifts and
masks can be compared with them. The bits of a byte are split where the groups end, and each part
stands for a quotient and a remainder (`ofBits_window`).
-/

set_option autoImplicit false
set_option relaxedAutoImplicit false

namespace Exc.Lib.Rfc4648

/-- Some bits of a number, from `low` on, the most significant one first. -/
def window (number low count : ℕ) : List Bool :=
  (List.range count).reverse.map fun i ↦ number.testBit (low + i)

/-- The bits of a byte, the most significant one first. -/
def bitsOf (byte : UInt8) : List Bool := window byte.toNat 0 8

/-- The number that bits stand for, the most significant one first. -/
def ofBits (bits : List Bool) : ℕ := bits.foldl (fun front bit ↦ 2 * front + bit.toNat) 0

/-- The groups of six bits; zeros are added to the last one. -/
def sextets : List Bool → List ℕ
  | first :: second :: third :: fourth :: fifth :: sixth :: bits =>
    ofBits [first, second, third, fourth, fifth, sixth] :: sextets bits
  | [] => []
  | bits => [ofBits (bits ++ List.replicate (6 - bits.length) false)]

/-- The alphabet: upper and lower case letters, digits, `+` and `/`. -/
def alphabet (index : ℕ) : UInt8 :=
  if index < 26 then 65 + UInt8.ofNat index
  else if index < 52 then 97 + UInt8.ofNat (index - 26)
  else if index < 62 then 48 + UInt8.ofNat (index - 52)
  else if index = 62 then 43
  else 47

/-- The padding character, `=`. -/
def padding : UInt8 := 61

/-- The encoding before it is padded. -/
def digits (data : List UInt8) : List UInt8 := (sextets (data.flatMap bitsOf)).map alphabet

/-- The encoding. -/
def standard (data : List UInt8) : List UInt8 :=
  digits data ++ List.replicate ((4 - (digits data).length % 4) % 4) padding

/-! ### Characters -/

theorem alphabet_toNat {index : ℕ} (hindex : index < 64) :
    (alphabet index).toNat =
      if index < 26 then 65 + index
      else if index < 52 then 97 + (index - 26)
      else if index < 62 then 48 + (index - 52)
      else if index = 62 then 43
      else 47 := by
  revert index
  decide +kernel

/-- The characters of the alphabet are different. -/
theorem alphabet_inj {first second : ℕ} (hfirst : first < 64) (hsecond : second < 64)
    (heq : alphabet first = alphabet second) : first = second := by
  have hvalue := congrArg UInt8.toNat heq
  rw [alphabet_toNat hfirst, alphabet_toNat hsecond] at hvalue
  split_ifs at hvalue <;> omega

/-! ### Bits -/

theorem ofBits_snoc (bits : List Bool) (bit : Bool) :
    ofBits (bits ++ [bit]) = 2 * ofBits bits + bit.toNat := by
  rw [ofBits, List.foldl_append, ← ofBits]
  rfl

theorem ofBits_append (front rest : List Bool) :
    ofBits (front ++ rest) = ofBits front * 2 ^ rest.length + ofBits rest := by
  induction rest using List.reverseRecOn with
  | nil => simp [ofBits]
  | append_singleton rest bit ih =>
    rw [← List.append_assoc, ofBits_snoc, ofBits_snoc, ih, List.length_append,
      List.length_singleton, pow_succ]
    ring

/-- A window of bits stands for a remainder of a quotient. -/
theorem ofBits_window (number low count : ℕ) :
    ofBits (window number low count) = number / 2 ^ low % 2 ^ count := by
  induction count with
  | zero => simp [window, ofBits, Nat.mod_one]
  | succ count ih =>
    have hsplit : window number low (count + 1) =
        [number.testBit (low + count)] ++ window number low count := by
      rw [window, List.range_succ, List.reverse_append, List.map_append]
      rfl
    rw [hsplit, ofBits_append, ih, Nat.mod_pow_succ, Nat.div_div_eq_div_mul, ← pow_add]
    simp only [window, List.length_map, List.length_reverse, List.length_range, ofBits,
      List.foldl_cons, List.foldl_nil, Nat.toNat_testBit]
    ring

@[simp] theorem length_window (number low count : ℕ) :
    (window number low count).length = count := by
  rw [window, List.length_map, List.length_reverse, List.length_range]

theorem sextets_group {group : List Bool} (hgroup : group.length = 6) (bits : List Bool) :
    sextets (group ++ bits) = ofBits group :: sextets bits := by
  match group, hgroup with
  | [_, _, _, _, _, _], _ => rfl

/-- Where the groups end inside of the three bytes. -/
theorem bitsOf_split (byte : UInt8) :
    bitsOf byte = window byte.toNat 2 6 ++ window byte.toNat 0 2 ∧
      bitsOf byte = window byte.toNat 4 4 ++ window byte.toNat 0 4 ∧
      bitsOf byte = window byte.toNat 6 2 ++ window byte.toNat 0 6 := ⟨rfl, rfl, rfl⟩

/-! ### Groups -/

theorem sextets_triple (first second third : UInt8) (bits : List Bool) :
    sextets (bitsOf first ++ (bitsOf second ++ (bitsOf third ++ bits))) =
      first.toNat / 4 :: (first.toNat % 4 * 16 + second.toNat / 16) ::
        (second.toNat % 16 * 4 + third.toNat / 64) :: third.toNat % 64 :: sextets bits := by
  have hfirst := first.toNat_lt
  have hsecond := second.toNat_lt
  have hthird := third.toNat_lt
  have hbits : bitsOf first ++ (bitsOf second ++ (bitsOf third ++ bits)) =
      window first.toNat 2 6 ++ ((window first.toNat 0 2 ++ window second.toNat 4 4) ++
        ((window second.toNat 0 4 ++ window third.toNat 6 2) ++
          (window third.toNat 0 6 ++ bits))) := by
    rw [(bitsOf_split first).1, (bitsOf_split second).2.1, (bitsOf_split third).2.2]
    simp only [List.append_assoc]
  rw [hbits, sextets_group (by simp), sextets_group (by simp), sextets_group (by simp),
    sextets_group (by simp), ofBits_append, ofBits_append]
  simp only [ofBits_window, length_window, List.cons.injEq, and_true]
  refine ⟨?_, ?_, ?_, ?_⟩ <;> omega

theorem sextets_one (first : UInt8) :
    sextets (bitsOf first) = [first.toNat / 4, first.toNat % 4 * 16] := by
  have hfirst := first.toNat_lt
  have hrest : sextets (window first.toNat 0 2) =
      [ofBits (window first.toNat 0 2 ++ window 0 0 4)] := rfl
  rw [(bitsOf_split first).1, sextets_group (by simp), hrest, ofBits_append]
  simp only [ofBits_window, length_window, List.cons.injEq, and_true]
  omega

theorem sextets_two (first second : UInt8) :
    sextets (bitsOf first ++ bitsOf second) =
      [first.toNat / 4, first.toNat % 4 * 16 + second.toNat / 16, second.toNat % 16 * 4] := by
  have hfirst := first.toNat_lt
  have hsecond := second.toNat_lt
  have hbits : bitsOf first ++ bitsOf second =
      window first.toNat 2 6 ++ ((window first.toNat 0 2 ++ window second.toNat 4 4) ++
        window second.toNat 0 4) := by
    rw [(bitsOf_split first).1, (bitsOf_split second).2.1]
    simp only [List.append_assoc]
  have hrest : sextets (window second.toNat 0 4) =
      [ofBits (window second.toNat 0 4 ++ window 0 0 2)] := rfl
  rw [hbits, sextets_group (by simp), sextets_group (by simp), hrest, ofBits_append, ofBits_append]
  simp only [ofBits_window, length_window, List.cons.injEq, and_true]
  refine ⟨?_, ?_, ?_⟩ <;> omega

/-! ### The encoding -/

/-- Three bytes give four characters, and the encoding goes on behind them. -/
theorem standard_triple (first second third : UInt8) (data : List UInt8) :
    standard (first :: second :: third :: data) =
      [alphabet (first.toNat / 4), alphabet (first.toNat % 4 * 16 + second.toNat / 16),
        alphabet (second.toNat % 16 * 4 + third.toNat / 64), alphabet (third.toNat % 64)] ++
      standard data := by
  have hdigits : digits (first :: second :: third :: data) =
      [alphabet (first.toNat / 4), alphabet (first.toNat % 4 * 16 + second.toNat / 16),
        alphabet (second.toNat % 16 * 4 + third.toNat / 64), alphabet (third.toNat % 64)] ++
      digits data := by
    rw [digits, List.flatMap_cons, List.flatMap_cons, List.flatMap_cons, sextets_triple]
    rfl
  have hlength : (digits (first :: second :: third :: data)).length % 4 =
      (digits data).length % 4 := by
    rw [hdigits, List.length_append]
    simp only [List.length_cons, List.length_nil]
    omega
  rw [standard, hlength, hdigits, List.append_assoc, ← standard]

theorem standard_one (first : UInt8) :
    standard [first] =
      [alphabet (first.toNat / 4), alphabet (first.toNat % 4 * 16), padding, padding] := by
  have hdigits : digits [first] =
      [alphabet (first.toNat / 4), alphabet (first.toNat % 4 * 16)] := by
    rw [digits, List.flatMap_cons, List.flatMap_nil, List.append_nil, sextets_one]
    rfl
  rw [standard, hdigits]
  rfl

theorem standard_two (first second : UInt8) :
    standard [first, second] =
      [alphabet (first.toNat / 4), alphabet (first.toNat % 4 * 16 + second.toNat / 16),
        alphabet (second.toNat % 16 * 4), padding] := by
  have hdigits : digits [first, second] =
      [alphabet (first.toNat / 4), alphabet (first.toNat % 4 * 16 + second.toNat / 16),
        alphabet (second.toNat % 16 * 4)] := by
    rw [digits, List.flatMap_cons, List.flatMap_cons, List.flatMap_nil, List.append_nil,
      sextets_two]
    rfl
  rw [standard, hdigits]
  rfl

end Exc.Lib.Rfc4648
