import Mathlib.Data.BitVec
import Mathlib.Data.Nat.Bitwise

/-!
# Words of bits: masked swaps and truncation

Two words exchange those of their bits that a mask selects, the bits of the first one shifted
(`maskedSwap`). That done twice is nothing (`maskedSwap_maskedSwap`), if no bit of the mask is
shifted out.

A program may keep short words in longer ones. `BitVec.setWidth` then takes out the part that
counts: a masked swap of that part is the part of the masked swap (`setWidth_maskedSwap`), whatever
is above it, and a word with nothing above that part is determined by it (`IsShort`).

`joinBytes` puts four bytes in a word, the most significant one first, and `byteAt` takes a byte
out.
-/

set_option autoImplicit false
set_option relaxedAutoImplicit false

namespace Exc.Lib

open BitVec

variable {v w : ℕ}

/-- Exchange the bits that the mask selects with those that are `n` higher in the first word. -/
def maskedSwap (n mask : ℕ) (words : BitVec w × BitVec w) : BitVec w × BitVec w :=
  let work := ((words.1 >>> n) ^^^ words.2) &&& BitVec.ofNat w mask
  (words.1 ^^^ (work <<< n), words.2 ^^^ work)

/-- A bit of the mask is not shifted out. -/
theorem add_lt_of_testBit {n mask i : ℕ} (hmask : mask < 2 ^ (w - n))
    (hbit : mask.testBit i = true) : n + i < w := by
  by_contra hge
  have hpow : 2 ^ (w - n) ≤ 2 ^ i := Nat.pow_le_pow_right (by omega) (by omega)
  rw [Nat.testBit_lt_two_pow (hmask.trans_le hpow)] at hbit
  cases hbit

theorem maskedSwap_maskedSwap {n mask : ℕ} (hmask : mask < 2 ^ (w - n))
    (words : BitVec w × BitVec w) :
    maskedSwap n mask (maskedSwap n mask words) = words := by
  obtain ⟨first, second⟩ := words
  have hwork : (((first ^^^ ((((first >>> n) ^^^ second) &&& BitVec.ofNat w mask) <<< n)) >>> n) ^^^
      (second ^^^ (((first >>> n) ^^^ second) &&& BitVec.ofNat w mask))) &&& BitVec.ofNat w mask =
      ((first >>> n) ^^^ second) &&& BitVec.ofNat w mask := by
    refine eq_of_getLsbD_eq fun i hi ↦ ?_
    simp only [getLsbD_and, getLsbD_xor, getLsbD_ushiftRight, getLsbD_shiftLeft, getLsbD_ofNat]
    cases hbit : mask.testBit i with
    | false => simp
    | true =>
      have hlt := add_lt_of_testBit hmask hbit
      simp only [hi, hlt, show ¬n + i < n by omega, hbit, Nat.add_sub_cancel_left, decide_true,
        decide_false, Bool.true_and, Bool.and_true, Bool.not_false]
      cases first.getLsbD (n + i) <;> cases second.getLsbD i <;> rfl
  simp only [maskedSwap, hwork, BitVec.xor_assoc, BitVec.xor_self, BitVec.xor_zero]

/-- The low bits of a masked swap are those of its words. -/
theorem setWidth_maskedSwap (hwidth : v ≤ w) {n mask : ℕ} (hmask : mask < 2 ^ (v - n))
    (words : BitVec w × BitVec w) :
    (maskedSwap n mask words).map (setWidth v) (setWidth v) =
      maskedSwap n mask (words.map (setWidth v) (setWidth v)) := by
  obtain ⟨first, second⟩ := words
  have hwork : setWidth v (((first >>> n) ^^^ second) &&& BitVec.ofNat w mask) =
      ((setWidth v first >>> n) ^^^ setWidth v second) &&& BitVec.ofNat v mask := by
    refine eq_of_getLsbD_eq fun i hi ↦ ?_
    simp only [getLsbD_and, getLsbD_xor, getLsbD_ushiftRight, getLsbD_setWidth, getLsbD_ofNat]
    cases hbit : mask.testBit i with
    | false => simp
    | true =>
      have hlt := add_lt_of_testBit hmask hbit
      simp [hi, hlt, hi.trans_le hwidth]
  simp only [maskedSwap, Prod.map_apply, setWidth_xor, setWidth_shiftLeft_of_le hwidth, hwork]

/-- The word has no bits above the low ones. -/
def IsShort (v : ℕ) (word : BitVec w) : Prop :=
  setWidth w (setWidth v word) = word

theorem isShort_and {mask : ℕ} (hmask : mask < 2 ^ v) (word : BitVec w) :
    IsShort v (word &&& BitVec.ofNat w mask) := by
  refine eq_of_getLsbD_eq fun i hi ↦ ?_
  simp only [getLsbD_setWidth, getLsbD_and, getLsbD_ofNat]
  cases hbit : mask.testBit i with
  | false => simp
  | true =>
    have hlt : 0 + i < v := add_lt_of_testBit hmask hbit
    simp [hi, show i < v by omega]

theorem IsShort.xor {first second : BitVec w} (hfirst : IsShort v first)
    (hsecond : IsShort v second) : IsShort v (first ^^^ second) := by
  rw [IsShort, setWidth_xor, setWidth_xor, hfirst, hsecond]

theorem IsShort.or {first second : BitVec w} (hfirst : IsShort v first)
    (hsecond : IsShort v second) : IsShort v (first ||| second) := by
  rw [IsShort, setWidth_or, setWidth_or, hfirst, hsecond]

/-! ### Bytes of a word -/

/-- The byte that is `n` bits up in a word. -/
def byteAt (n : ℕ) (word : BitVec w) : BitVec 8 :=
  setWidth 8 ((word >>> n) &&& 0xff)

/-- A word of four bytes, the most significant one first. -/
def joinBytes (w : ℕ) (first second third fourth : BitVec 8) : BitVec w :=
  let byte := fun bits : BitVec 8 ↦ setWidth w bits &&& 0xff
  (byte first <<< 24) ||| (byte second <<< 16) ||| (byte third <<< 8) ||| byte fourth

theorem getLsbD_byteMask (i : ℕ) :
    (0xff : BitVec w).getLsbD i = (decide (i < w) && decide (i < 8)) := by
  change (BitVec.ofNat w (2 ^ 8 - 1)).getLsbD i = _
  rw [getLsbD_ofNat, Nat.testBit_two_pow_sub_one]

theorem getLsbD_byteAt (hwidth : 8 ≤ w) (n : ℕ) (word : BitVec w) {i : ℕ} (hi : i < 8) :
    (byteAt n word).getLsbD i = word.getLsbD (n + i) := by
  simp only [byteAt, getLsbD_setWidth, getLsbD_and, getLsbD_ushiftRight, getLsbD_byteMask]
  simp [hi, hi.trans_le hwidth]

theorem byteAt_setWidth (hwidth : 8 ≤ v) (hle : v ≤ w) {n : ℕ} (hn : n + 8 ≤ v) (word : BitVec w) :
    byteAt n (setWidth v word) = byteAt n word := by
  refine eq_of_getLsbD_eq fun i hi ↦ ?_
  rw [getLsbD_byteAt hwidth n _ hi, getLsbD_byteAt (hwidth.trans hle) n _ hi, getLsbD_setWidth]
  simp [show n + i < v by omega]

theorem getLsbD_joinBytes (first second third fourth : BitVec 8) {i : ℕ} (hi : i < 32) :
    (joinBytes 32 first second third fourth).getLsbD i =
      if i < 8 then fourth.getLsbD i
      else if i < 16 then third.getLsbD (i - 8)
      else if i < 24 then second.getLsbD (i - 16)
      else first.getLsbD (i - 24) := by
  have hbyte (bits : BitVec 8) (j : ℕ) :
      (setWidth 32 bits &&& (0xff : BitVec 32)).getLsbD j = bits.getLsbD j := by
    rw [getLsbD_and, getLsbD_setWidth, getLsbD_byteMask]
    by_cases hj : j < 8
    · simp [hj, show j < 32 by omega]
    · simp [getLsbD_of_ge bits j (by omega)]
  have habove (bits : BitVec 8) {j : ℕ} (hj : 8 ≤ j) : bits.getLsbD j = false :=
    getLsbD_of_ge bits j hj
  simp only [joinBytes, getLsbD_or, getLsbD_shiftLeft, hbyte]
  split_ifs with hfourth hthird hsecond
  · simp [show i < 24 by omega, show i < 16 by omega, hfourth]
  · have hlow := habove fourth (show 8 ≤ i by omega)
    simp [hi, show i < 24 by omega, hthird, hfourth, hlow]
  · have hlow := habove fourth (show 8 ≤ i by omega)
    have hmiddle := habove third (show 8 ≤ i - 8 by omega)
    simp [hi, hsecond, hthird, hlow, hmiddle]
  · have hlow := habove fourth (show 8 ≤ i by omega)
    have hmiddle := habove third (show 8 ≤ i - 8 by omega)
    have hhigh := habove second (show 8 ≤ i - 16 by omega)
    simp [hi, hsecond, hlow, hmiddle, hhigh]

/-- The bytes of a word that was joined are the bytes it was joined from. -/
theorem byteAt_joinBytes (first second third fourth : BitVec 8) :
    byteAt 24 (joinBytes 32 first second third fourth) = first ∧
      byteAt 16 (joinBytes 32 first second third fourth) = second ∧
      byteAt 8 (joinBytes 32 first second third fourth) = third ∧
      byteAt 0 (joinBytes 32 first second third fourth) = fourth := by
  refine ⟨?_, ?_, ?_, ?_⟩
  · refine eq_of_getLsbD_eq fun i hi ↦ ?_
    rw [getLsbD_byteAt (by decide) 24 _ hi, getLsbD_joinBytes _ _ _ _ (by omega),
      if_neg (by omega), if_neg (by omega), if_neg (by omega), Nat.add_sub_cancel_left]
  · refine eq_of_getLsbD_eq fun i hi ↦ ?_
    rw [getLsbD_byteAt (by decide) 16 _ hi, getLsbD_joinBytes _ _ _ _ (by omega),
      if_neg (by omega), if_neg (by omega), if_pos (by omega), Nat.add_sub_cancel_left]
  · refine eq_of_getLsbD_eq fun i hi ↦ ?_
    rw [getLsbD_byteAt (by decide) 8 _ hi, getLsbD_joinBytes _ _ _ _ (by omega),
      if_neg (by omega), if_pos (by omega), Nat.add_sub_cancel_left]
  · refine eq_of_getLsbD_eq fun i hi ↦ ?_
    rw [getLsbD_byteAt (by decide) 0 _ hi, getLsbD_joinBytes _ _ _ _ (by omega),
      if_pos (by omega), Nat.zero_add]

/-- A word of 32 bits is joined from its bytes. -/
theorem joinBytes_byteAt (word : BitVec 32) :
    joinBytes 32 (byteAt 24 word) (byteAt 16 word) (byteAt 8 word) (byteAt 0 word) = word := by
  refine eq_of_getLsbD_eq fun i hi ↦ ?_
  rw [getLsbD_joinBytes _ _ _ _ hi]
  split_ifs with hfourth hthird hsecond
  · rw [getLsbD_byteAt (by decide) 0 word hfourth, Nat.zero_add]
  · rw [getLsbD_byteAt (by decide) 8 word (by omega), Nat.add_sub_cancel' (by omega)]
  · rw [getLsbD_byteAt (by decide) 16 word (by omega), Nat.add_sub_cancel' (by omega)]
  · rw [getLsbD_byteAt (by decide) 24 word (by omega), Nat.add_sub_cancel' (by omega)]

/-- The low bits of a word that was joined. -/
theorem setWidth_joinBytes (hwidth : 32 ≤ w) (first second third fourth : BitVec 8) :
    setWidth 32 (joinBytes w first second third fourth) =
      joinBytes 32 first second third fourth := by
  have hmask : setWidth 32 (0xff : BitVec w) = 0xff := setWidth_ofNat_of_le hwidth 0xff
  simp only [joinBytes, setWidth_or, setWidth_shiftLeft_of_le hwidth, setWidth_and, hmask,
    setWidth_setWidth_of_le _ hwidth]

end Exc.Lib
