import Exc.Lib.Checksum
import Exc.Lib.CString
import Mathlib.Algebra.BigOperators.Fin
import Mathlib.Algebra.Field.ZMod
import Mathlib.Data.List.GetD
import Mathlib.Data.List.TakeWhile
import Mathlib.Data.UInt
import Mathlib.Tactic.NormNum.Prime

/-!
# The identity number check of `idcard.cpp`

A number of eighteen characters is accepted when seventeen of them are digits and the last one is
the character that `getmatch` lists for the remainder of the weighted sum by eleven.

Read modulo eleven, the list says that the remainder and the value of the last character add up to
one, where an `x` counts ten. So an accepted number is a word of eighteen values whose checksum is
one, with the weight one at the last place (`checkOut_idCard`). Eleven is prime, no weight is
divisible by it, and neighbouring weights differ, so the checksum moves with every single error
and every transposition (`typing_error_rejected`).
-/

set_option autoImplicit false
set_option relaxedAutoImplicit false

namespace Exc.Idcard

open Lib Lib.Checksum

structure IdCard where
  cardnum : List UInt8
  iscardnum : Bool

/-- A `char` is signed. -/
def charValue (char : UInt8) : ℤ :=
  if char.toNat < 128 then char.toNat else char.toNat - 256

/-- `cardnum[i]` -/
def charAt (cardnum : List UInt8) (i : ℕ) : UInt8 := cardnum.getD i 0

def isRightNum (cardnum : List UInt8) : Bool :=
  if cardnum.length = 18 then
    -- the loop stops at the first character that is not a digit
    let i := ((cardnum.take 17).takeWhile fun char ↦
      ¬(charValue char < '0'.toNat ∨ '9'.toNat < charValue char)).length
    i = 17
  else false

def getmatch (cardnum : List UInt8) (ch : ℤ) : Bool :=
  match ch with
  | 0 => charAt cardnum 17 = '1'.toUInt8
  | 1 => charAt cardnum 17 = '0'.toUInt8
  | 2 => charAt cardnum 17 = 'x'.toUInt8
  | 3 => charAt cardnum 17 = '9'.toUInt8
  | 4 => charAt cardnum 17 = '8'.toUInt8
  | 5 => charAt cardnum 17 = '7'.toUInt8
  | 6 => charAt cardnum 17 = '6'.toUInt8
  | 7 => charAt cardnum 17 = '5'.toUInt8
  | 8 => charAt cardnum 17 = '4'.toUInt8
  | 9 => charAt cardnum 17 = '3'.toUInt8
  | 10 => charAt cardnum 17 = '2'.toUInt8
  | _ => false

def getRemainder (cardnum : List UInt8) : ℤ :=
  let digit (i : ℕ) : ℤ := charValue (charAt cardnum i) - 48
  let sum := digit 0 * 7 + digit 1 * 9 + digit 2 * 10 + digit 3 * 5 + digit 4 * 8 + digit 5 * 4 +
    digit 6 * 2 + digit 7 * 1 + digit 8 * 6 + digit 9 * 3 + digit 10 * 7 + digit 11 * 9 +
    digit 12 * 10 + digit 13 * 5 + digit 14 * 8 + digit 15 * 4 + digit 16 * 2
  sum.tmod 11

/-- The constructor `idCard::idCard`. -/
def idCard (num : List UInt8) : IdCard where
  cardnum := num
  iscardnum := if isRightNum num then getmatch num (getRemainder num) else false

def checkOut (card : IdCard) : Bool := card.iscardnum

/-- One character replaced by a different one, or two different neighbours swapped. -/
inductive TypingError (num : List UInt8) : List UInt8 → Prop
  | replaced (i : ℕ) (hi : i < num.length) (char : UInt8) (hchar : char ≠ num[i]) :
    TypingError num (num.set i char)
  | swapped (i : ℕ) (hi : i + 1 < num.length) (hchar : num[i] ≠ num[i + 1]) :
    TypingError num ((num.set i num[i + 1]).set (i + 1) num[i])

/-! ## The values of the characters -/

def IsDigit (char : UInt8) : Prop := 48 ≤ char.toNat ∧ char.toNat ≤ 57

def IsCardChar (char : UInt8) : Prop := IsDigit char ∨ char = 'x'.toUInt8

/-- An `x` stands behind the nine. -/
def code (char : UInt8) : ℕ := if char = 'x'.toUInt8 then 58 else char.toNat

def value (char : UInt8) : ZMod 11 := (code char : ZMod 11) - 48

theorem IsDigit.code_eq {char : UInt8} (hdigit : IsDigit char) : code char = char.toNat := by
  refine if_neg ?_
  rintro rfl
  exact absurd hdigit.2 (by decide)

theorem IsCardChar.code_mem {char : UInt8} (hchar : IsCardChar char) :
    48 ≤ code char ∧ code char ≤ 58 := by
  rcases hchar with hdigit | rfl
  · rw [hdigit.code_eq]
    exact ⟨hdigit.1, hdigit.2.trans (by decide)⟩
  · decide

theorem IsCardChar.code_inj {first second : UInt8} (hfirst : IsCardChar first)
    (hsecond : IsCardChar second) (hcode : code first = code second) : first = second := by
  rcases hfirst with hfirst | rfl <;> rcases hsecond with hsecond | rfl
  · rw [hfirst.code_eq, hsecond.code_eq] at hcode
    exact UInt8.toNat_inj.mp hcode
  · have hle := hfirst.2
    rw [← hfirst.code_eq, hcode] at hle
    exact absurd hle (by decide)
  · have hle := hsecond.2
    rw [← hsecond.code_eq, ← hcode] at hle
    exact absurd hle (by decide)
  · rfl

theorem IsCardChar.value_inj {first second : UInt8} (hfirst : IsCardChar first)
    (hsecond : IsCardChar second) (hvalue : value first = value second) : first = second := by
  have hmod : code first % 11 = code second % 11 :=
    (ZMod.natCast_eq_natCast_iff' _ _ _).mp (sub_left_inj.mp hvalue)
  have hcodes := And.intro hfirst.code_mem hsecond.code_mem
  exact hfirst.code_inj hsecond (by omega)

theorem IsDigit.charValue_eq {char : UInt8} (hdigit : IsDigit char) :
    charValue char = char.toNat := by
  exact if_pos (hdigit.2.trans_lt (by decide))

theorem isDigit_iff (char : UInt8) :
    IsDigit char ↔ ¬(charValue char < '0'.toNat ∨ '9'.toNat < charValue char) := by
  have hlt := char.toNat_lt
  simp only [IsDigit, charValue, Char.reduceToNat, Nat.cast_ofNat]
  split_ifs <;> omega

/-! ## Accepted numbers -/

theorem isRightNum_spec {num : List UInt8} (hright : isRightNum num = true) :
    num.length = 18 ∧ ∀ i < 17, IsDigit (charAt num i) := by
  unfold isRightNum at hright
  split_ifs at hright with hlength
  refine ⟨hlength, fun i hi ↦ ?_⟩
  have htake := List.takeWhile_prefix (l := num.take 17) fun char ↦
    decide ¬(charValue char < '0'.toNat ∨ '9'.toNat < charValue char)
  have hall := htake.eq_of_length (by simpa [hlength] using hright)
  have hmem : charAt num i ∈ num.take 17 := by
    have hlt : i < (num.take 17).length := by rw [List.length_take]; omega
    rw [charAt, List.getD_eq_getElem _ _ (by omega), ← List.getElem_take]
    exact List.getElem_mem hlt
  rw [← hall] at hmem
  exact (isDigit_iff _).mpr (by simpa using List.mem_takeWhile_imp hmem)

/-- The list of `getmatch`: the remainder and the value of the last character make one. -/
theorem getmatch_spec {num : List UInt8} {ch : ℤ} (hmatch : getmatch num ch = true) :
    IsCardChar (charAt num 17) ∧ (ch : ZMod 11) + value (charAt num 17) = 1 := by
  unfold getmatch at hmatch
  split at hmatch
  all_goals first
    | exact absurd hmatch Bool.false_ne_true
    | rw [of_decide_eq_true hmatch]
      exact ⟨by unfold IsCardChar IsDigit; decide, by decide⟩

instance prime_eleven : Fact (Nat.Prime 11) := ⟨by norm_num⟩

def weight (i : ℕ) : ZMod 11 := [7, 9, 10, 5, 8, 4, 2, 1, 6, 3, 7, 9, 10, 5, 8, 4, 2, 1].getD i 0

def weights (i : Fin 18) : ZMod 11 := weight i

def word (num : List UInt8) (i : Fin 18) : ZMod 11 := value (charAt num i)

theorem weights_ne_zero (i : Fin 18) : weights i ≠ 0 := by
  revert i
  decide

theorem weights_succ_ne (i : Fin 17) : weights i.castSucc ≠ weights i.succ := by
  revert i
  decide

theorem getRemainder_cast {num : List UInt8} (hdigits : ∀ i < 17, IsDigit (charAt num i)) :
    (getRemainder num : ZMod 11) + value (charAt num 17) = checksum weights (word num) := by
  have hvalue : ∀ i < 17, (charValue (charAt num i) : ZMod 11) - 48 = value (charAt num i) := by
    intro i hi
    rw [(hdigits i hi).charValue_eq, value, (hdigits i hi).code_eq, Int.cast_natCast]
  have hmod (sum : ℤ) : ((sum.tmod 11 : ℤ) : ZMod 11) = sum :=
    (ZMod.intCast_eq_intCast_iff' _ _ 11).mpr (by rw [Int.tmod_eq_emod]; split_ifs <;> omega)
  have hsum : checksum weights (word num) =
      ∑ i ∈ Finset.range 18, weight i * value (charAt num i) :=
    Fin.sum_univ_eq_sum_range (fun i ↦ weight i * value (charAt num i)) 18
  rw [hsum]
  simp only [getRemainder, hmod, Finset.sum_range_succ, Finset.sum_range_zero, weight,
    List.getD_cons_zero, List.getD_cons_succ]
  push_cast
  simp (disch := decide) only [hvalue]
  ring

/-- An accepted number is a word of digits, with an `x` allowed at the last place, whose checksum
is one. -/
theorem checkOut_idCard {num : List UInt8} (haccept : checkOut (idCard num) = true) :
    num.length = 18 ∧ (∀ i < 17, IsDigit (charAt num i)) ∧ IsCardChar (charAt num 17) ∧
      checksum weights (word num) = 1 := by
  simp only [checkOut, idCard] at haccept
  split_ifs at haccept with hright
  obtain ⟨hlength, hdigits⟩ := isRightNum_spec hright
  obtain ⟨hlast, hsum⟩ := getmatch_spec haccept
  exact ⟨hlength, hdigits, hlast, (getRemainder_cast hdigits).symm.trans hsum⟩

theorem isCardChar_of_accepted {num : List UInt8} (haccept : checkOut (idCard num) = true)
    {i : ℕ} (hi : i < 18) : IsCardChar (charAt num i) := by
  obtain ⟨-, hdigits, hlast, -⟩ := checkOut_idCard haccept
  rcases Nat.lt_succ_iff_lt_or_eq.mp hi with hlt | rfl
  · exact .inl (hdigits i hlt)
  · exact hlast

theorem charAt_eq {num : List UInt8} {i : ℕ} (hi : i < num.length) : charAt num i = num[i] :=
  List.getD_eq_getElem _ _ hi

theorem word_set {num : List UInt8} {i : Fin 18} (hi : i < num.length) (char : UInt8) :
    word (num.set i char) = Function.update (word num) i (value char) := by
  funext j
  unfold word charAt
  by_cases hj : j = i
  · subst hj
    simp [List.getD_eq_getElem?_getD, hi]
  · rw [Function.update_of_ne hj, List.getD_eq_getElem?_getD, List.getD_eq_getElem?_getD,
      List.getElem?_set_ne fun hji ↦ hj (Fin.ext hji.symm)]

/-- A number with one typing error is not accepted. -/
theorem typing_error_rejected {num typed : List UInt8} (haccept : checkOut (idCard num) = true)
    (herror : TypingError num typed) : checkOut (idCard typed) = false := by
  by_contra hnot
  have htyped : checkOut (idCard typed) = true := by simpa using hnot
  obtain ⟨hlength, -, -, hsum⟩ := checkOut_idCard haccept
  obtain ⟨-, -, -, hsumTyped⟩ := checkOut_idCard htyped
  have hequal := hsumTyped.trans hsum.symm
  cases herror with
  | replaced i hi char hchar =>
    have hlt : i < 18 := hlength ▸ hi
    have hnew := isCardChar_of_accepted htyped hlt
    rw [charAt_eq (by rwa [List.length_set]), List.getElem_set_self] at hnew
    have hold := isCardChar_of_accepted haccept hlt
    rw [word_set (i := ⟨i, hlt⟩) hi] at hequal
    refine checksum_update_ne weights (word num) (weights_ne_zero _) ?_ hequal
    exact fun hvalue ↦ hchar ((hnew.value_inj hold hvalue).trans (charAt_eq hi))
  | swapped i hi hchar =>
    have hlt : i + 1 < 18 := hlength ▸ hi
    have hfirst := isCardChar_of_accepted haccept (Nat.lt_of_succ_lt hlt)
    have hsecond := isCardChar_of_accepted haccept hlt
    rw [charAt_eq (Nat.lt_of_succ_lt hi)] at hfirst
    rw [charAt_eq hi] at hsecond
    rw [word_set (i := ⟨i + 1, hlt⟩) (by rwa [List.length_set]),
      word_set (i := ⟨i, Nat.lt_of_succ_lt hlt⟩) (Nat.lt_of_succ_lt hi)] at hequal
    have hword : word num ⟨i, Nat.lt_of_succ_lt hlt⟩ = value num[i] :=
      congrArg value (charAt_eq _)
    have hnext : word num ⟨i + 1, hlt⟩ = value num[i + 1] := congrArg value (charAt_eq hi)
    rw [← hword, ← hnext] at hequal
    refine checksum_swap_ne weights (word num)
      (weights_succ_ne ⟨i, Nat.lt_of_succ_lt_succ hlt⟩) ?_ hequal
    exact fun hvalue ↦ hchar (hfirst.value_inj hsecond (hword.symm.trans (hvalue.trans hnext)))

/-- The number `11010519491231002x` is accepted, and not with its third and fourth digits
swapped. -/
theorem typing_error_rejected_sample :
    checkOut (idCard (chars "11010519491231002x")) = true ∧
      checkOut (idCard (chars "11100519491231002x")) = false := by
  have haccept : checkOut (idCard (chars "11010519491231002x")) = true := by decide
  have herror : TypingError (chars "11010519491231002x") (chars "11100519491231002x") :=
    .swapped 2 (by decide) (by decide)
  exact ⟨haccept, typing_error_rejected haccept herror⟩

end Exc.Idcard
