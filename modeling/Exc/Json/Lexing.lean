import Exc.Json.UniValue

/-!
# The tokens of a text

`getJsonToken` against the lexical grammar: what it finds is a lexeme of the token that it reports
(`getJsonToken_spec`), and in front of what follows a token it finds that token
(`getJsonToken_lexeme`). There are two differences from the grammar. A byte of 0x80 and above is not
admitted in a string, and a string that is not closed is taken for one at the end of the text.
-/

set_option autoImplicit false
set_option relaxedAutoImplicit false

namespace Exc.Json

open Lib JsonText

/-- All bytes are below 0x80. -/
def IsAscii (text : List UInt8) : Prop := ∀ char ∈ text, char < 0x80

/-! ### Strings -/

theorem hexDigit_eq (ch : UInt8) : hexDigit ch = hexValue ch := rfl

theorem hexValue_lt {char : UInt8} {digit : ℕ} (hdigit : hexValue char = some digit) :
    digit < 16 := by
  rw [hexValue] at hdigit
  split_ifs at hdigit with hdec hlower hupper
  · obtain rfl := Option.some.inj hdigit
    simp only [isDigit, Bool.and_eq_true, decide_eq_true_eq, UInt8.le_iff_toNat_le] at hdec
    have hle : char.toNat ≤ 57 := hdec.2
    change char.toNat - 48 < 16
    omega
  · obtain rfl := Option.some.inj hdigit
    have hle : char.toNat ≤ 102 := UInt8.le_iff_toNat_le.mp hlower.2
    change char.toNat - 97 + 10 < 16
    omega
  · obtain rfl := Option.some.inj hdigit
    have hle : char.toNat ≤ 70 := UInt8.le_iff_toNat_le.mp hupper.2
    change char.toNat - 65 + 10 < 16
    omega

theorem hatoui_eq_some_iff {a b c d : UInt8} {codepoint : ℕ} :
    hatoui [a, b, c, d] = some codepoint ↔
      ∃ first second third fourth, hexValue a = some first ∧ hexValue b = some second ∧
        hexValue c = some third ∧ hexValue d = some fourth ∧
        codepoint = 16 * (16 * (16 * first + second) + third) + fourth := by
  simp only [hatoui, hexDigit_eq, List.foldlM_cons, List.foldlM_nil, Option.bind_eq_bind,
    Option.bind_eq_some_iff, Option.map_eq_some_iff, Option.pure_def]
  constructor
  · rintro ⟨_, ⟨first, ha, rfl⟩, _, ⟨second, hb, rfl⟩, _, ⟨third, hc, rfl⟩, _, ⟨fourth, hd, rfl⟩,
      hvalue⟩
    refine ⟨first, second, third, fourth, ha, hb, hc, hd, ?_⟩
    rw [← Option.some.inj hvalue]
    omega
  · rintro ⟨first, second, third, fourth, ha, hb, hc, hd, rfl⟩
    exact ⟨_, ⟨first, ha, rfl⟩, _, ⟨second, hb, rfl⟩, _, ⟨third, hc, rfl⟩, _, ⟨fourth, hd, rfl⟩,
      by simp⟩

/-- The bytes that `\u` adds are UTF-8. -/
theorem pushCodepoint_eq {codepoint : ℕ} (hcodepoint : codepoint < 0x10000) :
    pushCodepoint codepoint = utf8 codepoint := by
  have hor (high low n : ℕ) (hlow : low < 2 ^ n) : high * 2 ^ n ||| low = high * 2 ^ n + low := by
    rw [← Nat.shiftLeft_eq, Nat.shiftLeft_add_eq_or_of_lt hlow]
  have hmask (n : ℕ) : n &&& 0x3F = n % 64 := Nat.and_two_pow_sub_one_eq_mod n 6
  have htail (n : ℕ) : 0x80 ||| n % 64 = 0x80 + n % 64 :=
    hor 1 (n % 64) 7 ((Nat.mod_lt _ (by decide)).trans (by decide))
  have htwo (n : ℕ) (hn : n < 64) : 0xC0 ||| n = 0xC0 + n := hor 3 n 6 hn
  have hthree (n : ℕ) (hn : n < 32) : 0xE0 ||| n = 0xE0 + n := hor 7 n 5 hn
  rw [pushCodepoint, utf8]
  by_cases hone : codepoint < 0x80
  · rw [if_pos (by omega), if_pos hone]
  · rw [if_neg (by omega), if_neg hone, hmask, hmask, htail, htail, Nat.shiftRight_eq_div_pow,
      Nat.shiftRight_eq_div_pow]
    by_cases htwoBytes : codepoint < 0x800
    · rw [if_pos (by omega), if_pos htwoBytes, htwo _ (by omega)]
    · rw [if_neg (by omega), if_neg htwoBytes, if_pos (by omega), hthree _ (by omega)]

theorem escapedChar_eq_some_iff {escaped ch : UInt8} :
    escapedChar escaped = some ch ↔ (escaped, ch) ∈ simpleEscapes := by
  constructor
  · intro hescaped
    rw [escapedChar] at hescaped
    split_ifs at hescaped with h h h h h h h h
    all_goals
      subst h
      obtain rfl := Option.some.inj hescaped
      decide
  · intro hmem
    simp only [simpleEscapes, List.mem_cons, Prod.mk.injEq, List.not_mem_nil, or_false] at hmem
    obtain ⟨rfl, rfl⟩ | ⟨rfl, rfl⟩ | ⟨rfl, rfl⟩ | ⟨rfl, rfl⟩ | ⟨rfl, rfl⟩ | ⟨rfl, rfl⟩ |
      ⟨rfl, rfl⟩ | ⟨rfl, rfl⟩ := hmem
    all_goals rfl

theorem isAscii_cons {char : UInt8} {text : List UInt8} :
    IsAscii (char :: text) ↔ char < 0x80 ∧ IsAscii text := List.forall_mem_cons

theorem hexValue_ascii {char : UInt8} {digit : ℕ} (hdigit : hexValue char = some digit) :
    char < 0x80 := by
  rw [UInt8.lt_iff_toNat_lt]
  change char.toNat < 128
  rw [hexValue] at hdigit
  split_ifs at hdigit with hdec hlower hupper
  · simp only [isDigit, Bool.and_eq_true, decide_eq_true_eq] at hdec
    exact Nat.lt_of_le_of_lt (UInt8.le_iff_toNat_le.mp hdec.2) (by decide)
  · exact Nat.lt_of_le_of_lt (UInt8.le_iff_toNat_le.mp hlower.2) (by decide)
  · exact Nat.lt_of_le_of_lt (UInt8.le_iff_toNat_le.mp hupper.2) (by decide)

theorem ascii_of_mem_simpleEscapes {mark char : UInt8} (hmem : (mark, char) ∈ simpleEscapes) :
    mark < 0x80 := by
  have hall : (simpleEscapes.all fun pair ↦ decide (pair.1 < 0x80)) = true := by decide
  exact of_decide_eq_true (List.all_eq_true.mp hall _ hmem)

/-- A string that is read is closed, or the text ends in it. By induction on the text. -/
theorem scanString_spec {raw value rest : List UInt8}
    (hscan : scanString raw = some (value, rest)) :
    (∃ text, raw = text ++ '"'.toUInt8 :: rest ∧ Chars text value ∧ IsAscii text) ∨ rest = [] := by
  fun_induction scanString raw generalizing value rest with
  | case1 =>
    obtain ⟨-, rfl⟩ := Prod.mk.inj (Option.some.inj hscan)
    exact .inr rfl
  | case2 => cases hscan
  | case3 => cases hscan
  | case4 escaped raw ch hescaped hadmitted ih =>
    obtain ⟨⟨behind, after⟩, hbehind, hpair⟩ := Option.map_eq_some_iff.mp hscan
    obtain ⟨rfl, rfl⟩ := Prod.mk.inj hpair
    have hmem := escapedChar_eq_some_iff.mp hescaped
    refine (ih hbehind).imp_left fun ⟨text, hraw, hchars, hascii⟩ ↦ ?_
    exact ⟨'\\'.toUInt8 :: escaped :: text, by rw [hraw]; rfl, .simple hmem hchars,
      isAscii_cons.mpr ⟨by decide, isAscii_cons.mpr ⟨ascii_of_mem_simpleEscapes hmem, hascii⟩⟩⟩
  | case5 a b c d raw codepoint hdigits hadmitted hnone ih =>
    obtain ⟨⟨behind, after⟩, hbehind, hpair⟩ := Option.map_eq_some_iff.mp hscan
    obtain ⟨rfl, rfl⟩ := Prod.mk.inj hpair
    obtain ⟨first, second, third, fourth, ha, hb, hc, hd, rfl⟩ := hatoui_eq_some_iff.mp hdigits
    have hfirst := hexValue_lt ha
    have hsecond := hexValue_lt hb
    have hthird := hexValue_lt hc
    have hfourth := hexValue_lt hd
    refine (ih hbehind).imp_left fun ⟨text, hraw, hchars, hascii⟩ ↦ ?_
    rw [pushCodepoint_eq (by omega)]
    exact ⟨'\\'.toUInt8 :: 'u'.toUInt8 :: a :: b :: c :: d :: text, by rw [hraw]; rfl,
      .unicode ha hb hc hd hchars,
      isAscii_cons.mpr ⟨by decide, isAscii_cons.mpr ⟨by decide,
        isAscii_cons.mpr ⟨hexValue_ascii ha, isAscii_cons.mpr ⟨hexValue_ascii hb,
          isAscii_cons.mpr ⟨hexValue_ascii hc, isAscii_cons.mpr ⟨hexValue_ascii hd, hascii⟩⟩⟩⟩⟩⟩⟩
  | case6 => cases hscan
  | case7 => cases hscan
  | case8 => cases hscan
  | case9 raw hadmitted hescape =>
    obtain ⟨rfl, rfl⟩ := Prod.mk.inj (Option.some.inj hscan)
    exact .inl ⟨[], rfl, .nil, fun _ hmem ↦ nomatch hmem⟩
  | case10 ch raw hadmitted hescape hquote ih =>
    obtain ⟨⟨behind, after⟩, hbehind, hpair⟩ := Option.map_eq_some_iff.mp hscan
    obtain ⟨rfl, rfl⟩ := Prod.mk.inj hpair
    rw [not_or, UInt8.not_lt, UInt8.not_le] at hadmitted
    refine (ih hbehind).imp_left fun ⟨text, hraw, hchars, hascii⟩ ↦ ?_
    exact ⟨ch :: text, by rw [hraw]; rfl, .plain hadmitted.1 hquote hescape hchars,
      isAscii_cons.mpr ⟨hadmitted.2, hascii⟩⟩

/-- A string of the grammar is read. By induction on the string. -/
theorem scanString_chars {text value : List UInt8} (hchars : Chars text value)
    (hascii : IsAscii text) (rest : List UInt8) :
    scanString (text ++ '"'.toUInt8 :: rest) = some (value, rest) := by
  induction hchars with
  | nil =>
    rw [List.nil_append]
    unfold scanString
    rw [if_neg (by decide), if_neg (by decide), if_pos rfl]
  | @plain char text value hcontrol hquote hescape htext ih =>
    obtain ⟨hchar, hascii⟩ := isAscii_cons.mp hascii
    have hadmitted : ¬(char < 0x20 ∨ 0x80 ≤ char) := by
      rw [not_or, UInt8.not_lt, UInt8.not_le]
      exact ⟨hcontrol, hchar⟩
    rw [List.cons_append]
    unfold scanString
    rw [if_neg hadmitted, if_neg hescape, if_neg hquote, ih hascii]
    rfl
  | @simple mark char text value hmark htext ih =>
    obtain ⟨-, hascii⟩ := isAscii_cons.mp hascii
    obtain ⟨-, hascii⟩ := isAscii_cons.mp hascii
    have hescaped := escapedChar_eq_some_iff.mpr hmark
    rw [List.cons_append, List.cons_append]
    unfold scanString
    rw [if_neg (by decide), if_pos rfl]
    simp only [hescaped, ih hascii]
    rfl
  | @unicode a b c d first second third fourth text value ha hb hc hd htext ih =>
    have hfirst := hexValue_lt ha
    have hsecond := hexValue_lt hb
    have hthird := hexValue_lt hc
    have hfourth := hexValue_lt hd
    have hdigits := hatoui_eq_some_iff.mpr ⟨first, second, third, fourth, ha, hb, hc, hd, rfl⟩
    have hrest : IsAscii text := fun char hmem ↦ hascii char (by simp [hmem])
    have hnone : escapedChar 'u'.toUInt8 = none := rfl
    simp only [List.cons_append]
    unfold scanString
    rw [if_neg (by decide), if_pos rfl]
    simp only [hnone, if_pos, hdigits, ih hrest, pushCodepoint_eq (show
      16 * (16 * (16 * first + second) + third) + fourth < 0x10000 by omega)]
    rfl

/-! ### Numbers -/

theorem startsWithDigit_append {digits : List UInt8} (hdigits : IsDigits digits)
    (rest : List UInt8) : startsWithDigit (digits ++ rest) = true := by
  obtain ⟨ch, tail, rfl⟩ := List.exists_cons_of_ne_nil hdigits.1
  exact hdigits.2 ch (List.mem_cons_self ..)

theorem isDigits_takeWhile {raw : List UInt8} (hraw : startsWithDigit raw = true) :
    IsDigits (raw.takeWhile jsonIsdigit) := by
  match raw with
  | ch :: raw =>
    have hch : jsonIsdigit ch = true := hraw
    refine ⟨?_, fun char hmem ↦ List.mem_takeWhile_imp hmem⟩
    rw [List.takeWhile_cons_of_pos hch]
    exact List.cons_ne_nil _ _

theorem takeWhile_eq_nil {raw : List UInt8} (hraw : startsWithDigit raw = false) :
    raw.takeWhile jsonIsdigit = [] ∧ raw.dropWhile jsonIsdigit = raw := by
  match raw with
  | [] => exact ⟨rfl, rfl⟩
  | ch :: raw =>
    have hch : ¬jsonIsdigit ch = true := Bool.eq_false_iff.mp hraw
    exact ⟨List.takeWhile_cons_of_neg hch, List.dropWhile_cons_of_neg hch⟩

theorem takeWhile_digits {digits rest : List UInt8}
    (hdigits : ∀ char ∈ digits, jsonIsdigit char = true)
    (hrest : startsWithDigit rest = false) :
    (digits ++ rest).takeWhile jsonIsdigit = digits ∧
      (digits ++ rest).dropWhile jsonIsdigit = rest := by
  obtain ⟨htake, hdrop⟩ := takeWhile_eq_nil hrest
  rw [List.takeWhile_append_of_pos hdigits, List.dropWhile_append_of_pos hdigits, htake, hdrop,
    List.append_nil]
  exact ⟨rfl, rfl⟩

/-- A number ends in front of a text. -/
def NumberEnds (rest : List UInt8) : Prop :=
  ∀ ch ∈ rest.head?, jsonIsdigit ch = false ∧ ch ≠ '.'.toUInt8 ∧ ch ≠ 'e'.toUInt8 ∧ ch ≠ 'E'.toUInt8

theorem NumberEnds.startsWithDigit {rest : List UInt8} (hends : NumberEnds rest) :
    startsWithDigit rest = false := by
  match rest with
  | [] => rfl
  | ch :: rest => exact (hends ch rfl).1

theorem scanFrac_spec {numStr raw num rest : List UInt8}
    (hscan : scanFrac numStr raw = some (num, rest)) :
    ∃ frac, num = numStr ++ frac ∧ raw = frac ++ rest ∧ IsFrac frac := by
  match raw with
  | [] =>
    obtain ⟨rfl, rfl⟩ := Prod.mk.inj (Option.some.inj hscan)
    exact ⟨[], (List.append_nil _).symm, rfl, .inl rfl⟩
  | ch :: raw =>
    rw [scanFrac] at hscan
    split_ifs at hscan with hpoint hdigit
    · obtain ⟨rfl, rfl⟩ := Prod.mk.inj (Option.some.inj hscan)
      refine ⟨ch :: raw.takeWhile jsonIsdigit, rfl, ?_, .inr ⟨_, ?_, isDigits_takeWhile hdigit⟩⟩
      · rw [List.cons_append, List.takeWhile_append_dropWhile]
      · rw [hpoint]
    · obtain ⟨rfl, rfl⟩ := Prod.mk.inj (Option.some.inj hscan)
      exact ⟨[], (List.append_nil _).symm, rfl, .inl rfl⟩

theorem scanFrac_frac {frac rest : List UInt8} (hfrac : IsFrac frac) (numStr : List UInt8)
    (hrest : startsWithDigit rest = false) (hpoint : rest.head? ≠ some '.'.toUInt8) :
    scanFrac numStr (frac ++ rest) = some (numStr ++ frac, rest) := by
  obtain rfl | ⟨digits, rfl, hdigits⟩ := hfrac
  · rw [List.nil_append, List.append_nil]
    match rest with
    | [] => rfl
    | ch :: rest =>
      have hch : ch ≠ '.'.toUInt8 := fun heq ↦ hpoint (congrArg some heq)
      rw [scanFrac, if_neg hch]
  · obtain ⟨htake, hdrop⟩ := takeWhile_digits hdigits.2 hrest
    rw [List.cons_append, scanFrac, if_pos rfl, if_pos (startsWithDigit_append hdigits rest), htake,
      hdrop]

theorem scanSign_append (raw : List UInt8) :
    scanSign raw ++ raw.drop (scanSign raw).length = raw := by
  match raw with
  | [] => rfl
  | ch :: raw =>
    rw [scanSign]
    split_ifs
    · rfl
    · rfl

theorem scanSign_cases (raw : List UInt8) :
    scanSign raw = [] ∨ scanSign raw = ['-'.toUInt8] ∨ scanSign raw = ['+'.toUInt8] := by
  match raw with
  | [] => exact .inl rfl
  | ch :: raw =>
    rw [scanSign]
    split_ifs with hsign
    · obtain rfl | rfl := hsign
      · exact .inr (.inl rfl)
      · exact .inr (.inr rfl)
    · exact .inl rfl

theorem scanExp_spec {numStr raw num rest : List UInt8}
    (hscan : scanExp numStr raw = some (num, rest)) :
    ∃ exp, num = numStr ++ exp ∧ raw = exp ++ rest ∧ IsExp exp := by
  match raw with
  | [] =>
    obtain ⟨rfl, rfl⟩ := Prod.mk.inj (Option.some.inj hscan)
    exact ⟨[], (List.append_nil _).symm, rfl, .inl rfl⟩
  | ch :: raw =>
    rw [scanExp] at hscan
    by_cases hmark : ch = 'e'.toUInt8 ∨ ch = 'E'.toUInt8
    · rw [if_pos hmark] at hscan
      by_cases hdigit : startsWithDigit (raw.drop (scanSign raw).length) = true
      · simp only [hdigit, if_true] at hscan
        obtain ⟨rfl, rfl⟩ := Prod.mk.inj (Option.some.inj hscan)
        refine ⟨_, rfl, ?_, .inr ⟨ch, scanSign raw, _, rfl, hmark, scanSign_cases raw,
          isDigits_takeWhile hdigit⟩⟩
        rw [List.cons_append, List.append_assoc, List.takeWhile_append_dropWhile, scanSign_append]
      · simp only [hdigit] at hscan
        cases hscan
    · rw [if_neg hmark] at hscan
      obtain ⟨rfl, rfl⟩ := Prod.mk.inj (Option.some.inj hscan)
      exact ⟨[], (List.append_nil _).symm, rfl, .inl rfl⟩

theorem scanSign_digits {sign digits : List UInt8}
    (hsign : sign = [] ∨ sign = ['-'.toUInt8] ∨ sign = ['+'.toUInt8]) (hdigits : IsDigits digits)
    (rest : List UInt8) : scanSign (sign ++ (digits ++ rest)) = sign := by
  obtain rfl | rfl | rfl := hsign
  · obtain ⟨ch, tail, rfl⟩ := List.exists_cons_of_ne_nil hdigits.1
    have hch : isDigit ch = true := hdigits.2 ch (List.mem_cons_self ..)
    have hnot : ¬(ch = '-'.toUInt8 ∨ ch = '+'.toUInt8) := by
      rintro (rfl | rfl)
      · exact absurd hch (by decide)
      · exact absurd hch (by decide)
    exact if_neg hnot
  · rfl
  · rfl

theorem scanExp_exp {exp rest : List UInt8} (hexp : IsExp exp) (numStr : List UInt8)
    (hends : NumberEnds rest) : scanExp numStr (exp ++ rest) = some (numStr ++ exp, rest) := by
  obtain rfl | ⟨mark, sign, digits, rfl, hmark, hsign, hdigits⟩ := hexp
  · rw [List.nil_append, List.append_nil]
    match rest with
    | [] => rfl
    | ch :: rest =>
      have hch : ¬(ch = 'e'.toUInt8 ∨ ch = 'E'.toUInt8) := not_or.mpr (hends ch rfl).2.2
      rw [scanExp, if_neg hch]
  · obtain ⟨htake, hdrop⟩ := takeWhile_digits hdigits.2 hends.startsWithDigit
    rw [List.cons_append, List.append_assoc, scanExp, if_pos hmark]
    simp only [scanSign_digits hsign hdigits, List.drop_left', startsWithDigit_append hdigits,
      htake, hdrop, if_true]

theorem isInt_takeWhile {raw : List UInt8} (hdigit : startsWithDigit raw = true)
    (hzero : ¬(raw.head? = some '0'.toUInt8 ∧ startsWithDigit raw.tail = true)) :
    IsInt (raw.takeWhile jsonIsdigit) := by
  refine ⟨isDigits_takeWhile hdigit, ?_⟩
  match raw with
  | ch :: raw =>
    have hch : jsonIsdigit ch = true := hdigit
    rw [List.takeWhile_cons_of_pos hch]
    by_cases heq : ch = '0'.toUInt8
    · have htail : startsWithDigit raw = false := by
        rw [← Bool.not_eq_true]
        exact fun htail ↦ hzero ⟨congrArg some heq, htail⟩
      rw [(takeWhile_eq_nil htail).1, heq]
      exact .inl rfl
    · exact .inr fun hhead ↦ heq (Option.some.inj hhead)

/-- The parts behind the digits. -/
theorem scanFrac_scanExp {numStr raw num rest : List UInt8}
    (hscan : ((scanFrac numStr raw).bind fun scanned ↦ scanExp scanned.1 scanned.2) =
      some (num, rest)) :
    ∃ frac exp, num = numStr ++ frac ++ exp ∧ raw = frac ++ exp ++ rest ∧ IsFrac frac ∧
      IsExp exp := by
  obtain ⟨⟨between, behind⟩, hfracScan, hexpScan⟩ := Option.bind_eq_some_iff.mp hscan
  obtain ⟨frac, rfl, rfl, hfrac⟩ := scanFrac_spec hfracScan
  obtain ⟨exp, rfl, rfl, hexp⟩ := scanExp_spec hexpScan
  exact ⟨frac, exp, rfl, (List.append_assoc ..).symm, hfrac, hexp⟩

/-- What is read as a number is one. -/
theorem scanNumber_spec {ch : UInt8} {raw num rest : List UInt8}
    (hch : ch = '-'.toUInt8 ∨ jsonIsdigit ch = true)
    (hscan : scanNumber (ch :: raw) = some (num, rest)) :
    ch :: raw = num ++ rest ∧ IsNumber num := by
  simp only [scanNumber, List.drop_one, List.tail_cons, List.head?_cons, List.take_succ_cons,
    List.take_zero] at hscan
  by_cases hdigit : startsWithDigit (ch :: raw) = true
  · rw [if_pos hdigit] at hscan
    split_ifs at hscan with hzero hminus
    obtain ⟨frac, exp, rfl, hraw, hfrac, hexp⟩ := scanFrac_scanExp hscan
    have htake : [ch] ++ raw.takeWhile jsonIsdigit = (ch :: raw).takeWhile jsonIsdigit :=
      (List.takeWhile_cons_of_pos (show jsonIsdigit ch = true from hdigit)).symm
    have hint := isInt_takeWhile hdigit hzero
    rw [← htake] at hint
    refine ⟨?_, [], _, frac, exp, rfl, .inl rfl, hint, hfrac, hexp⟩
    rw [List.append_assoc, List.append_assoc, List.append_assoc, ← List.append_assoc frac, ← hraw,
      List.takeWhile_append_dropWhile]
    rfl
  · have hsign : ch = '-'.toUInt8 := hch.resolve_right hdigit
    rw [if_neg hdigit] at hscan
    split_ifs at hscan with hzero hminus
    obtain ⟨frac, exp, rfl, hraw, hfrac, hexp⟩ := scanFrac_scanExp hscan
    have hbehind : startsWithDigit raw = true := by
      by_contra hbehind
      exact hminus ⟨congrArg some hsign, hbehind⟩
    refine ⟨?_, [ch], _, frac, exp, rfl, .inr (by rw [hsign]), isInt_takeWhile hbehind hzero, hfrac,
      hexp⟩
    rw [List.append_assoc, List.append_assoc, List.append_assoc, ← List.append_assoc frac, ← hraw,
      List.takeWhile_append_dropWhile]
    rfl

/-- Behind the digits of a number there is no digit. -/
theorem startsWithDigit_frac_exp {frac exp rest : List UInt8} (hfrac : IsFrac frac)
    (hexp : IsExp exp) (hends : NumberEnds rest) :
    startsWithDigit (frac ++ (exp ++ rest)) = false ∧ startsWithDigit (exp ++ rest) = false ∧
      (exp ++ rest).head? ≠ some '.'.toUInt8 := by
  have hbehind : startsWithDigit (exp ++ rest) = false ∧
      (exp ++ rest).head? ≠ some '.'.toUInt8 := by
    obtain rfl | ⟨mark, sign, digits, rfl, rfl | rfl, hsign, hdigits⟩ := hexp
    · exact ⟨hends.startsWithDigit, fun hhead ↦ (hends _ hhead).2.1 rfl⟩
    · rw [List.cons_append, List.head?_cons]
      exact ⟨rfl, by decide⟩
    · rw [List.cons_append, List.head?_cons]
      exact ⟨rfl, by decide⟩
  obtain rfl | ⟨digits, rfl, hdigits⟩ := hfrac
  · exact ⟨hbehind.1, hbehind⟩
  · exact ⟨rfl, hbehind⟩

/-- A number of the grammar is read. -/
theorem scanNumber_number {text rest : List UInt8} (hnumber : IsNumber text)
    (hends : NumberEnds rest) : scanNumber (text ++ rest) = some (text, rest) := by
  obtain ⟨sign, int, frac, exp, rfl, hsign, hint, hfrac, hexp⟩ := hnumber
  obtain ⟨hbehind, hexpBehind, hpoint⟩ := startsWithDigit_frac_exp hfrac hexp hends
  obtain ⟨ch, digits, rfl⟩ := List.exists_cons_of_ne_nil hint.1.1
  have hch : jsonIsdigit ch = true := hint.1.2 ch (List.mem_cons_self ..)
  have hdigits : ∀ char ∈ digits, jsonIsdigit char = true :=
    fun char hmem ↦ hint.1.2 char (List.mem_cons_of_mem _ hmem)
  have hscan (numStr : List UInt8) :
      ((scanFrac numStr (frac ++ (exp ++ rest))).bind fun scanned ↦ scanExp scanned.1 scanned.2) =
        some (numStr ++ frac ++ exp, rest) := by
    rw [scanFrac_frac hfrac numStr hexpBehind hpoint, Option.bind_some, scanExp_exp hexp _ hends]
  have hzero : ¬(some ch = some '0'.toUInt8 ∧
      startsWithDigit (digits ++ (frac ++ (exp ++ rest))) = true) := by
    rintro ⟨heq, hstarts⟩
    have hnil : digits = [] := by
      obtain hone | hother := hint.2
      · exact (List.cons.inj hone).2
      · exact absurd heq hother
    rw [hnil, List.nil_append, hbehind] at hstarts
    cases hstarts
  have hnotMinus : ¬(some ch = some '-'.toUInt8 ∧
      ¬startsWithDigit (digits ++ (frac ++ (exp ++ rest))) = true) := by
    rintro ⟨heq, -⟩
    rw [Option.some.inj heq] at hch
    exact absurd hch (by decide)
  obtain ⟨htake, hdrop⟩ := takeWhile_digits hdigits hbehind
  have hstarts : startsWithDigit (ch :: (digits ++ (frac ++ (exp ++ rest)))) = true := hch
  obtain rfl | rfl := hsign
  · simp only [List.nil_append, List.cons_append, List.append_assoc, scanNumber, List.drop_one,
      List.tail_cons, List.head?_cons, List.take_succ_cons, List.take_zero, htake, hdrop]
    rw [if_pos hstarts, List.head?_cons, List.tail_cons, if_neg hzero, if_neg hnotMinus, hscan]
    simp only [List.cons_append, List.append_assoc]
  · obtain ⟨htake, hdrop⟩ := takeWhile_digits hint.1.2 hbehind
    rw [List.cons_append] at htake hdrop
    simp only [List.nil_append, List.cons_append, List.append_assoc, scanNumber, List.drop_one,
      List.tail_cons, List.head?_cons, List.take_succ_cons, List.take_zero, htake, hdrop]
    have hfirst (tail : List UInt8) : ¬startsWithDigit ('-'.toUInt8 :: tail) = true :=
      Bool.false_ne_true
    rw [if_neg (hfirst _), List.head?_cons, List.tail_cons, if_neg hzero,
      if_neg (fun hminus ↦ hminus.2 hstarts), hscan]
    simp only [List.cons_append, List.append_assoc]

/-! ### Tokens -/

/-- How `getJsonToken` reports a token. -/
def tokenType : Token → TokenType
  | .objOpen => .objOpen
  | .objClose => .objClose
  | .arrOpen => .arrOpen
  | .arrClose => .arrClose
  | .colon => .colon
  | .comma => .comma
  | .kwNull => .kwNull
  | .kwTrue => .kwTrue
  | .kwFalse => .kwFalse
  | .number _ _ => .number
  | .string _ => .string

/-- What `tokenVal` is for a token. -/
def tokenVal : Token → List UInt8
  | .number text _ => text
  | .string value => value
  | _ => []

theorem scanKeyword_spec {raw rest : List UInt8} {tok : TokenType}
    (hscan : scanKeyword raw = some (tok, rest)) :
    ∃ token lexeme, raw = lexeme ++ rest ∧ Lexeme token lexeme ∧ IsAscii lexeme ∧
      tok = tokenType token ∧ tokenVal token = [] := by
  have hsplit (n : ℕ) {lexeme : List UInt8} (htake : raw.take n = lexeme) :
      raw = lexeme ++ raw.drop n := by rw [← htake, List.take_append_drop]
  rw [scanKeyword] at hscan
  split_ifs at hscan with hnull htrue hfalse
  · obtain ⟨rfl, rfl⟩ := Prod.mk.inj (Option.some.inj hscan)
    exact ⟨.kwNull, _, hsplit 4 hnull, .kwNull, by unfold IsAscii; decide +kernel, rfl, rfl⟩
  · obtain ⟨rfl, rfl⟩ := Prod.mk.inj (Option.some.inj hscan)
    exact ⟨.kwTrue, _, hsplit 4 htrue, .kwTrue, by unfold IsAscii; decide +kernel, rfl, rfl⟩
  · obtain ⟨rfl, rfl⟩ := Prod.mk.inj (Option.some.inj hscan)
    exact ⟨.kwFalse, _, hsplit 5 hfalse, .kwFalse, by unfold IsAscii; decide +kernel, rfl, rfl⟩

theorem isAscii_append {first second : List UInt8} :
    IsAscii (first ++ second) ↔ IsAscii first ∧ IsAscii second := List.forall_mem_append

theorem isNumberChar_ascii {char : UInt8} (hchar : isNumberChar char = true) :
    0x20 ≤ char ∧ char < 0x80 := by
  simp only [isNumberChar, isDigit, Bool.or_eq_true, Bool.and_eq_true, decide_eq_true_eq] at hchar
  obtain ((((⟨hlow, hhigh⟩ | rfl) | rfl) | rfl) | rfl) | rfl := hchar
  · exact ⟨UInt8.le_trans (by decide) hlow, UInt8.lt_of_le_of_lt hhigh (by decide)⟩
  · decide
  · decide
  · decide
  · decide
  · decide

theorem isNumber_ascii {text : List UInt8} (hnumber : IsNumber text) : IsAscii text :=
  fun char hmem ↦ (isNumberChar_ascii (isNumberChar_of_isNumber hnumber char hmem)).2

/-- What is found is a lexeme of the token that is reported, or a string that the text ends in. -/
theorem scanToken_spec {raw val rest : List UInt8} {tok : TokenType}
    (hscan : scanToken raw = some (tok, val, rest)) :
    (∃ token lexeme, raw = lexeme ++ rest ∧ Lexeme token lexeme ∧ IsAscii lexeme ∧
      tok = tokenType token ∧ val = tokenVal token) ∨ tok = .string ∧ rest = [] := by
  have hone (char : UInt8) (hchar : char < 0x80) : IsAscii [char] :=
    isAscii_cons.mpr ⟨hchar, List.forall_mem_nil _⟩
  match raw with
  | ch :: raw =>
    rw [scanToken] at hscan
    split_ifs at hscan with hobjOpen hobjClose harrOpen harrClose hcolon hcomma hkeyword hnumber
      hstring
    · obtain ⟨⟩ := hscan
      subst hobjOpen
      exact .inl ⟨.objOpen, _, rfl, .objOpen, hone _ (by decide), rfl, rfl⟩
    · obtain ⟨⟩ := hscan
      subst hobjClose
      exact .inl ⟨.objClose, _, rfl, .objClose, hone _ (by decide), rfl, rfl⟩
    · obtain ⟨⟩ := hscan
      subst harrOpen
      exact .inl ⟨.arrOpen, _, rfl, .arrOpen, hone _ (by decide), rfl, rfl⟩
    · obtain ⟨⟩ := hscan
      subst harrClose
      exact .inl ⟨.arrClose, _, rfl, .arrClose, hone _ (by decide), rfl, rfl⟩
    · obtain ⟨⟩ := hscan
      subst hcolon
      exact .inl ⟨.colon, _, rfl, .colon, hone _ (by decide), rfl, rfl⟩
    · obtain ⟨⟩ := hscan
      subst hcomma
      exact .inl ⟨.comma, _, rfl, .comma, hone _ (by decide), rfl, rfl⟩
    · obtain ⟨⟨tok, behind⟩, hkey, hscan⟩ := Option.map_eq_some_iff.mp hscan
      obtain ⟨⟩ := hscan
      obtain ⟨token, lexeme, hraw, hlexeme, hascii, htok, hval⟩ := scanKeyword_spec hkey
      exact .inl ⟨token, lexeme, hraw, hlexeme, hascii, htok, hval.symm⟩
    · obtain ⟨⟨num, behind⟩, hnum, hscan⟩ := Option.map_eq_some_iff.mp hscan
      obtain ⟨⟩ := hscan
      obtain ⟨hraw, hisNumber⟩ := scanNumber_spec hnumber hnum
      exact .inl ⟨.number _ hisNumber, _, hraw, .number hisNumber, isNumber_ascii hisNumber, rfl,
        rfl⟩
    · obtain ⟨⟨value, behind⟩, hchars, hscan⟩ := Option.map_eq_some_iff.mp hscan
      obtain ⟨⟩ := hscan
      obtain ⟨text, rfl, hchars, hascii⟩ | hrest := scanString_spec hchars
      · refine .inl ⟨.string _, _, ?_, .string hchars, ?_, rfl, rfl⟩
        · rw [hstring, List.cons_append, List.append_assoc, List.singleton_append]
        · exact isAscii_cons.mpr ⟨by decide, isAscii_append.mpr ⟨hascii, hone _ (by decide)⟩⟩
      · exact .inr ⟨rfl, hrest⟩

/-- The first character of a number. -/
theorem exists_cons_of_isNumber {text : List UInt8} (hnumber : IsNumber text) :
    ∃ ch tail, text = ch :: tail ∧ (ch = '-'.toUInt8 ∨ isDigit ch = true) := by
  obtain ⟨sign, int, frac, exp, rfl, hsign, hint, -, -⟩ := hnumber
  obtain ⟨ch, digits, rfl⟩ := List.exists_cons_of_ne_nil hint.1.1
  obtain rfl | rfl := hsign
  · exact ⟨ch, _, rfl, .inr (hint.1.2 ch (List.mem_cons_self ..))⟩
  · exact ⟨_, _, rfl, .inl rfl⟩

/-- The branch of the numbers. -/
theorem scanToken_cons_number {ch : UInt8} (hch : ch = '-'.toUInt8 ∨ isDigit ch = true)
    (raw : List UInt8) :
    scanToken (ch :: raw) =
      (scanNumber (ch :: raw)).map fun scanned ↦ (.number, scanned.1, scanned.2) := by
  have hne (other : UInt8) (hminus : other ≠ '-'.toUInt8) (hdigit : isDigit other = false) :
      ch ≠ other := by
    rintro rfl
    obtain heq | heq := hch
    · exact hminus heq
    · exact absurd (hdigit.symm.trans heq) Bool.false_ne_true
  have hkeyword : ¬(ch = 'n'.toUInt8 ∨ ch = 't'.toUInt8 ∨ ch = 'f'.toUInt8) := by
    rintro (heq | heq | heq)
    · exact hne _ (by decide) (by decide) heq
    · exact hne _ (by decide) (by decide) heq
    · exact hne _ (by decide) (by decide) heq
  rw [scanToken, if_neg (hne _ (by decide) (by decide)), if_neg (hne _ (by decide) (by decide)),
    if_neg (hne _ (by decide) (by decide)), if_neg (hne _ (by decide) (by decide)),
    if_neg (hne _ (by decide) (by decide)), if_neg (hne _ (by decide) (by decide)),
    if_neg hkeyword, if_pos (show ch = _ ∨ jsonIsdigit ch = true from hch)]

/-- A lexeme is found in front of what follows it. -/
theorem scanToken_lexeme {token : Token} {lexeme rest : List UInt8} (hlexeme : Lexeme token lexeme)
    (hascii : IsAscii lexeme)
    (hends : ∀ text hnumber, token = .number text hnumber → NumberEnds rest) :
    scanToken (lexeme ++ rest) = some (tokenType token, tokenVal token, rest) := by
  cases hlexeme with
  | objOpen | objClose | arrOpen | arrClose | colon | comma | kwNull | kwTrue | kwFalse => rfl
  | number hnumber =>
    have hscan := scanNumber_number hnumber (hends _ hnumber rfl)
    obtain ⟨ch, tail, rfl, hch⟩ := exists_cons_of_isNumber hnumber
    rw [List.cons_append] at hscan ⊢
    rw [scanToken_cons_number hch, hscan]
    rfl
  | @string text value hchars =>
    have hscan := scanString_chars hchars (isAscii_append.mp (isAscii_cons.mp hascii).2).1 rest
    rw [List.cons_append, List.append_assoc, List.singleton_append]
    change (scanString _).map _ = _
    rw [hscan]
    rfl

/-! ### The token behind white space -/

theorem jsonIsspace_eq : jsonIsspace = isWhitespace := rfl

theorem tokenType_ne (token : Token) : tokenType token ≠ .none ∧ tokenType token ≠ .err := by
  cases token with
  | objOpen | objClose | arrOpen | arrClose | colon | comma | kwNull | kwTrue | kwFalse
  | number _ _ | string _ => exact ⟨nofun, nofun⟩

/-- A reported token is not the end of the text and not an error. -/
theorem scanToken_ne {raw val rest : List UInt8} {tok : TokenType}
    (hscan : scanToken raw = some (tok, val, rest)) : tok ≠ .none ∧ tok ≠ .err := by
  obtain ⟨token, lexeme, -, -, -, rfl, -⟩ | ⟨rfl, -⟩ := scanToken_spec hscan
  · exact tokenType_ne token
  · exact ⟨nofun, nofun⟩

theorem getJsonToken_none_iff {raw : List UInt8} :
    (getJsonToken raw).tok = .none ↔ ∀ char ∈ raw, isWhitespace char = true := by
  rw [← List.dropWhile_eq_nil_iff, ← jsonIsspace_eq, getJsonToken]
  constructor
  · intro hnone
    by_contra hraw
    simp only [if_neg hraw] at hnone
    match hscan : scanToken (raw.dropWhile jsonIsspace) with
    | none =>
      rw [hscan] at hnone
      cases hnone
    | some (tok, val, rest) =>
      rw [hscan] at hnone
      exact (scanToken_ne hscan).1 hnone
  · intro hraw
    simp only [if_pos hraw]

theorem getJsonToken_spec {raw : List UInt8} (hnone : (getJsonToken raw).tok ≠ .none)
    (herr : (getJsonToken raw).tok ≠ .err) :
    ∃ rest, (getJsonToken raw).consumed = (raw.length - rest.length) % 2 ^ 32 ∧
      ((∃ token spaces lexeme, raw = spaces ++ lexeme ++ rest ∧
        (∀ char ∈ spaces, isWhitespace char = true) ∧ Lexeme token lexeme ∧ IsAscii lexeme ∧
        (getJsonToken raw).tok = tokenType token ∧
        (getJsonToken raw).tokenVal = tokenVal token) ∨
      (getJsonToken raw).tok = .string ∧ rest = []) := by
  have hraw : raw.dropWhile jsonIsspace ≠ [] := by
    intro hraw
    exact hnone (by simp only [getJsonToken, if_pos hraw])
  match hscan : scanToken (raw.dropWhile jsonIsspace) with
  | none => exact absurd (by simp only [getJsonToken, if_neg hraw, hscan]) herr
  | some (tok, val, rest) =>
    have hlexed : getJsonToken raw = ⟨tok, val, (raw.length - rest.length) % 2 ^ 32⟩ := by
      simp only [getJsonToken, if_neg hraw, hscan]
    rw [hlexed]
    refine ⟨rest, rfl, (scanToken_spec hscan).imp_left ?_⟩
    rintro ⟨token, lexeme, hbehind, hlexeme, hascii, htok, hval⟩
    refine ⟨token, raw.takeWhile jsonIsspace, lexeme, ?_, fun char hmem ↦
      List.mem_takeWhile_imp hmem, hlexeme, hascii, htok, hval⟩
    rw [List.append_assoc, ← hbehind, List.takeWhile_append_dropWhile]

/-- A lexeme does not start with white space. -/
theorem dropWhile_lexeme {token : Token} {lexeme : List UInt8} (hlexeme : Lexeme token lexeme)
    (rest : List UInt8) :
    (lexeme ++ rest).dropWhile jsonIsspace = lexeme ++ rest ∧ lexeme ≠ [] := by
  cases hlexeme with
  | objOpen | objClose | arrOpen | arrClose | colon | comma | kwNull | kwTrue | kwFalse
  | string _ => exact ⟨rfl, List.cons_ne_nil _ _⟩
  | number hnumber =>
    obtain ⟨ch, tail, rfl, hch⟩ := exists_cons_of_isNumber hnumber
    have hspace : ¬jsonIsspace ch = true := by
      intro hspace
      simp only [jsonIsspace, Bool.or_eq_true, decide_eq_true_eq] at hspace
      obtain ((rfl | rfl) | rfl) | rfl := hspace
      · exact absurd hch (by decide)
      · exact absurd hch (by decide)
      · exact absurd hch (by decide)
      · exact absurd hch (by decide)
    exact ⟨List.dropWhile_cons_of_neg hspace, List.cons_ne_nil _ _⟩

theorem getJsonToken_lexeme {token : Token} {spaces lexeme rest : List UInt8}
    (hspaces : ∀ char ∈ spaces, isWhitespace char = true) (hlexeme : Lexeme token lexeme)
    (hascii : IsAscii lexeme)
    (hends : ∀ text hnumber, token = .number text hnumber → NumberEnds rest) :
    getJsonToken (spaces ++ lexeme ++ rest) =
      ⟨tokenType token, tokenVal token, (spaces ++ lexeme).length % 2 ^ 32⟩ := by
  obtain ⟨hdrop, hne⟩ := dropWhile_lexeme hlexeme rest
  have hraw : (spaces ++ lexeme ++ rest).dropWhile jsonIsspace = lexeme ++ rest := by
    rw [List.append_assoc, jsonIsspace_eq, List.dropWhile_append_of_pos hspaces, ← jsonIsspace_eq,
      hdrop]
  have hbehind : lexeme ++ rest ≠ [] := List.append_ne_nil_of_left_ne_nil hne _
  simp only [getJsonToken, hraw, if_neg hbehind, scanToken_lexeme hlexeme hascii hends]
  have hlength : (spaces ++ lexeme ++ rest).length = (spaces ++ lexeme).length + rest.length :=
    List.length_append
  rw [hlength, Nat.add_sub_cancel]

end Exc.Json
