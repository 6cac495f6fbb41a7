import Exc.Base58.Conversion

/-!
# Base58 round trips

What `EncodeBase58` makes of any bytes, `DecodeBase58` turns back into them (`decode_encode`). It
accepts exactly the texts of characters of the alphabet with spaces around them, and
`EncodeBase58` of what it decodes is these characters again (`decode_accepts`). No assertion fails.
-/

set_option autoImplicit false
set_option relaxedAutoImplicit false

namespace Exc.Base58

open Lib

/-- A text is characters of the alphabet with spaces around them. -/
structure Surrounded (text run : List UInt8) : Prop where
  split : ∃ leading trailing, text = leading ++ run ++ trailing ∧
    (∀ char ∈ leading, isSpace char) ∧ ∀ char ∈ trailing, isSpace char
  alphabet : ∀ char ∈ run, inAlphabet char

variable {text run : List UInt8}

theorem not_inAlphabet_of_isSpace {char : UInt8} (hspace : isSpace char) : ¬inAlphabet char :=
  fun hchar ↦ by
    rw [(isDigit_of_inAlphabet hchar).not_space] at hspace
    cases hspace

/-- The characters are those that `DecodeBase58` decodes, and it leaves spaces behind them. -/
theorem Surrounded.runOf_eq (h : Surrounded text run) :
    runOf text = run ∧ (restOf text).dropWhile isSpace = [] := by
  obtain ⟨⟨leading, trailing, rfl, hleading, htrailing⟩, hrun⟩ := h
  rw [runOf, restOf, List.append_assoc, List.dropWhile_append_of_pos hleading]
  have hspaces : trailing.dropWhile isSpace = [] := List.dropWhile_eq_nil_iff.mpr htrailing
  cases run with
  | nil =>
    rw [List.nil_append, hspaces]
    exact ⟨rfl, rfl⟩
  | cons char run =>
    have hfirst : ¬isSpace char = true := fun hspace ↦
      not_inAlphabet_of_isSpace hspace (hrun char List.mem_cons_self)
    rw [List.cons_append, List.dropWhile_cons_of_neg hfirst, ← List.cons_append,
      List.takeWhile_append_of_pos hrun, List.dropWhile_append_of_pos hrun]
    obtain _ | ⟨space, trailing⟩ := trailing
    · exact ⟨List.append_nil _, rfl⟩
    · have hspace := not_inAlphabet_of_isSpace (htrailing space List.mem_cons_self)
      rw [List.takeWhile_cons_of_neg hspace, List.dropWhile_cons_of_neg hspace, List.append_nil]
      exact ⟨rfl, hspaces⟩

/-- When spaces are left, the text is the characters that are decoded and spaces around them. -/
theorem surrounded_runOf (hrest : (restOf text).dropWhile isSpace = []) :
    Surrounded text (runOf text) := by
  refine ⟨⟨text.takeWhile isSpace, restOf text, ?_, fun _ hchar ↦ List.mem_takeWhile_imp hchar,
    List.dropWhile_eq_nil_iff.mp hrest⟩, inAlphabet_of_mem_runOf text⟩
  rw [runOf, restOf, List.append_assoc, List.takeWhile_append_dropWhile,
    List.takeWhile_append_dropWhile]

/-- What is encoded of what was decoded from characters of the alphabet. -/
theorem encode_ofNat_compose (hrun : ∀ char ∈ run, inAlphabet char) :
    encodeBase58 ((compose 256 (decompose 58 (charDigits run))).map UInt8.ofNat) = .ok run := by
  rw [encodeBase58_eq, byteDigits_ofNat (compose_lt (by norm_num)), decompose_compose,
    compose_decompose (by norm_num) (charDigits_lt hrun), symbol_charDigits hrun]

/-- `DecodeBase58` undoes `EncodeBase58` for any bytes, and no assertion fails. -/
theorem decode_encode (bytes : List UInt8) :
    ∃ text, encodeBase58 bytes = .ok text ∧
      decodeBase58 (CStr.ofString text) = .ok (some bytes) ∧
      decodeBase58String (CStr.ofString text) = .ok bytes := by
  have hencode := encodeBase58_eq bytes
  generalize hdigits : compose 58 (decompose 256 (byteDigits bytes)) = digits at hencode
  have hlt : ∀ digit ∈ digits, digit < 58 := hdigits ▸ compose_lt (by norm_num)
  have halphabet : ∀ char ∈ digits.map symbol, inAlphabet char := by
    intro char hchar
    obtain ⟨digit, hdigit, rfl⟩ := List.mem_map.mp hchar
    exact (index_symbol (hlt digit hdigit)).1
  have hclean : (CStr.ofString (digits.map symbol)).chars = digits.map symbol :=
    cstring_eq_self fun hzero ↦ (isDigit_of_inAlphabet (halphabet 0 hzero)).ne_zero rfl
  have hsurrounded : Surrounded (digits.map symbol) (digits.map symbol) :=
    ⟨⟨[], [], by simp, by simp, by simp⟩, halphabet⟩
  have hdecode : decodeBase58 (CStr.ofString (digits.map symbol)) = .ok (some bytes) := by
    obtain ⟨hrun, hrest⟩ := hsurrounded.runOf_eq
    rw [decodeBase58_eq, hclean, if_pos hrest, hrun, charDigits_symbol hlt, ← hdigits,
      decompose_compose, compose_decompose (by norm_num) (byteDigits_lt bytes), ofNat_byteDigits]
  refine ⟨_, hencode, hdecode, ?_⟩
  rw [decodeBase58String, hdecode]
  rfl

/-- `DecodeBase58` returns true exactly for characters of the alphabet with spaces around them.
Then `EncodeBase58` of the bytes is these characters. In every case no assertion fails. -/
theorem decode_accepts (psz : CStr) :
    ((∃ vch, decodeBase58 psz = .ok (some vch)) ↔ ∃ run, Surrounded psz.chars run) ∧
      (∀ vch run, decodeBase58 psz = .ok (some vch) → Surrounded psz.chars run →
        encodeBase58 vch = .ok run) ∧
      ∃ result, decodeBase58 psz = .ok result := by
  refine ⟨⟨?_, ?_⟩, ?_, _, decodeBase58_eq psz⟩
  · rintro ⟨vch, hdecode⟩
    rw [decodeBase58_eq, Except.ok.injEq] at hdecode
    split_ifs at hdecode with hrest
    exact ⟨_, surrounded_runOf hrest⟩
  · rintro ⟨run, hsurrounded⟩
    obtain ⟨-, hrest⟩ := hsurrounded.runOf_eq
    exact ⟨_, by rw [decodeBase58_eq, if_pos hrest]⟩
  · intro vch run hdecode hsurrounded
    obtain ⟨hrun, hrest⟩ := hsurrounded.runOf_eq
    rw [decodeBase58_eq, if_pos hrest, hrun, Except.ok.injEq, Option.some.injEq] at hdecode
    rw [← hdecode, encode_ofNat_compose hsurrounded.alphabet]

end Exc.Base58
