import Exc.Base58.Base58

/-!
# Base58 as a change of base

Both functions split a numeral into its leading zeros and its value and put it together again in the
other base: `encodeBase58_eq` and `decodeBase58_eq` say so for every input. The loops are runs of
`mulAddAll`, and the estimates of the sizes are enough since 256¹⁰⁰ ≤ 58¹³⁸ and 58¹⁰⁰⁰ ≤ 256⁷³³.
-/

set_option autoImplicit false
set_option relaxedAutoImplicit false

namespace Exc.Base58

open Lib

/-! ### The alphabet -/

/-- The character for a digit. -/
def symbol (digit : ℕ) : UInt8 := pszBase58.getD digit 0

/-- The digit of a character of the alphabet. -/
def index (char : UInt8) : ℕ := pszBase58.idxOf char

/-- The character is in the alphabet. -/
def inAlphabet (char : UInt8) : Bool := pszBase58.contains char

theorem index_symbol {digit : ℕ} (hdigit : digit < 58) :
    inAlphabet (symbol digit) ∧ index (symbol digit) = digit := by
  have hall : ∀ digit < 58, inAlphabet (symbol digit) ∧ index (symbol digit) = digit := by
    decide +kernel
  exact hall digit hdigit

/-- What the loops need to know of a character of the alphabet. -/
structure IsDigit (char : UInt8) : Prop where
  found : pszBase58.idxOf? char = some (index char)
  lt : index char < 58
  symbol_eq : symbol (index char) = char
  not_space : isSpace char = false
  ne_zero : char ≠ 0
  index_zero : index char = 0 ↔ char = '1'.toUInt8

instance (char : UInt8) : Decidable (IsDigit char) :=
  decidable_of_iff
    (pszBase58.idxOf? char = some (index char) ∧ index char < 58 ∧ symbol (index char) = char ∧
      isSpace char = false ∧ char ≠ 0 ∧ (index char = 0 ↔ char = '1'.toUInt8))
    ⟨fun ⟨hfound, hlt, hsymbol, hspace, hne, hzero⟩ ↦ ⟨hfound, hlt, hsymbol, hspace, hne, hzero⟩,
      fun h ↦ ⟨h.found, h.lt, h.symbol_eq, h.not_space, h.ne_zero, h.index_zero⟩⟩

theorem isDigit_of_inAlphabet {char : UInt8} (hchar : inAlphabet char) : IsDigit char := by
  have hall : pszBase58.all (fun char ↦ decide (IsDigit char)) = true := by decide +kernel
  exact of_decide_eq_true (List.all_eq_true.mp hall char (List.contains_iff_mem.mp hchar))

theorem idxOf?_eq_none {char : UInt8} (hchar : ¬inAlphabet char) :
    pszBase58.idxOf? char = none := by
  rw [List.idxOf?_eq_none_iff]
  exact fun hmem ↦ hchar (List.contains_iff_mem.mpr hmem)

/-! ### Encoding -/

/-- The bytes as digits. -/
def byteDigits (bytes : List UInt8) : List ℕ := bytes.map UInt8.toNat

theorem byteDigits_lt (bytes : List UInt8) : ∀ digit ∈ byteDigits bytes, digit < 256 := by
  intro digit hdigit
  obtain ⟨byte, -, rfl⟩ := List.mem_map.mp hdigit
  exact byte.toNat_lt

theorem ofNat_byteDigits (bytes : List UInt8) : (byteDigits bytes).map UInt8.ofNat = bytes := by
  rw [byteDigits, List.map_map]
  exact (List.map_congr_left fun byte _ ↦ UInt8.ofNat_toNat).trans (List.map_id bytes)

theorem byteDigits_ofNat {digits : List ℕ} (hdigits : ∀ digit ∈ digits, digit < 256) :
    byteDigits (digits.map UInt8.ofNat) = digits := by
  rw [byteDigits, List.map_map]
  refine (List.map_congr_left fun digit hdigit ↦ ?_).trans (List.map_id digits)
  rw [Function.comp_apply, UInt8.toNat_ofNat', Nat.mod_eq_of_lt (hdigits digit hdigit)]
  rfl

theorem encodeLoop_eq (bytes : List UInt8) (b58 : List ℕ) :
    encodeLoop bytes b58 =
      match mulAddAll 58 256 (byteDigits bytes) b58 with
      | some b58 => .ok b58
      | none => .error .carry := by
  induction bytes generalizing b58 with
  | nil => rfl
  | cons byte bytes ih =>
    rw [encodeLoop, byteDigits, List.map_cons, mulAddAll]
    dsimp only
    split_ifs with hcarry
    · exact ih _
    · rfl

/-- The zeros in front of the bytes are the zeros in front of their digits. -/
theorem takeWhile_byteDigits (bytes : List UInt8) :
    (byteDigits bytes).takeWhile (· = 0) = byteDigits (bytes.takeWhile (· = 0)) ∧
      (byteDigits bytes).dropWhile (· = 0) = byteDigits (bytes.dropWhile (· = 0)) := by
  have hzero : (fun digit : ℕ ↦ decide (digit = 0)) ∘ UInt8.toNat =
      fun byte ↦ decide (byte = 0) := by
    funext byte
    simp [← UInt8.toNat_inj]
  rw [byteDigits, List.takeWhile_map, List.dropWhile_map, hzero]
  exact ⟨rfl, rfl⟩

/-- No assertion fails, and the result is the numeral of the bytes in base 58. -/
theorem encodeBase58_eq (bytes : List UInt8) :
    encodeBase58 bytes =
      .ok ((compose 58 (decompose 256 (byteDigits bytes))).map symbol) := by
  obtain ⟨htake, hdrop⟩ := takeWhile_byteDigits bytes
  have hsize : 256 ^ (byteDigits (bytes.dropWhile (· = 0))).length ≤
      58 ^ ((bytes.dropWhile (· = 0)).length * 138 / 100 + 1) := by
    rw [byteDigits, List.length_map]
    exact pow_le_pow_of_ratio (by norm_num) (by norm_num) (by norm_num) _
  obtain ⟨b58, hloop, hdigits⟩ := changeBase (by norm_num) (by norm_num) (byteDigits_lt _) hsize
  have hvalue : Nat.ofDigits 256 (byteDigits (bytes.dropWhile (· = 0))).reverse =
      Nat.ofDigits 256 (byteDigits bytes).reverse := by
    rw [← hdrop, ofDigits_dropWhile_zero]
  have hzeroes : (byteDigits (bytes.takeWhile (· = 0))).length =
      (bytes.takeWhile (· = 0)).length := List.length_map ..
  rw [encodeBase58]
  simp only [encodeLoop_eq, hloop, bind, Except.bind, pure, Except.pure]
  rw [hdigits, hvalue, compose, decompose, htake, hzeroes, List.map_append, List.map_replicate]
  rfl

/-! ### Decoding -/

/-- The characters as digits. -/
def charDigits (run : List UInt8) : List ℕ := run.map index

theorem charDigits_lt {run : List UInt8} (hrun : ∀ char ∈ run, inAlphabet char) :
    ∀ digit ∈ charDigits run, digit < 58 := by
  intro digit hdigit
  obtain ⟨char, hchar, rfl⟩ := List.mem_map.mp hdigit
  exact (isDigit_of_inAlphabet (hrun char hchar)).lt

theorem symbol_charDigits {run : List UInt8} (hrun : ∀ char ∈ run, inAlphabet char) :
    (charDigits run).map symbol = run := by
  rw [charDigits, List.map_map]
  exact (List.map_congr_left fun char hchar ↦
    (isDigit_of_inAlphabet (hrun char hchar)).symbol_eq).trans (List.map_id run)

theorem charDigits_symbol {digits : List ℕ} (hdigits : ∀ digit ∈ digits, digit < 58) :
    charDigits (digits.map symbol) = digits := by
  rw [charDigits, List.map_map]
  exact (List.map_congr_left fun digit hdigit ↦
    (index_symbol (hdigits digit hdigit)).2).trans (List.map_id digits)

/-- The loop stops in front of this without returning false: at the end or at a space. -/
def endsRun : List UInt8 → Bool
  | [] => true
  | char :: _ => isSpace char

theorem dropWhile_isSpace_ne_nil {psz : List UInt8} (hends : ¬endsRun psz) :
    psz.dropWhile isSpace ≠ [] := by
  obtain _ | ⟨char, psz⟩ := psz
  · exact absurd rfl hends
  · have hspace : ¬isSpace char = true := hends
    rw [List.dropWhile_cons_of_neg hspace]
    exact List.cons_ne_nil _ _

/-- The loop takes the characters of the alphabet, and is content with a space behind them. -/
theorem decodeLoop_eq (psz : List UInt8) (b256 : List ℕ) :
    decodeLoop psz b256 =
      match mulAddAll 256 58 (charDigits (psz.takeWhile inAlphabet)) b256 with
      | none => .error .carry
      | some b256 =>
        .ok (if endsRun (psz.dropWhile inAlphabet) then some (b256, psz.dropWhile inAlphabet)
          else none) := by
  induction psz generalizing b256 with
  | nil => rfl
  | cons char psz ih =>
    by_cases hchar : inAlphabet char
    · have hdigit := isDigit_of_inAlphabet hchar
      rw [decodeLoop, hdigit.not_space, if_neg Bool.false_ne_true, hdigit.found,
        List.takeWhile_cons_of_pos hchar, List.dropWhile_cons_of_pos hchar, charDigits,
        List.map_cons, mulAddAll]
      dsimp only
      by_cases hcarry : (mulAdd 256 58 b256 (index char)).2 = 0
      · rw [if_pos hcarry, if_pos hcarry]
        exact ih _
      · rw [if_neg hcarry, if_neg hcarry]
    · rw [decodeLoop, List.takeWhile_cons_of_neg hchar, List.dropWhile_cons_of_neg hchar,
        idxOf?_eq_none hchar]
      simp only [charDigits, List.map_nil, mulAddAll]
      rw [show endsRun (char :: psz) = isSpace char from rfl]
      by_cases hspace : isSpace char
      · rw [if_pos hspace, if_pos hspace]
      · rw [if_neg hspace, if_neg hspace]

/-- The ones in front of a text are the zeros in front of its digits. -/
theorem takeWhile_charDigits {run : List UInt8} (hrun : ∀ char ∈ run, inAlphabet char) :
    (charDigits run).takeWhile (· = 0) = charDigits (run.takeWhile (· = '1'.toUInt8)) ∧
      (charDigits run).dropWhile (· = 0) = charDigits (run.dropWhile (· = '1'.toUInt8)) := by
  induction run with
  | nil => exact ⟨rfl, rfl⟩
  | cons char run ih =>
    have hzero := (isDigit_of_inAlphabet (hrun char List.mem_cons_self)).index_zero
    obtain ⟨htake, hdrop⟩ := ih fun other hother ↦ hrun other (List.mem_cons_of_mem _ hother)
    rw [charDigits, List.map_cons, ← charDigits]
    by_cases hone : char = '1'.toUInt8
    · rw [List.takeWhile_cons_of_pos (by simpa using hzero.mpr hone),
        List.takeWhile_cons_of_pos (by simpa using hone),
        List.dropWhile_cons_of_pos (by simpa using hzero.mpr hone),
        List.dropWhile_cons_of_pos (by simpa using hone), htake, hdrop]
      exact ⟨rfl, rfl⟩
    · rw [List.takeWhile_cons_of_neg (by simpa using hzero.not.mpr hone),
        List.takeWhile_cons_of_neg (by simpa using hone),
        List.dropWhile_cons_of_neg (by simpa using hzero.not.mpr hone),
        List.dropWhile_cons_of_neg (by simpa using hone)]
      exact ⟨rfl, rfl⟩

/-- The ones in front are characters of the alphabet. -/
theorem takeWhile_one (psz : List UInt8) :
    (psz.takeWhile inAlphabet).takeWhile (· = '1'.toUInt8) = psz.takeWhile (· = '1'.toUInt8) ∧
      (psz.takeWhile inAlphabet).dropWhile (· = '1'.toUInt8) =
        (psz.dropWhile (· = '1'.toUInt8)).takeWhile inAlphabet ∧
      psz.dropWhile inAlphabet = (psz.dropWhile (· = '1'.toUInt8)).dropWhile inAlphabet := by
  have hone : inAlphabet '1'.toUInt8 := by decide
  induction psz with
  | nil => exact ⟨rfl, rfl, rfl⟩
  | cons char psz ih =>
    obtain ⟨htake, hdrop, hrest⟩ := ih
    by_cases hchar : char = '1'.toUInt8
    · rw [hchar, List.takeWhile_cons_of_pos hone, List.dropWhile_cons_of_pos hone,
        List.takeWhile_cons_of_pos (by simp), List.dropWhile_cons_of_pos (by simp),
        List.takeWhile_cons_of_pos (by simp), List.dropWhile_cons_of_pos (by simp), htake]
      exact ⟨rfl, hdrop, hrest⟩
    · rw [List.takeWhile_cons_of_neg (p := fun char ↦ decide (char = '1'.toUInt8)) (by simpa),
        List.dropWhile_cons_of_neg (p := fun char ↦ decide (char = '1'.toUInt8)) (by simpa)]
      refine ⟨?_, ?_, rfl⟩
      · by_cases halphabet : inAlphabet char
        · rw [List.takeWhile_cons_of_pos halphabet, List.takeWhile_cons_of_neg (by simpa)]
        · rw [List.takeWhile_cons_of_neg halphabet]
          rfl
      · by_cases halphabet : inAlphabet char
        · rw [List.takeWhile_cons_of_pos halphabet, List.dropWhile_cons_of_neg (by simpa)]
        · rw [List.takeWhile_cons_of_neg halphabet]
          rfl

/-- The estimate `log(58) / log(256)`, in two parts. -/
theorem pow_58_le : 58 ^ 1000 ≤ 256 ^ 733 :=
  calc 58 ^ 1000 = (58 ^ 71) ^ 14 * 58 ^ 6 := by rw [← pow_mul, ← pow_add]
    _ ≤ (256 ^ 52) ^ 14 * 256 ^ 5 :=
      Nat.mul_le_mul (Nat.pow_le_pow_left (by norm_num) 14) (by norm_num)
    _ = 256 ^ 733 := by rw [← pow_mul, ← pow_add]

/-- The vector of `DecodeBase58` has room for the characters of the alphabet in front. -/
theorem decode_size (psz : List UInt8) :
    58 ^ (charDigits (psz.takeWhile inAlphabet)).length ≤
      256 ^ (psz.length * 733 / 1000 + 1) := by
  have hlength : (psz.takeWhile inAlphabet).length ≤ psz.length :=
    (List.takeWhile_sublist _).length_le
  rw [charDigits, List.length_map]
  exact (Nat.pow_le_pow_right (by norm_num) hlength).trans
    (pow_le_pow_of_ratio (by norm_num) (by norm_num) pow_58_le _)

/-- The characters that `DecodeBase58` decodes: those of the alphabet behind leading spaces. -/
def runOf (psz : List UInt8) : List UInt8 := (psz.dropWhile isSpace).takeWhile inAlphabet

/-- What is left behind them. -/
def restOf (psz : List UInt8) : List UInt8 := (psz.dropWhile isSpace).dropWhile inAlphabet

theorem inAlphabet_of_mem_runOf (psz : List UInt8) : ∀ char ∈ runOf psz, inAlphabet char :=
  fun _ hchar ↦ List.mem_takeWhile_imp hchar

/-- No assertion fails. When only spaces are left, the result is the numeral of the characters in
base 256. -/
theorem decodeBase58_eq (psz : CStr) :
    decodeBase58 psz =
      .ok (if (restOf psz.chars).dropWhile isSpace = [] then
        some ((compose 256 (decompose 58 (charDigits (runOf psz.chars)))).map UInt8.ofNat)
      else none) := by
  obtain ⟨hones, hbehind, hrest⟩ := takeWhile_one (psz.chars.dropWhile isSpace)
  obtain ⟨htake, hdrop⟩ := takeWhile_charDigits (inAlphabet_of_mem_runOf psz.chars)
  have hvalue : Nat.ofDigits 58 (charDigits (runOf psz.chars)).reverse = Nat.ofDigits 58
      (charDigits ((runOf psz.chars).dropWhile (· = '1'.toUInt8))).reverse := by
    rw [← hdrop, ofDigits_dropWhile_zero]
  have hzeroes : ((charDigits (runOf psz.chars)).takeWhile (· = 0)).length =
      ((runOf psz.chars).takeWhile (· = '1'.toUInt8)).length := by
    rw [htake, charDigits, List.length_map]
  rw [decodeBase58, restOf, hrest, decompose, hzeroes, hvalue, runOf, hones, hbehind]
  generalize psz.chars.dropWhile isSpace = body
  obtain ⟨b256, hloop, hdigits⟩ := changeBase (by norm_num) (by norm_num)
    (charDigits_lt fun _ hchar ↦ List.mem_takeWhile_imp hchar)
    (decode_size (body.dropWhile (· = '1'.toUInt8)))
  simp only [decodeLoop_eq, hloop, bind, Except.bind, pure, Except.pure]
  rw [compose, ← hdigits, List.map_append, List.map_replicate]
  generalize (body.dropWhile (· = '1'.toUInt8)).dropWhile inAlphabet = rest
  by_cases hends : endsRun rest
  · rw [if_pos hends]
    dsimp only
    by_cases hspaces : rest.dropWhile isSpace = []
    · rw [if_neg (not_not_intro hspaces), if_pos hspaces]
      rfl
    · rw [if_pos hspaces, if_neg hspaces]
  · rw [if_neg hends, if_neg (dropWhile_isSpace_ne_nil hends)]

end Exc.Base58
