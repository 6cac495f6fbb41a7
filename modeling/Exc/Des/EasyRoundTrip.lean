import Exc.Des.EasyDES
import Exc.Des.RoundTrip

/-!
# EasyDES decrypts its own text in mode 0 and never in mode 1

The padded text has as many bytes as the blocks that are encrypted, whatever the length of the text
(`length_padText`), so the blocks that come out of decryption are the padded text. In mode 0 the
padding is then taken off (`easy_decrypt_encrypt`). In mode 1 it stays, and a null byte is added to
it: what comes out is never the text (`easy_cbc_never`).
-/

set_option autoImplicit false
set_option relaxedAutoImplicit false

namespace Exc.Des.EasyDES

open Lib

/-! ### Bytes of a vector as a memory -/

theorem getD_append_zeros (bytes : List UInt8) (count a : ℕ) :
    (bytes ++ List.replicate count 0).getD a 0 = bytes.getD a 0 := by
  by_cases ha : a < bytes.length
  · rw [List.getD_append _ _ _ _ ha]
  · rw [List.getD_append_right _ _ _ _ (by omega), List.getD_eq_getElem?_getD,
      List.getElem?_getD_replicate_default_eq, List.getD_eq_default _ _ (by omega)]

theorem map_getD_range (bytes : List UInt8) (count : ℕ) :
    (List.range (bytes.length + count)).map (fun a ↦ bytes.getD a 0) =
      bytes ++ List.replicate count 0 := by
  refine List.ext_getElem (by simp) fun a hleft hright ↦ ?_
  rw [List.getElem_map, List.getElem_range, ← getD_append_zeros bytes count,
    List.getD_eq_getElem _ _ hright]

theorem getD_map_range {memory : Memory} {size : ℕ} (hzero : ∀ a, size ≤ a → memory a = 0) :
    (fun a ↦ ((List.range size).map memory).getD a 0) = memory := by
  funext a
  by_cases ha : a < size
  · simp [List.getD_eq_getElem?_getD, ha]
  · rw [List.getD_eq_default _ _ (by simpa using ha), hzero a (by omega)]

variable {w : ℕ}

/-- The vector that was encrypted comes out of decryption, with the zeros that were added. -/
theorem onVector_onVector (hwidth : 32 ≤ w) (key : Block) {blocks : ℤ} (mode : ℤ)
    {result : List UInt8} (hfits : 8 * blocks.toNat ≤ result.length) :
    ∃ encrypted, onVector (Des.encrypt w key (some 0) blocks mode) blocks result =
        some encrypted ∧
      encrypted.length = result.length ∧
      (1 ≤ blocks → ∀ count, onVector (Des.decrypt w key (some 0) blocks mode) blocks
        (encrypted ++ List.replicate count 0) = some (result ++ List.replicate count 0)) := by
  refine ⟨_, if_pos hfits, by simp, fun hblocks count ↦ ?_⟩
  rw [onVector, if_pos (by simp; omega)]
  simp only [getD_append_zeros]
  rw [getD_map_range]
  · rw [decrypt_undoes_encrypt hwidth key 0 hblocks, List.length_append, List.length_replicate,
      List.length_map, List.length_range, map_getD_range]
  · intro a ha
    rw [encrypt_outside w key 0 blocks mode _ (Or.inr (by omega))]
    exact List.getD_eq_default _ _ ha

/-! ### Padding -/

/-- The number of zeros is a digit. -/
theorem additiveSize_bounds (textLength : ℕ) :
    1 ≤ additiveSize textLength ∧ additiveSize textLength ≤ 8 ∧
      textLength + additiveSize textLength = extendSize textLength := by
  simp only [additiveSize, extendSize]
  omega

theorem extendSize_pos (textLength : ℕ) : 0 < extendSize textLength := by
  rw [extendSize]
  omega

theorem length_padText (text : List UInt8) :
    (padText text (text.length + 1)).length = extendSize (text.length + 1) := by
  obtain ⟨-, -, hsize⟩ := additiveSize_bounds (text.length + 1)
  simp only [padText, List.length_append, List.length_replicate, List.length_singleton]
  omega

theorem removePadding_padText (text : List UInt8) :
    removePadding (padText text (text.length + 1)) [] = text := by
  obtain ⟨-, hdigit, hsize⟩ := additiveSize_bounds (text.length + 1)
  have hlength := length_padText text
  have hlast : ((padText text (text.length + 1)).getLastD 0).toInt8.toInt - '0'.toNat + 1 =
      (additiveSize (text.length + 1) + 1 : ℕ) := by
    have hdigits : ∀ count ≤ 8, (UInt8.ofNat ('0'.toNat + count)).toInt8.toInt - '0'.toNat + 1 =
        (count + 1 : ℕ) := by decide
    rw [padText, List.getLastD_concat]
    exact hdigits _ hdigit
  simp only [removePadding, hlast, Int.toNat_natCast]
  split_ifs with hlt
  · rw [hlength, show extendSize (text.length + 1) - (additiveSize (text.length + 1) + 1) =
      text.length by omega, padText, List.append_assoc, List.take_left]
  · have hempty : text.length = 0 := by omega
    exact (List.length_eq_zero_iff.mp hempty).symm

/-! ### Decryption of the encrypted text -/

theorem readBytes_append (bytes rest : List UInt8) :
    readBytes (bytes ++ rest) bytes.length = some bytes := by
  rw [readBytes, if_pos (by simp), List.take_left]

/-- `clearText` points to the bytes of a text and `clearTextLen` says how many they are, or is 0 and
they are a null-terminated string. -/
def IsPassed (text clearText : List UInt8) (clearTextLen : ℤ) : Prop :=
  (text ≠ [] ∧ text <+: clearText ∧ clearTextLen = text.length) ∨
    (0 ∉ text ∧ text ++ [0] <+: clearText ∧ clearTextLen = 0)

theorem IsPassed.textLength_eq {text clearText : List UInt8} {clearTextLen : ℤ}
    (h : IsPassed text clearText clearTextLen) (hint : clearTextLen < intMax) :
    textLength clearText clearTextLen = some (text.length + 1) ∧
      readBytes clearText text.length = some text := by
  rcases h with ⟨hne, ⟨rest, rfl⟩, rfl⟩ | ⟨hclean, ⟨rest, rfl⟩, rfl⟩
  · have hpos : 0 < text.length := List.length_pos_iff.mpr hne
    refine ⟨?_, readBytes_append text rest⟩
    rw [textLength, if_neg (by omega), if_pos ⟨by omega, hint⟩, Int.toNat_natCast]
  · refine ⟨?_, by rw [List.append_assoc, readBytes_append]⟩
    have hstring : cstring (text ++ [0] ++ rest) = text := by
      rw [cstring, List.append_assoc, List.takeWhile_append_of_pos (ne_zero_of_clean hclean)]
      simp
    rw [textLength, if_pos rfl, strlen, if_pos (by simp), hstring]
    rfl

theorem keyBlock_setKey {key : List UInt8} (hkey : 8 ≤ (cstring key).length) :
    ∃ block, keyBlock (setKey key) = some block :=
  ⟨_, if_pos (by rw [setKey]; omega)⟩

/-- The number of blocks is never larger than the vector. -/
theorem blocks_le (size : ℕ) : 8 * ((toInt size).tdiv 8).toNat ≤ size := by
  have hle : toInt size ≤ size := by
    rw [toInt, Int.bmod_def]
    split_ifs <;> omega
  rcases Int.le_total 0 (toInt size) with hpos | hneg
  · rw [Int.tdiv_eq_ediv_of_nonneg hpos]
    omega
  · have hzero : (toInt size).tdiv 8 ≤ 0 := by
      rw [← Int.neg_neg (toInt size), Int.neg_tdiv, Int.tdiv_eq_ediv_of_nonneg (by omega)]
      omega
    omega

/-- Encryption and decryption count the same blocks. -/
theorem blocks_eq {textLength : ℕ} (hint : (extendSize textLength : ℤ) ≤ intMax) :
    (toInt (extendSize textLength)).tdiv 8 = textLength / 8 + 1 ∧
      (toInt (extendSize textLength - 1 : ℕ)).tdiv 8 + 1 = textLength / 8 + 1 := by
  have hsize : extendSize textLength = (textLength / 8 + 1) * 8 := rfl
  rw [intMax] at hint
  rw [toInt_eq_self (by omega) (by omega), toInt_eq_self (by omega) (by omega),
    Int.tdiv_eq_ediv_of_nonneg (by omega), Int.tdiv_eq_ediv_of_nonneg (by omega)]
  omega

theorem resized_eq {textLength : ℕ} (hint : (extendSize textLength : ℤ) ≤ intMax) :
    (0 ≤ ((textLength / 8 + 1 : ℤ) * 8 + 1) ∧ (textLength / 8 + 1 : ℤ) * 8 + 1 ≤ intMax) ∧
      ((textLength / 8 + 1 : ℤ) * 8 + 1).toNat = extendSize textLength + 1 := by
  have hsize : extendSize textLength = (textLength / 8 + 1) * 8 := rfl
  rw [intMax] at hint ⊢
  omega

section Calls

variable {mKey code text clearText encrypted result : List UInt8} {clearTextLen codeLen mode : ℤ}
  {block : Block}

/-- A call of `encrypt` for raw output. -/
theorem encrypt_eq {length : ℕ} (hlength : textLength clearText clearTextLen = some (length + 1))
    (htext : readBytes clearText length = some text) (hblock : keyBlock mKey = some block)
    (hencrypted : onVector
      (Des.encrypt w block (some 0) ((toInt (extendSize (length + 1))).tdiv 8) mode)
      ((toInt (extendSize (length + 1))).tdiv 8) (padText text (length + 1)) = some encrypted) :
    encrypt w mKey clearText [] 1 clearTextLen mode = some encrypted := by
  refine Option.bind_eq_some_iff.mpr ⟨length + 1, hlength, ?_⟩
  refine Option.bind_eq_some_iff.mpr ⟨text, htext, ?_⟩
  refine Option.bind_eq_some_iff.mpr ⟨block, hblock, ?_⟩
  exact Option.bind_eq_some_iff.mpr ⟨encrypted, hencrypted, if_neg one_ne_zero⟩

/-- A call of `decrypt` for raw input. -/
theorem decrypt_eq {third : UInt8} (hpos : 0 < encrypted.length)
    (hcodeLen : codeLen = encrypted.length) (hblock : keyBlock mKey = some block)
    (hresult : decryptVector w block encrypted clearText mode = some result) :
    decrypt w third mKey (encrypted ++ [0]) clearText 1 codeLen mode = some result := by
  have hcount : (0 : ℤ) < encrypted.length := Int.natCast_pos.mpr hpos
  have hlen : codeLength (encrypted ++ [0]) codeLen = some encrypted.length := by
    rw [codeLength, hcodeLen, if_neg hcount.ne', if_pos hcount, Int.toNat_natCast]
  have hread : readCode third (encrypted ++ [0]) 1 encrypted.length = some encrypted := by
    rw [readCode, if_neg one_ne_zero, readBytes_append]
  refine Option.bind_eq_some_iff.mpr ⟨encrypted.length, hlen, ?_⟩
  rw [if_neg hpos.ne']
  refine Option.bind_eq_some_iff.mpr ⟨encrypted, hread, ?_⟩
  exact Option.bind_eq_some_iff.mpr ⟨block, hblock, hresult⟩

/-- What `decrypt` makes of blocks that decrypt to a padded text. -/
theorem decryptVector_eq {textLength : ℕ} (hint : (extendSize textLength : ℤ) ≤ intMax)
    (hsize : encrypted.length = extendSize textLength)
    (hdecrypted : ∀ count, onVector (Des.decrypt w block (some 0) (textLength / 8 + 1) mode)
      (textLength / 8 + 1) (encrypted ++ List.replicate count 0) =
        some (result ++ List.replicate count 0)) :
    decryptVector w block encrypted clearText mode =
      some (if mode = 1 then result ++ [0] else removePadding result clearText) := by
  obtain ⟨-, hblocks⟩ := blocks_eq hint
  obtain ⟨hfits, hresized⟩ := resized_eq hint
  rw [← hsize] at hblocks hresized
  simp only [decryptVector, hblocks]
  split_ifs with hmode
  · have hzero : resize encrypted (encrypted.length + 1) = encrypted ++ List.replicate 1 0 := by
      rw [resize, List.take_of_length_le (Nat.le_succ _), Nat.add_sub_cancel_left]
    rw [hresized, hzero]
    exact hdecrypted 1
  · have hplain := hdecrypted 0
    rw [List.replicate_zero, List.append_nil, List.append_nil] at hplain
    rw [hplain]
    rfl

end Calls

/-- What `encrypt` writes has the length of the padded text, and what `decrypt` makes of it is the
padded text with a null byte in mode 1, and otherwise the text without its padding. -/
theorem encrypt_spec (hwidth : 32 ≤ w) {key text clearText : List UInt8} {clearTextLen : ℤ}
    (hkey : 8 ≤ (cstring key).length) (hpassed : IsPassed text clearText clearTextLen)
    (hint : clearTextLen < intMax) (mode : ℤ) :
    ∃ encrypted, encrypt w (setKey key) clearText [] 1 clearTextLen mode = some encrypted ∧
      encrypted.length = extendSize (text.length + 1) ∧
      ∀ (third : UInt8) (old : List UInt8) (codeLen : ℤ), codeLen ≤ intMax →
        codeLen = encrypted.length →
        decrypt w third (setKey key) (encrypted ++ [0]) old 1 codeLen mode =
          some (if mode = 1 then padText text (text.length + 1) ++ [0]
            else removePadding (padText text (text.length + 1)) old) := by
  obtain ⟨hlength, htext⟩ := hpassed.textLength_eq hint
  obtain ⟨block, hblock⟩ := keyBlock_setKey hkey
  have hpadded := length_padText text
  have hfits : 8 * ((toInt (extendSize (text.length + 1))).tdiv 8).toNat ≤
      (padText text (text.length + 1)).length := by
    rw [hpadded]
    exact blocks_le _
  obtain ⟨encrypted, hencrypted, hsize, hdecrypted⟩ := onVector_onVector hwidth block mode hfits
  rw [hpadded] at hsize
  refine ⟨encrypted, encrypt_eq hlength htext hblock hencrypted, hsize, ?_⟩
  intro third old codeLen hcodeLen hequal
  rw [hequal, hsize] at hcodeLen
  have hpos : 0 < encrypted.length := by
    rw [hsize]
    exact extendSize_pos _
  refine decrypt_eq hpos hequal hblock ?_
  rw [(blocks_eq hcodeLen).1] at hdecrypted
  exact decryptVector_eq hcodeLen hsize (hdecrypted (by omega))

/-- The raw round trip in mode 0. `codeLen` is an `int`. -/
theorem easy_decrypt_encrypt (hwidth : w = 32 ∨ w = 64) {key text clearText : List UInt8}
    {clearTextLen : ℤ} (hkey : 8 ≤ (cstring key).length)
    (hpassed : IsPassed text clearText clearTextLen) (hint : clearTextLen < intMax) :
    ∃ encrypted, encrypt w (setKey key) clearText [] 1 clearTextLen 0 = some encrypted ∧
      8 ∣ encrypted.length ∧ text.length < encrypted.length ∧
      ∀ (third : UInt8) (codeLen : ℤ), codeLen ≤ intMax → codeLen = encrypted.length →
        decrypt w third (setKey key) (encrypted ++ [0]) [] 1 codeLen 0 = some text := by
  have hwide : 32 ≤ w := by omega
  obtain ⟨encrypted, hencrypt, hsize, hdecrypt⟩ := encrypt_spec hwide hkey hpassed hint 0
  have hextend : extendSize (text.length + 1) = ((text.length + 1) / 8 + 1) * 8 := rfl
  refine ⟨encrypted, hencrypt, by omega, by omega, fun third codeLen hcodeLen hequal ↦ ?_⟩
  rw [hdecrypt third [] codeLen hcodeLen hequal, if_neg zero_ne_one, removePadding_padText]

/-- A text with a null byte in it, of three bytes. -/
theorem easy_decrypt_encrypt_three :
    ∃ encrypted, encrypt 64 (setKey (chars "12345678" ++ [0])) [104, 0, 105] [] 1 3 0 =
        some encrypted ∧ 8 ∣ encrypted.length ∧ 3 < encrypted.length ∧
      ∀ (third : UInt8) (codeLen : ℤ), codeLen ≤ intMax → codeLen = encrypted.length →
        decrypt 64 third (setKey (chars "12345678" ++ [0])) (encrypted ++ [0]) [] 1 codeLen 0 =
          some [104, 0, 105] :=
  easy_decrypt_encrypt (Or.inr rfl) (by decide)
    (Or.inl ⟨by decide, List.prefix_rfl, rfl⟩) (by decide)

/-- A text is passed to `encrypt` only if `clearTextLen + 1` is an `int`. -/
theorem encrypt_overflow {mKey clearText old : List UInt8} {clearTextLen : ℤ} (outType mode : ℤ)
    (hlarge : intMax ≤ clearTextLen) :
    encrypt w mKey clearText old outType clearTextLen mode = none := by
  have hpos : 0 < clearTextLen := by
    rw [intMax] at hlarge
    omega
  have hnone : textLength clearText clearTextLen = none := by
    rw [textLength, if_neg hpos.ne', if_neg (by omega)]
  rw [encrypt, hnone]
  rfl

/-- In mode 1 what `decrypt` makes of the output of `encrypt` is never the text. -/
theorem easy_cbc_never (hwidth : w = 32 ∨ w = 64) {key text clearText : List UInt8}
    {clearTextLen : ℤ} (hkey : 8 ≤ (cstring key).length)
    (hpassed : IsPassed text clearText clearTextLen) (third : UInt8) (old : List UInt8) :
    ¬∃ encrypted, encrypt w (setKey key) clearText [] 1 clearTextLen 1 = some encrypted ∧
      ∃ codeLen ≤ intMax, codeLen = encrypted.length ∧
        decrypt w third (setKey key) (encrypted ++ [0]) old 1 codeLen 1 = some text := by
  have hwide : 32 ≤ w := by omega
  rintro ⟨encrypted, hencrypted, codeLen, hcodeLen, hequal, hsame⟩
  rcases Int.lt_or_le clearTextLen intMax with hint | hlarge
  · obtain ⟨result, hencrypt, hsize, hdecrypt⟩ := encrypt_spec hwide hkey hpassed hint 1
    obtain rfl : result = encrypted := Option.some.inj (hencrypt.symm.trans hencrypted)
    rw [hdecrypt third old codeLen hcodeLen hequal, if_pos rfl] at hsame
    have hlengths := congrArg List.length (Option.some.inj hsame)
    obtain ⟨-, -, hextend⟩ := additiveSize_bounds (text.length + 1)
    rw [List.length_append, length_padText, List.length_singleton] at hlengths
    omega
  · rw [encrypt_overflow 1 1 hlarge] at hencrypted
    cases hencrypted

/-- The letter a. -/
theorem easy_cbc_never_letter :
    ¬∃ encrypted, encrypt 64 (setKey (chars "12345678" ++ [0])) [97, 0] [] 1 0 1 =
        some encrypted ∧
      ∃ codeLen ≤ intMax, codeLen = encrypted.length ∧
        decrypt 64 0 (setKey (chars "12345678" ++ [0])) (encrypted ++ [0]) [] 1 codeLen 1 =
          some [97] := by
  have hpassed : IsPassed [97] [97, 0] 0 := Or.inr ⟨by decide, List.prefix_rfl, rfl⟩
  exact easy_cbc_never (Or.inr rfl) (by decide) hpassed 0 []

/-- The letter a comes back with six zeros, the digit 6 and a null byte. -/
theorem easy_cbc_keeps_padding :
    ∃ encrypted, encrypt 64 (setKey (chars "12345678" ++ [0])) [97, 0] [] 1 0 1 =
        some encrypted ∧ encrypted.length = 8 ∧
      decrypt 64 0 (setKey (chars "12345678" ++ [0])) (encrypted ++ [0]) [] 1 8 1 =
        some [97, 0, 0, 0, 0, 0, 0, 54, 0] ∧
      decrypt 64 0 (setKey (chars "12345678" ++ [0])) (encrypted ++ [0]) [] 1 8 1 ≠ some [97] := by
  have hpassed : IsPassed [97] [97, 0] 0 := Or.inr ⟨by decide, List.prefix_rfl, rfl⟩
  obtain ⟨encrypted, hencrypt, hsize, hdecrypt⟩ := encrypt_spec (w := 64) (by decide)
    (show 8 ≤ (cstring (chars "12345678" ++ [0])).length by decide) hpassed (by decide) 1
  have hresult := hdecrypt 0 [] 8 (by decide) (by rw [hsize]; rfl)
  rw [if_pos rfl] at hresult
  refine ⟨encrypted, hencrypt, hsize, hresult, ?_⟩
  rw [hresult]
  decide

end Exc.Des.EasyDES
