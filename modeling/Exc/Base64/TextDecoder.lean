import Exc.Base64.Decoding

/-!
# The decoder for a text

The other `ZBase64::Decode`, for a `const char *`. It takes four characters at a time, looks each
one up in the alphabet and writes up to three bytes with `strDecode[j++]`. But `strDecode` is empty
and never grows, so the first of these writes is behind its end. Only the empty text is decoded
(`decodeText_encode_iff`).

The values are right as long as the text has one line: in a string that is large enough they would
be the encoded bytes (`textLoop_sized`). A line break would move the groups of four.
-/

set_option autoImplicit false
set_option relaxedAutoImplicit false

namespace Exc.Base64

/-- Undefined behaviour: a read behind the text, or a write behind the string. -/
inductive TextFault
  | behindText
  | behindString
  deriving DecidableEq

/-- The loop that looks a character up; all of the alphabet is compared. -/
def search (char : UInt8) : UInt8 :=
  (List.range 64).foldl (fun temp k ↦ if encodeChar k = char then UInt8.ofNat k else temp) 0xFF

/-- `strDecode[j] = value`. -/
def store (strDecode : List UInt8) (j : ℕ) (value : UInt8) : Except TextFault (List UInt8) :=
  if j < strDecode.length then .ok (strDecode.set j value) else .error .behindString

/-- The three bytes of a group, from the values of two neighbours each. -/
def topByte (temp0 temp1 : UInt8) : UInt8 :=
  (temp0 <<< (2 : UInt8) &&& (0xFC : UInt8)) ||| (temp1 >>> (4 : UInt8) &&& (0x03 : UInt8))

def middleByte (temp1 temp2 : UInt8) : UInt8 :=
  (temp1 <<< (4 : UInt8) &&& (0xF0 : UInt8)) ||| (temp2 >>> (2 : UInt8) &&& (0x0F : UInt8))

def lowByte (temp2 temp3 : UInt8) : UInt8 :=
  (temp2 <<< (6 : UInt8) &&& (0xF0 : UInt8)) ||| (temp3 &&& (0x3F : UInt8))

/-- The loop of `ZBase64::Decode`, over the memory from `base64 + i` on, which ends with the null
byte of the text. -/
def textLoop (strDecode : List UInt8) (j : ℕ) : List UInt8 → Except TextFault (List UInt8)
  | base64_0 :: base64_1 :: base64_2 :: base64_3 :: rest =>
    if base64_0 = 0 then .ok strDecode
    else do
      let temp0 := search base64_0
      let temp1 := search base64_1
      let temp2 := search base64_2
      let temp3 := search base64_3
      let strDecode ← store strDecode j (topByte temp0 temp1)
      if base64_2 = padding then pure strDecode
      else
        let strDecode ← store strDecode (j + 1) (middleByte temp1 temp2)
        if base64_3 = padding then pure strDecode
        else
          let strDecode ← store strDecode (j + 2) (lowByte temp2 temp3)
          textLoop strDecode (j + 3) rest
  | base64_0 :: _ => if base64_0 = 0 then .ok strDecode else .error .behindText
  | [] => .error .behindText

/-- `ZBase64::Decode(const char *)`, for the memory that can be read from the pointer on. -/
def decodeText (base64 : List UInt8) : Except TextFault (List UInt8) := textLoop [] 0 base64

/-! ### What is written -/

/-- The loop over the first characters of the alphabet. By induction on their number. -/
theorem search_range {index count : ℕ} (hindex : index < 64) (hcount : count ≤ 64) :
    (List.range count).foldl (fun temp k ↦ if encodeChar k = encodeChar index then UInt8.ofNat k
      else temp) 0xFF = if index < count then UInt8.ofNat index else 0xFF := by
  induction count with
  | zero => rfl
  | succ count ih =>
    rw [List.range_succ, List.foldl_append, List.foldl_cons, List.foldl_nil, ih (by omega)]
    by_cases hfound : count = index
    · rw [if_pos (congrArg encodeChar hfound), if_pos (by omega), hfound]
    · have hne : encodeChar count ≠ encodeChar index := fun heq ↦
        hfound (encodeChar_inj (by omega) hindex heq)
      have hlt : index < count ↔ index < count + 1 := by omega
      rw [if_neg hne]
      simp only [hlt]

theorem search_encodeChar {index : ℕ} (hindex : index < 64) :
    search (encodeChar index) = UInt8.ofNat index := by
  rw [search, search_range hindex le_rfl, if_pos hindex]

theorem encodeChar_ne_zero {index : ℕ} (hindex : index < 64) : encodeChar index ≠ 0 := fun hzero ↦
  encodeChar_notMem hindex (hzero ▸ List.mem_cons_self)

/-- The parts of the values that go into the bytes. -/
theorem parts_eq {value : ℕ} (hvalue : value < 64) :
    (UInt8.ofNat value <<< 2) &&& 0xFC = UInt8.ofNat (4 * value) ∧
      (UInt8.ofNat value >>> 4) &&& 0x03 = UInt8.ofNat (value / 16) ∧
      (UInt8.ofNat value <<< 4) &&& 0xF0 = UInt8.ofNat (16 * (value % 16)) ∧
      (UInt8.ofNat value >>> 2) &&& 0x0F = UInt8.ofNat (value / 4) ∧
      (UInt8.ofNat value <<< 6) &&& 0xF0 = UInt8.ofNat (64 * (value % 4)) ∧
      UInt8.ofNat value &&& 0x3F = UInt8.ofNat value := by
  revert value
  decide +kernel

/-- The bits of two parts, as bytes. -/
theorem ofNat_or {low : ℕ} (shift high : ℕ) (hlow : low < 2 ^ shift) :
    UInt8.ofNat (2 ^ shift * high) ||| UInt8.ofNat low = UInt8.ofNat (2 ^ shift * high + low) := by
  rw [← UInt8.ofNat_or, Nat.two_pow_add_eq_or_of_lt hlow]

section Group

variable {first second third fourth : ℕ} (hfirst : first < 64) (hsecond : second < 64)
  (hthird : third < 64) (hfourth : fourth < 64)

include hfirst hsecond in
theorem topByte_eq : topByte (UInt8.ofNat first) (UInt8.ofNat second) =
    UInt8.ofNat (4 * first + second / 16) := by
  rw [topByte, (parts_eq hfirst).1, (parts_eq hsecond).2.1]
  exact ofNat_or 2 first (by omega)

include hsecond hthird in
theorem middleByte_eq : middleByte (UInt8.ofNat second) (UInt8.ofNat third) =
    UInt8.ofNat (16 * (second % 16) + third / 4) := by
  rw [middleByte, (parts_eq hsecond).2.2.1, (parts_eq hthird).2.2.2.1]
  exact ofNat_or 4 (second % 16) (by omega)

include hthird hfourth in
theorem lowByte_eq : lowByte (UInt8.ofNat third) (UInt8.ofNat fourth) =
    UInt8.ofNat (64 * (third % 4) + fourth) := by
  rw [lowByte, (parts_eq hthird).2.2.2.2.1, (parts_eq hfourth).2.2.2.2.2]
  exact ofNat_or 6 (third % 4) (by omega)

end Group

theorem store_append (front rest : List UInt8) (old value : UInt8) :
    store (front ++ old :: rest) front.length value = .ok (front ++ value :: rest) := by
  rw [store, if_pos (by simp), List.set_append_right _ _ le_rfl, Nat.sub_self, List.set_cons_zero]

/-! ### In a string that is large enough -/

/-- The first byte of a group. -/
theorem topByte_search (tmp1 : UInt8) {low : ℕ} (hlow : low < 16) :
    topByte (search (encodeChar (tmp1.toNat / 4)))
        (search (encodeChar (tmp1.toNat % 4 * 16 + low))) = tmp1 := by
  have hlt := tmp1.toNat_lt
  rw [search_encodeChar (by omega), search_encodeChar (by omega),
    topByte_eq (by omega) (by omega)]
  exact ofNat_eq tmp1 (by omega)

/-- The second byte of a group. -/
theorem middleByte_search (tmp2 : UInt8) {high low : ℕ} (hhigh : high < 4) (hlow : low < 4) :
    middleByte (search (encodeChar (high * 16 + tmp2.toNat / 16)))
        (search (encodeChar (tmp2.toNat % 16 * 4 + low))) = tmp2 := by
  have hlt := tmp2.toNat_lt
  rw [search_encodeChar (by omega), search_encodeChar (by omega),
    middleByte_eq (by omega) (by omega)]
  exact ofNat_eq tmp2 (by omega)

/-- The third byte of a group. -/
theorem lowByte_search (tmp3 : UInt8) {high : ℕ} (hhigh : high < 16) :
    lowByte (search (encodeChar (high * 4 + tmp3.toNat / 64)))
        (search (encodeChar (tmp3.toNat % 64))) = tmp3 := by
  have hlt := tmp3.toNat_lt
  rw [search_encodeChar (by omega), search_encodeChar (by omega), lowByte_eq (by omega) (by omega)]
  exact ofNat_eq tmp3 (by omega)

section Sized

variable (front : List UInt8) (tmp1 tmp2 tmp3 : UInt8)

theorem store_second (rest : List UInt8) (value : UInt8) :
    store (front ++ tmp1 :: 0 :: rest) (front.length + 1) value =
      .ok (front ++ tmp1 :: value :: rest) := by
  have hstore := store_append (front ++ [tmp1]) rest 0 value
  rwa [List.length_append, List.append_assoc, List.append_assoc] at hstore

theorem store_third (rest : List UInt8) (value : UInt8) :
    store (front ++ tmp1 :: tmp2 :: 0 :: rest) (front.length + 2) value =
      .ok (front ++ tmp1 :: tmp2 :: value :: rest) := by
  have hstore := store_append (front ++ [tmp1, tmp2]) rest 0 value
  rwa [List.length_append, List.append_assoc, List.append_assoc] at hstore

theorem textLoop_one (rest : List UInt8) :
    textLoop (front ++ [0]) front.length (encodeTail [tmp1] ++ rest) = .ok (front ++ [tmp1]) := by
  have hfirst := tmp1.toNat_lt
  have htop := topByte_search tmp1 (show 0 < 16 by omega)
  rw [encodeTail_one]
  simp only [List.cons_append, List.nil_append, textLoop]
  rw [add_zero] at htop
  rw [if_neg (encodeChar_ne_zero (by omega)), htop, store_append]
  rfl

theorem textLoop_two (rest : List UInt8) :
    textLoop (front ++ [0, 0]) front.length (encodeTail [tmp1, tmp2] ++ rest) =
      .ok (front ++ [tmp1, tmp2]) := by
  have hfirst := tmp1.toNat_lt
  have hsecond := tmp2.toNat_lt
  have hmiddle := middleByte_search tmp2 (show tmp1.toNat % 4 < 4 by omega)
    (show 0 < 4 by omega)
  rw [add_zero] at hmiddle
  rw [encodeTail_two]
  simp only [List.cons_append, List.nil_append, textLoop]
  rw [if_neg (encodeChar_ne_zero (by omega)), topByte_search tmp1 (by omega), hmiddle,
    store_append]
  simp only [bind, Except.bind]
  rw [if_neg (encodeChar_ne (by omega)).1, store_second]
  rfl

theorem textLoop_group (zeros rest : List UInt8) :
    textLoop (front ++ 0 :: 0 :: 0 :: zeros) front.length (encodeGroup tmp1 tmp2 tmp3 ++ rest) =
      textLoop (front ++ tmp1 :: tmp2 :: tmp3 :: zeros) (front.length + 3) rest := by
  have hfirst := tmp1.toNat_lt
  have hsecond := tmp2.toNat_lt
  have hthird := tmp3.toNat_lt
  rw [encodeGroup_eq]
  simp only [List.cons_append, List.nil_append, textLoop]
  rw [if_neg (encodeChar_ne_zero (by omega)), topByte_search tmp1 (by omega),
    middleByte_search tmp2 (by omega) (by omega), lowByte_search tmp3 (by omega), store_append]
  simp only [bind, Except.bind]
  rw [if_neg (encodeChar_ne (by omega)).1, store_second]
  dsimp only
  rw [if_neg (encodeChar_ne (by omega)).1, store_third]

end Sized

/-- A text of one line is decoded in a string that is as long as the data. -/
theorem textLoop_sized (data : List UInt8) {lineLength : ℕ}
    (hline : lineLength + 4 * (data.length / 3) < 76) (front : List UInt8) :
    textLoop (front ++ List.replicate data.length 0) front.length
      (encodeLoop data lineLength ++ [0]) = .ok (front ++ data) := by
  match data with
  | [] =>
    rw [show encodeLoop [] lineLength = [] from rfl, List.nil_append, textLoop, if_pos rfl]
    · rfl
    · simp
  | [tmp1] => exact textLoop_one front tmp1 [0]
  | [tmp1, tmp2] => exact textLoop_two front tmp1 tmp2 [0]
  | tmp1 :: tmp2 :: tmp3 :: data =>
    simp only [List.length_cons] at hline
    have hnext := textLoop_sized data (show lineLength + 4 + 4 * (data.length / 3) < 76 by omega)
      (front ++ [tmp1, tmp2, tmp3])
    rw [List.append_assoc, List.append_assoc, List.length_append] at hnext
    rw [encodeLoop, if_neg (by omega), List.append_assoc]
    exact (textLoop_group front tmp1 tmp2 tmp3 _ _).trans hnext

/-! ### In the empty string -/

/-- The first byte is written behind the end. -/
theorem decodeText_cons (byte : UInt8) (data : List UInt8) :
    decodeText (encode (byte :: data) ++ [0]) = .error .behindString := by
  have hbyte := byte.toNat_lt
  obtain ⟨second, third, fourth, text, htext⟩ := encode_cons byte data
  rw [htext, decodeText]
  simp only [List.cons_append, textLoop]
  rw [if_neg (encodeChar_ne_zero (by omega))]
  rfl

/-- `ZBase64::Decode(const char *)` undoes `ZBase64::Encode` for the empty text only. -/
theorem decodeText_encode_iff (data : List UInt8) :
    decodeText (encode data ++ [0]) = .ok data ↔ data = [] := by
  refine ⟨fun hdecode ↦ ?_, fun hdata ↦ ?_⟩
  · obtain _ | ⟨byte, data⟩ := data
    · rfl
    · rw [decodeText_cons] at hdecode
      cases hdecode
  · rw [hdata]
    rfl

/-- The text `YQ==` of the letter a: its byte is written behind the empty string. -/
theorem not_decodeText_encode :
    decodeText (encode [97] ++ [0]) = .error .behindString ∧
      ¬∀ data, decodeText (encode data ++ [0]) = .ok data := by
  have hbehind : decodeText (encode [97] ++ [0]) = .error .behindString := decodeText_cons 97 []
  refine ⟨hbehind, fun hall ↦ ?_⟩
  have hletter := hall [97]
  rw [hbehind] at hletter
  cases hletter

end Exc.Base64
