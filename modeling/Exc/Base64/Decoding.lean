import Exc.Base64.Encoding
import Exc.Lib.Refinement

/-!
# The decoder and its table

The loop of `ZBase64::Decode` undoes `ZBase64::Encode`, with its line breaks and its padding, for
any table that inverts the alphabet (`decodeWith_encode`). The table of the source does not: it has
111 entries instead of 123, so that the entries are shifted against the characters that its comments
name, and no character of the alphabet is decoded as what it stands for (`decodeTable_ne`). So
nothing but the empty text is decoded as it was encoded (`decode_encode_iff`).
-/

set_option autoImplicit false
set_option relaxedAutoImplicit false

namespace Exc.Base64

open Lib

/-- The table gives each character of the alphabet its index. -/
def Inverts (table : List ℕ) : Prop :=
  ∀ index < 64, table[(encodeChar index).toNat]? = some index

/-- The positions in the alphabet do. -/
example : Inverts ((List.range 123).map fun char ↦
    ((List.range 64).map Rfc4648.alphabet).idxOf (UInt8.ofNat char)) := by
  intro index hindex
  rw [encodeChar_eq hindex]
  revert index
  decide +kernel

variable {table : List ℕ}

/-! ### One group -/

theorem lookup_encodeChar (h : Inverts table) {index : ℕ} (hindex : index < 64)
    (data strDecode : List UInt8) (outByte : ℤ) :
    Decoder.lookup table ⟨encodeChar index :: data, strDecode, outByte⟩ =
      .ok (index, ⟨data, strDecode, outByte⟩) := by
  simp only [Decoder.lookup, h index hindex]

theorem encodeChar_notMem {index : ℕ} (hindex : index < 64) :
    encodeChar index ∉ [0, padding, carriageReturn, lineFeed] := by
  rw [encodeChar_eq hindex]
  revert index
  decide +kernel

theorem encodeChar_ne {index : ℕ} (hindex : index < 64) :
    encodeChar index ≠ padding ∧ encodeChar index ≠ carriageReturn ∧
      encodeChar index ≠ lineFeed := by
  have hnot := encodeChar_notMem hindex
  simp only [List.mem_cons, List.not_mem_nil, or_false, not_or] at hnot
  exact hnot.2

theorem and_byte (number shift : ℕ) : (number &&& (0xFF <<< shift)) >>> shift =
    number / 2 ^ shift % 256 := by
  rw [Nat.shiftRight_and_distrib, Nat.shiftLeft_shiftRight, Nat.shiftRight_eq_div_pow]
  exact Nat.and_two_pow_sub_one_eq_mod _ 8

/-- The bytes of a group. -/
theorem firstByte_eq {first second : ℕ} (hfirst : first < 64) (hsecond : second < 64) :
    ((first <<< 18) + (second <<< 12) &&& 0x00FF0000) >>> 16 = first * 4 + second / 16 := by
  rw [show 0x00FF0000 = 0xFF <<< 16 from rfl, and_byte, Nat.shiftLeft_eq, Nat.shiftLeft_eq]
  omega

theorem secondByte_eq (first : ℕ) {second third : ℕ} (hthird : third < 64) :
    ((first <<< 18) + (second <<< 12) + (third <<< 6) &&& 0x0000FF00) >>> 8 =
      second % 16 * 16 + third / 4 := by
  rw [show 0x0000FF00 = 0xFF <<< 8 from rfl, and_byte, Nat.shiftLeft_eq, Nat.shiftLeft_eq,
    Nat.shiftLeft_eq]
  omega

theorem thirdByte_eq (first second : ℕ) {third fourth : ℕ} (hfourth : fourth < 64) :
    (first <<< 18) + (second <<< 12) + (third <<< 6) + fourth &&& 0x000000FF =
      third % 4 * 64 + fourth := by
  have hbyte := and_byte ((first <<< 18) + (second <<< 12) + (third <<< 6) + fourth) 0
  rw [Nat.shiftRight_zero, Nat.shiftLeft_zero] at hbyte
  rw [hbyte, Nat.shiftLeft_eq, Nat.shiftLeft_eq, Nat.shiftLeft_eq]
  omega

/-- A byte is put together from the parts that its group has of it. -/
theorem ofNat_eq (byte : UInt8) {number : ℕ} (hnumber : number = byte.toNat) :
    UInt8.ofNat number = byte := by
  rw [hnumber, UInt8.ofNat_toNat]

section Group

variable (h : Inverts table) (tmp1 tmp2 tmp3 : UInt8) (data strDecode : List UInt8) (outByte : ℤ)

include h

theorem group_one :
    Decoder.group table ⟨encodeTail [tmp1] ++ data, strDecode, outByte⟩ =
      .ok ⟨padding :: padding :: data, strDecode ++ [tmp1], outByte + 1⟩ := by
  have hfirst := tmp1.toNat_lt
  have hbyte := firstByte_eq (show tmp1.toNat / 4 < 64 by omega)
    (show tmp1.toNat % 4 * 16 < 64 by omega)
  rw [encodeTail_one]
  simp only [List.cons_append, List.nil_append, Decoder.group, bind, Except.bind, pure, Except.pure,
    lookup_encodeChar h (show tmp1.toNat / 4 < 64 by omega),
    lookup_encodeChar h (show tmp1.toNat % 4 * 16 < 64 by omega), hbyte, Decoder.append,
    Decoder.peek, ne_eq, not_true_eq_false, if_false]
  rw [ofNat_eq tmp1 (by omega)]

theorem group_two :
    Decoder.group table ⟨encodeTail [tmp1, tmp2] ++ data, strDecode, outByte⟩ =
      .ok ⟨padding :: data, strDecode ++ [tmp1, tmp2], outByte + 2⟩ := by
  have hfirst := tmp1.toNat_lt
  have hsecond := tmp2.toNat_lt
  have hupper : tmp1.toNat % 4 * 16 + tmp2.toNat / 16 < 64 := by omega
  have hlower : tmp2.toNat % 16 * 4 < 64 := by omega
  rw [encodeTail_two]
  simp only [List.cons_append, List.nil_append, Decoder.group, bind, Except.bind, pure, Except.pure,
    lookup_encodeChar h (show tmp1.toNat / 4 < 64 by omega), lookup_encodeChar h hupper,
    lookup_encodeChar h hlower, firstByte_eq (show tmp1.toNat / 4 < 64 by omega) hupper,
    secondByte_eq (tmp1.toNat / 4) hlower, Decoder.append, Decoder.peek, ne_eq,
    (encodeChar_ne hlower).1, not_true_eq_false, not_false_eq_true, if_true, if_false,
    List.append_assoc, add_assoc outByte]
  rw [ofNat_eq tmp1 (by omega), ofNat_eq tmp2 (by omega)]
  rfl

theorem group_three :
    Decoder.group table ⟨encodeGroup tmp1 tmp2 tmp3 ++ data, strDecode, outByte⟩ =
      .ok ⟨data, strDecode ++ [tmp1, tmp2, tmp3], outByte + 3⟩ := by
  have hfirst := tmp1.toNat_lt
  have hsecond := tmp2.toNat_lt
  have hthird := tmp3.toNat_lt
  have hupper : tmp1.toNat % 4 * 16 + tmp2.toNat / 16 < 64 := by omega
  have hlower : tmp2.toNat % 16 * 4 + tmp3.toNat / 64 < 64 := by omega
  have hlast : tmp3.toNat % 64 < 64 := by omega
  rw [encodeGroup_eq]
  simp only [List.cons_append, List.nil_append, Decoder.group, bind, Except.bind, pure, Except.pure,
    lookup_encodeChar h (show tmp1.toNat / 4 < 64 by omega), lookup_encodeChar h hupper,
    lookup_encodeChar h hlower, lookup_encodeChar h hlast,
    firstByte_eq (show tmp1.toNat / 4 < 64 by omega) hupper, secondByte_eq (tmp1.toNat / 4) hlower,
    thirdByte_eq (tmp1.toNat / 4) _ hlast, Decoder.append, Decoder.peek, ne_eq,
    (encodeChar_ne hlower).1, (encodeChar_ne hlast).1, not_false_eq_true, if_true,
    List.append_assoc, add_assoc outByte]
  rw [ofNat_eq tmp1 (by omega), ofNat_eq tmp2 (by omega),
    ofNat_eq tmp3 (by omega)]
  rfl

end Group

/-! ### The loop -/

theorem loop_zero (decoder : Decoder) : Decoder.loop table 0 decoder = .ok decoder := by
  rw [Decoder.loop, if_pos rfl]

/-- A group, which starts with a character that is not a line break. -/
theorem loop_group {left index : ℕ} (hleft : left ≠ 0) (hindex : index < 64)
    {data strDecode : List UInt8} {outByte : ℤ} {decoder : Decoder}
    (hgroup : Decoder.group table ⟨encodeChar index :: data, strDecode, outByte⟩ = .ok decoder) :
    Decoder.loop table left ⟨encodeChar index :: data, strDecode, outByte⟩ =
      Decoder.loop table (left - 4) decoder := by
  rw [Decoder.loop, if_neg hleft]
  dsimp only
  rw [if_pos (encodeChar_ne hindex).2, hgroup]

/-- A line break is skipped. -/
theorem loop_break (left : ℕ) (data strDecode : List UInt8) (outByte : ℤ) :
    Decoder.loop table (left + 2) ⟨carriageReturn :: lineFeed :: data, strDecode, outByte⟩ =
      Decoder.loop table left ⟨data, strDecode, outByte⟩ := by
  rw [Decoder.loop, if_neg (by omega)]
  dsimp only
  rw [if_neg (by decide), Decoder.loop, if_neg (by omega)]
  dsimp only
  rw [if_neg (by decide)]
  rfl

/-- A whole group gives three bytes. -/
theorem loop_encodeGroup (h : Inverts table) (tmp1 tmp2 tmp3 : UInt8) (left : ℕ)
    (text strDecode : List UInt8) (outByte : ℤ) :
    Decoder.loop table (left + 4) ⟨encodeGroup tmp1 tmp2 tmp3 ++ text, strDecode, outByte⟩ =
      Decoder.loop table left ⟨text, strDecode ++ [tmp1, tmp2, tmp3], outByte + 3⟩ := by
  have hfirst := tmp1.toNat_lt
  have hgroup := group_three h tmp1 tmp2 tmp3 text strDecode outByte
  rw [encodeGroup_eq] at hgroup ⊢
  exact loop_group (Nat.succ_ne_zero _) (by omega) hgroup

theorem length_encodeGroup (tmp1 tmp2 tmp3 : UInt8) (text : List UInt8) :
    (encodeGroup tmp1 tmp2 tmp3 ++ text).length = text.length + 4 := by
  rw [List.length_append, Nat.add_comm]
  rfl

/-- The loop decodes what the loop of the encoder wrote, three bytes at a time. -/
theorem loop_encodeLoop (h : Inverts table) (data : List UInt8) (lineLength : ℕ)
    (strDecode : List UInt8) (outByte : ℤ) :
    ∃ rest, Decoder.loop table (encodeLoop data lineLength).length
        ⟨encodeLoop data lineLength ++ [0], strDecode, outByte⟩ =
      .ok ⟨rest, strDecode ++ data, outByte + data.length⟩ := by
  match data with
  | [] =>
    refine ⟨[0], ?_⟩
    rw [show encodeLoop [] lineLength = [] from rfl, List.length_nil, loop_zero]
    simp
  | [tmp1] =>
    have hfirst := tmp1.toNat_lt
    have hgroup := group_one h tmp1 [0] strDecode outByte
    rw [encodeTail_one] at hgroup
    refine ⟨[padding, padding, 0], ?_⟩
    rw [encodeLoop_short (by simp), encodeTail_one]
    exact (loop_group (by simp) (by omega) hgroup).trans (loop_zero _)
  | [tmp1, tmp2] =>
    have hfirst := tmp1.toNat_lt
    have hgroup := group_two h tmp1 tmp2 [0] strDecode outByte
    rw [encodeTail_two] at hgroup
    refine ⟨[padding, 0], ?_⟩
    rw [encodeLoop_short (by simp), encodeTail_two]
    exact (loop_group (by simp) (by omega) hgroup).trans (loop_zero _)
  | tmp1 :: tmp2 :: tmp3 :: data =>
    have hout : outByte + ((tmp1 :: tmp2 :: tmp3 :: data).length : ℤ) =
        outByte + 3 + data.length := by
      simp only [List.length_cons]
      omega
    rw [encodeLoop, length_encodeGroup, List.append_assoc, loop_encodeGroup h, hout]
    split_ifs with hfull
    · obtain ⟨rest, hrest⟩ :=
        loop_encodeLoop h data 0 (strDecode ++ [tmp1, tmp2, tmp3]) (outByte + 3)
      refine ⟨rest, ?_⟩
      rw [List.cons_append, List.cons_append, List.length_cons, List.length_cons, loop_break, hrest]
      simp
    · obtain ⟨rest, hrest⟩ :=
        loop_encodeLoop h data (lineLength + 4) (strDecode ++ [tmp1, tmp2, tmp3]) (outByte + 3)
      refine ⟨rest, ?_⟩
      rw [hrest]
      simp

/-- The decoder undoes the encoder when its table inverts the alphabet. -/
theorem decodeWith_encode (h : Inverts table) (data : List UInt8) :
    decodeWith table (encode data ++ [0]) (encode data).length 0 = .ok (data, data.length) := by
  obtain ⟨rest, hrest⟩ := loop_encodeLoop h data 0 [] 0
  rw [decodeWith, Int.toNat_natCast, encode, hrest]
  simp

/-! ### The table of the source -/

/-- No character of the alphabet is decoded as its index. -/
theorem decodeTable_ne {index : ℕ} (hindex : index < 64) :
    decodeTable[(encodeChar index).toNat]? ≠ some index := by
  rw [encodeChar_eq hindex]
  revert index
  decide +kernel

theorem decodeTable_lt {char value : ℕ} (hvalue : decodeTable[char]? = some value) :
    value < 64 := by
  have hall : decodeTable.all (· < 64) = true := by decide +kernel
  exact of_decide_eq_true (List.all_eq_true.mp hall value (List.mem_of_getElem? hvalue))

theorem lookup_ok {decoder next : Decoder} {value : ℕ}
    (hlookup : decoder.lookup table = .ok (value, next)) :
    ∃ char, decoder.data = char :: next.data ∧ table[char.toNat]? = some value ∧
      next.strDecode = decoder.strDecode := by
  obtain ⟨data, strDecode, outByte⟩ := decoder
  obtain _ | ⟨char, data⟩ := data
  · cases hlookup
  · rw [Decoder.lookup] at hlookup
    dsimp only at hlookup
    cases hentry : table[char.toNat]? with
    | none =>
      rw [hentry] at hlookup
      cases hlookup
    | some entry =>
      rw [hentry] at hlookup
      cases hlookup
      exact ⟨char, rfl, hentry, rfl⟩

theorem peek_ok {decoder : Decoder} {char : UInt8} (hpeek : decoder.peek = .ok char) :
    ∃ data, decoder.data = char :: data := by
  obtain ⟨data, strDecode, outByte⟩ := decoder
  obtain _ | ⟨head, data⟩ := data
  · cases hpeek
  · cases hpeek
    exact ⟨data, rfl⟩

/-- A group that is decoded starts with two characters of the table, and their byte is written
behind what there was. Then there is a padding, a character and a padding, or two characters; a
padding is left for the next group. -/
theorem group_cases {decoder result : Decoder} (hgroup : decoder.group table = .ok result) :
    ∃ char other first second data, decoder.data = char :: other :: data ∧
      table[char.toNat]? = some first ∧ table[other.toNat]? = some second ∧
      decoder.strDecode ++
        [UInt8.ofNat (((first <<< 18) + (second <<< 12) &&& 0x00FF0000) >>> 16)] <+:
          result.strDecode ∧
      ((∃ rest, data = padding :: rest ∧ result.data = padding :: rest) ∨
        (∃ next third rest, data = next :: padding :: rest ∧ next ≠ padding ∧
          table[next.toNat]? = some third ∧ result.data = padding :: rest) ∨
        ∃ next third last fourth, data = next :: last :: result.data ∧ next ≠ padding ∧
          last ≠ padding ∧ table[next.toNat]? = some third ∧ table[last.toNat]? = some fourth) := by
  obtain ⟨⟨first, afterFirst⟩, hfirst, hgroup⟩ := bind_eq_ok hgroup
  obtain ⟨⟨second, afterSecond⟩, hsecond, hgroup⟩ := bind_eq_ok hgroup
  obtain ⟨char, hchar, hentry, hfront⟩ := lookup_ok hfirst
  obtain ⟨other, hother, hnext, hkeep⟩ := lookup_ok hsecond
  refine ⟨char, other, first, second, afterSecond.data, by rw [hchar, hother], hentry, hnext, ?_⟩
  rw [← hfront, ← hkeep]
  obtain ⟨peeked, hpeek, hgroup⟩ := bind_eq_ok hgroup
  obtain ⟨rest, hrest⟩ := peek_ok hpeek
  change afterSecond.data = _ at hrest
  dsimp only at hgroup
  split_ifs at hgroup with hpadding
  · obtain ⟨⟨third, afterThird⟩, hthird, hgroup⟩ := bind_eq_ok hgroup
    obtain ⟨next, hdata, hentry, hfront⟩ := lookup_ok hthird
    change afterSecond.data = _ at hdata
    obtain ⟨rfl, -⟩ := List.cons.inj (hrest.symm.trans hdata)
    obtain ⟨peeked, hpeek, hgroup⟩ := bind_eq_ok hgroup
    obtain ⟨rest, hrest⟩ := peek_ok hpeek
    change afterThird.data = _ at hrest
    dsimp only at hgroup
    split_ifs at hgroup with hlast
    · obtain ⟨⟨fourth, afterFourth⟩, hfourth, hgroup⟩ := bind_eq_ok hgroup
      obtain ⟨last, hbehind, hfinal, hkeep⟩ := lookup_ok hfourth
      change afterThird.data = _ at hbehind
      obtain ⟨rfl, -⟩ := List.cons.inj (hrest.symm.trans hbehind)
      cases hgroup
      refine ⟨?_, .inr (.inr ⟨_, third, _, fourth, ?_, hpadding, hlast, hentry, hfinal⟩)⟩
      · refine List.IsPrefix.trans ?_ (List.prefix_append _ _)
        rw [hkeep]
        refine List.IsPrefix.trans ?_ (List.prefix_append _ _)
        rw [hfront]
        exact List.prefix_refl _
      · rw [hdata, hbehind]
        rfl
    · cases hgroup
      rw [not_not] at hlast
      rw [hlast] at hrest
      refine ⟨?_, .inr (.inl ⟨_, third, rest, by rw [hdata, hrest], hpadding, hentry, hrest⟩)⟩
      refine List.IsPrefix.trans ?_ (List.prefix_append _ _)
      rw [hfront]
      exact List.prefix_refl _
  · cases hgroup
    rw [not_not] at hpadding
    rw [hpadding] at hrest
    exact ⟨List.prefix_refl _, .inl ⟨rest, hrest, hrest⟩⟩

/-- A loop that returns has decoded the group in front, if there is one. -/
theorem loop_next {left : ℕ} (hleft : left ≠ 0) {char : UInt8}
    (hchar : char ≠ carriageReturn ∧ char ≠ lineFeed) {data strDecode : List UInt8} {outByte : ℤ}
    {result : Decoder}
    (hloop : Decoder.loop table left ⟨char :: data, strDecode, outByte⟩ = .ok result) :
    ∃ next, Decoder.group table ⟨char :: data, strDecode, outByte⟩ = .ok next ∧
      next.loop table (left - 4) = .ok result := by
  rw [Decoder.loop, if_neg hleft] at hloop
  dsimp only at hloop
  rw [if_pos hchar] at hloop
  cases hgroup : Decoder.group table ⟨char :: data, strDecode, outByte⟩ with
  | error fault =>
    rw [hgroup] at hloop
    cases hloop
  | ok next =>
    rw [hgroup] at hloop
    exact ⟨next, rfl, hloop⟩

/-- What is decoded stays in front. By induction over what is left. -/
theorem loop_keeps {left : ℕ} {decoder result : Decoder}
    (hloop : decoder.loop table left = .ok result) : decoder.strDecode <+: result.strDecode := by
  induction left using Nat.strong_induction_on generalizing decoder with
  | _ left ih =>
    by_cases hleft : left = 0
    · rw [Decoder.loop, if_pos hleft] at hloop
      cases hloop
      exact List.prefix_refl _
    obtain ⟨data, strDecode, outByte⟩ := decoder
    obtain _ | ⟨char, data⟩ := data
    · rw [Decoder.loop, if_neg hleft] at hloop
      cases hloop
    by_cases hchar : char ≠ carriageReturn ∧ char ≠ lineFeed
    · obtain ⟨next, hgroup, hnext⟩ := loop_next hleft hchar hloop
      obtain ⟨_, _, _, _, _, _, _, _, hfront, -⟩ := group_cases hgroup
      exact ((List.prefix_append _ _).trans hfront).trans (ih (left - 4) (by omega) hnext)
    · rw [Decoder.loop, if_neg hleft] at hloop
      dsimp only at hloop
      rw [if_neg hchar] at hloop
      have hkeep := ih (left - 1) (by omega) hloop
      exact hkeep

/-- What a text of at least one byte is encoded to starts with a group, and this with the first six
bits. -/
theorem encode_cons (byte : UInt8) (data : List UInt8) :
    ∃ second third fourth text, encode (byte :: data) =
      encodeChar (byte.toNat / 4) :: second :: third :: fourth :: text := by
  match data with
  | [] => exact ⟨_, _, _, _, encodeTail_one byte⟩
  | [tmp2] => exact ⟨_, _, _, _, encodeTail_two byte tmp2⟩
  | tmp2 :: tmp3 :: data =>
    rw [encode, encodeLoop, encodeGroup_eq]
    exact ⟨_, _, _, _, rfl⟩

/-- The first byte is decoded as another one, or its characters are outside of the table. -/
theorem loop_decodeTable_ne {byte : UInt8} {data : List UInt8} {result : Decoder}
    (hloop : Decoder.loop decodeTable (encode (byte :: data)).length
      ⟨encode (byte :: data) ++ [0], [], 0⟩ = .ok result) :
    result.strDecode ≠ byte :: data := by
  have hbyte := byte.toNat_lt
  obtain ⟨_, _, _, _, htext⟩ := encode_cons byte data
  rw [htext] at hloop
  obtain ⟨next, hgroup, hnext⟩ :=
    loop_next (Nat.succ_ne_zero _) (encodeChar_ne (by omega)).2 hloop
  obtain ⟨char, other, first, second, rest, hdata, hfirst, hsecond, hwritten, -⟩ :=
    group_cases hgroup
  obtain ⟨rfl, -⟩ := List.cons.inj hdata
  intro hresult
  have hhead := hwritten.trans (loop_keeps hnext)
  rw [hresult, List.nil_append, List.cons_prefix_cons,
    firstByte_eq (decodeTable_lt hfirst) (decodeTable_lt hsecond)] at hhead
  have hfirstLt := decodeTable_lt hfirst
  have hsecondLt := decodeTable_lt hsecond
  have hvalue := congrArg UInt8.toNat hhead.1
  rw [UInt8.toNat_ofNat'] at hvalue
  refine decodeTable_ne (show byte.toNat / 4 < 64 by omega) ?_
  rw [hfirst, Option.some.injEq]
  omega

/-- `ZBase64::Decode` undoes `ZBase64::Encode` for the empty text only. -/
theorem decode_encode_iff (data : List UInt8) :
    decode (encode data ++ [0]) (encode data).length 0 = .ok (data, data.length) ↔ data = [] := by
  refine ⟨fun hdecode ↦ ?_, fun hdata ↦ ?_⟩
  · obtain _ | ⟨byte, data⟩ := data
    · rfl
    · rw [decode, decodeWith, Int.toNat_natCast] at hdecode
      cases hloop : Decoder.loop decodeTable (encode (byte :: data)).length
          ⟨encode (byte :: data) ++ [0], [], 0⟩ with
      | error fault =>
        rw [hloop] at hdecode
        cases hdecode
      | ok result =>
        rw [hloop, Except.ok.injEq, Prod.mk.injEq] at hdecode
        exact absurd hdecode.1 (loop_decodeTable_ne hloop)
  · rw [hdata, decode, decodeWith, show encode [] = [] from rfl, List.length_nil,
      show ((0 : ℕ) : ℤ).toNat = 0 from rfl, loop_zero]
    rfl

/-- A byte of value 0, whose text is `AA==`, comes back as 0x20. -/
theorem decode_zero :
    decode (encode [0] ++ [0]) (encode [0]).length 0 = .ok ([0x20], 1) ∧
      ¬∀ data, decode (encode data ++ [0]) (encode data).length 0 = .ok (data, data.length) := by
  have hspace : decode (encode [0] ++ [0]) (encode [0]).length 0 = .ok ([0x20], 1) := by
    decide +kernel
  refine ⟨hspace, fun hall ↦ ?_⟩
  have hzero := hall [0]
  rw [hspace, Except.ok.injEq, Prod.mk.injEq] at hzero
  exact absurd hzero.1 (by decide)

end Exc.Base64
