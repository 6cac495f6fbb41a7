import Exc.Lib.CString

/-!
# Base64

`util/cryption/base64/base64.cpp`: `ZBase64::Encode`, and the `ZBase64::Decode` that looks the
characters up in a table. The table is an argument of `decodeWith`; that of the source is
`decodeTable`, and it has 111 entries.

`Encode` takes three bytes at a time and breaks the line after 76 characters. `Decode` counts four
characters for each group that it decodes, while the pointer goes on by as many as it has read.

Scope. The memory that `Encode` reads is a list, and its length is `DataByte`. A read behind the end
of the table or of the text is a `DecodeFault`. The lengths are in the range of `int`.
-/

set_option autoImplicit false
set_option relaxedAutoImplicit false

namespace Exc.Base64

open Lib

/-! ### Encoding -/

/-- `EncodeTable`. -/
def encodeTable : List UInt8 :=
  chars "ABCDEFGHIJKLMNOPQRSTUVWXYZabcdefghijklmnopqrstuvwxyz0123456789+/"

/-- `EncodeTable[index]`; every index that is used is less than 64. -/
def encodeChar (index : ℕ) : UInt8 := encodeTable.getD index 0

/-- `'='`. -/
def padding : UInt8 := 61

/-- `'\r'`. -/
def carriageReturn : UInt8 := 13

/-- `'\n'`. -/
def lineFeed : UInt8 := 10

/-- The four characters for three bytes. -/
def encodeGroup (tmp1 tmp2 tmp3 : UInt8) : List UInt8 :=
  [encodeChar (tmp1.toNat >>> 2),
    encodeChar (((tmp1.toNat <<< 4) ||| (tmp2.toNat >>> 4)) &&& 0x3F),
    encodeChar (((tmp2.toNat <<< 2) ||| (tmp3.toNat >>> 6)) &&& 0x3F),
    encodeChar (tmp3.toNat &&& 0x3F)]

/-- What is left when there are no three bytes any more. -/
def encodeTail : List UInt8 → List UInt8
  | [tmp1] =>
    [encodeChar ((tmp1.toNat &&& 0xFC) >>> 2), encodeChar ((tmp1.toNat &&& 0x03) <<< 4), padding,
      padding]
  | [tmp1, tmp2] =>
    [encodeChar ((tmp1.toNat &&& 0xFC) >>> 2),
      encodeChar (((tmp1.toNat &&& 0x03) <<< 4) ||| ((tmp2.toNat &&& 0xF0) >>> 4)),
      encodeChar ((tmp2.toNat &&& 0x0F) <<< 2), padding]
  | _ => []

/-- The loop of `ZBase64::Encode`, and what comes behind it. -/
def encodeLoop : List UInt8 → ℕ → List UInt8
  | tmp1 :: tmp2 :: tmp3 :: data, lineLength =>
    encodeGroup tmp1 tmp2 tmp3 ++
      if lineLength + 4 = 76 then carriageReturn :: lineFeed :: encodeLoop data 0
      else encodeLoop data (lineLength + 4)
  | data, _ => encodeTail data

/-- `ZBase64::Encode`. -/
def encode (data : List UInt8) : List UInt8 := encodeLoop data 0

/-! ### Decoding -/

/-- `DecodeTable`, line by line. -/
def decodeTable : List ℕ :=
  [0, 0, 0, 0, 0, 0, 0, 0, 0, 0, 0, 0, 0, 0, 0, 0, 0, 0, 0, 0, 0, 0, 0,
    0, 0, 0, 0, 0, 0, 0, 0, 0, 0, 0, 0, 0, 0, 0, 0, 0, 0,
    -- '+'
    0, 0,
    -- '/'
    53, 54, 55, 56, 57, 58, 59, 60, 61, -- '0'-'9'
    0, 0, 0, 0, 0, 0,
    1, 2, 3, 4, 5, 6, 7, 8, 9, 10, 11, 12,
    14, 15, 16, 17, 18, 19, 20, 21, 22, 23, 24, 25, -- 'A'-'Z'
    0, 0, 0, 0, 0,
    27, 28, 29, 30, 31, 32, 33, 34, 35, 36, 37, 38,
    40, 41, 42, 43, 44, 45, 46, 47, 48, 49, 50, 51] -- 'a'-'z'

/-- Undefined behaviour: a read outside of the table, or behind the text. -/
inductive DecodeFault
  | outsideTable
  | behindText
  deriving DecidableEq

/-- The variables of `ZBase64::Decode`: what `Data` points to, `strDecode` and `OutByte`. -/
structure Decoder where
  data : List UInt8
  strDecode : List UInt8
  outByte : ℤ
  deriving DecidableEq

namespace Decoder

/-- `*Data`. -/
def peek (decoder : Decoder) : Except DecodeFault UInt8 :=
  match decoder.data with
  | char :: _ => .ok char
  | [] => .error .behindText

/-- `DecodeTable[*Data++]`. A `char` that is negative is outside of the table, as every one from 128
on is. -/
def lookup (table : List ℕ) (decoder : Decoder) : Except DecodeFault (ℕ × Decoder) :=
  match decoder.data with
  | [] => .error .behindText
  | char :: data =>
    match table[char.toNat]? with
    | some value => .ok (value, { decoder with data := data })
    | none => .error .outsideTable

/-- `strDecode += value; OutByte++`. -/
def append (decoder : Decoder) (value : ℕ) : Decoder :=
  { decoder with
    strDecode := decoder.strDecode ++ [UInt8.ofNat value]
    outByte := decoder.outByte + 1 }

/-- One group of characters. -/
def group (table : List ℕ) (decoder : Decoder) : Except DecodeFault Decoder := do
  let (first, decoder) ← decoder.lookup table
  let (second, decoder) ← decoder.lookup table
  let nValue := (first <<< 18) + (second <<< 12)
  let decoder := decoder.append ((nValue &&& 0x00FF0000) >>> 16)
  if (← decoder.peek) ≠ padding then
    let (third, decoder) ← decoder.lookup table
    let nValue := nValue + (third <<< 6)
    let decoder := decoder.append ((nValue &&& 0x0000FF00) >>> 8)
    if (← decoder.peek) ≠ padding then
      let (fourth, decoder) ← decoder.lookup table
      let nValue := nValue + fourth
      pure (decoder.append (nValue &&& 0x000000FF))
    else pure decoder
  else pure decoder

/-- The loop of `ZBase64::Decode`; `left` is `DataByte - i`, or 0 when that is negative. -/
def loop (table : List ℕ) (left : ℕ) (decoder : Decoder) : Except DecodeFault Decoder :=
  if left = 0 then .ok decoder
  else
    match decoder.data with
    | [] => .error .behindText
    | char :: data =>
      if char ≠ carriageReturn ∧ char ≠ lineFeed then
        match decoder.group table with
        | .ok decoder => loop table (left - 4) decoder
        | .error fault => .error fault
      else loop table (left - 1) { decoder with data := data }
termination_by left

end Decoder

/-- `ZBase64::Decode` with a table: the text, and `OutByte`. -/
def decodeWith (table : List ℕ) (data : List UInt8) (dataByte outByte : ℤ) :
    Except DecodeFault (List UInt8 × ℤ) :=
  match Decoder.loop table dataByte.toNat ⟨data, [], outByte⟩ with
  | .ok decoder => .ok (decoder.strDecode, decoder.outByte)
  | .error fault => .error fault

/-- `ZBase64::Decode`. -/
def decode (data : List UInt8) (dataByte outByte : ℤ) : Except DecodeFault (List UInt8 × ℤ) :=
  decodeWith decodeTable data dataByte outByte

end Exc.Base64
