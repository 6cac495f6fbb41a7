import Exc.Des.DES
import Exc.Lib.ByteOrder
import Exc.Lib.CString
import Exc.Lib.Decimal

/-!
# The EasyDES class

`EasyDES::encrypt` and `EasyDES::decrypt` of `util/cryption/DES/DES.cpp`. A `char *` is the bytes
that can be read from it on, a `std::string` or `std::vector<char>` is its bytes, an `int` is an
integer and a `size_t` a number. No value means that the program reads or writes outside of what it
is given, that an `int` overflows, or that a negative length was converted to a `size_t`.

Encryption pads the text: with zeros, and then with a digit for the number of them, to a multiple of
eight. Decryption takes that off again unless the mode is 1.
-/

set_option autoImplicit false
set_option relaxedAutoImplicit false

namespace Exc.Des.EasyDES

open Lib

/-! ### Hexadecimal numbers -/

/-- A digit of `%X`. -/
def hexDigit (value : ℕ) : UInt8 :=
  if value < 10 then UInt8.ofNat ('0'.toNat + value) else UInt8.ofNat ('A'.toNat + (value - 10))

/-- `toHex`, which appends to `hex`. -/
def toHex (bin hex : List UInt8) : List UInt8 :=
  hex ++ bin.flatMap fun byte ↦ [hexDigit (byte.toNat / 16), hexDigit (byte.toNat % 16)]

/-- `strtol(tmp, NULL, 16)` for an array: no value if it goes on behind the end of the array. -/
def strtolHex (tmp : List UInt8) : Option ℤ :=
  let signed := readSign (tmp.dropWhile isSpace)
  let digits := skipHexMark signed.2
  let magnitude : ℤ := readDigits 16 0 digits
  if digits.all fun char ↦ (digitValue char).isSome then none
  else some (if signed.1 then -magnitude else magnitude)

/-- `toBin`. The last byte of `tmp` is never set, so it is what it was at the beginning. -/
def toBin (third : UInt8) (hex : List UInt8) (len : ℕ) : Option (List UInt8) :=
  (List.range ((len + 1) / 2)).mapM fun i ↦ do
    let tmp ← strncpy [0, 0, third] 0 hex (2 * i) 2
    let value ← strtolHex tmp
    pure (UInt8.ofNat (value % 256).toNat)

/-! ### Encryption and decryption -/

/-- The constructor and `setKey`: `m_key`, from the string that `key` points to. -/
def setKey (key : List UInt8) : List UInt8 :=
  cstring key

/-- The eight bytes that `m_key.c_str()` points to. -/
def keyBlock (mKey : List UInt8) : Option Block :=
  if 8 ≤ mKey.length + 1 then some (Vector.ofFn fun i ↦ (mKey ++ [0]).getD i 0) else none

/-- A call of `m_des` with the first element of a vector as `data`. -/
def onVector (run : Memory → ℤ × Memory) (blocks : ℤ) (result : List UInt8) :
    Option (List UInt8) :=
  if 8 * blocks.toNat ≤ result.length then
    some ((List.range result.length).map (run fun a ↦ result.getD a 0).2)
  else none

/-- The bytes from a pointer on that are assigned to a vector. -/
def readBytes (bytes : List UInt8) (count : ℕ) : Option (List UInt8) :=
  if count ≤ bytes.length then some (bytes.take count) else none

/-- `strlen`. -/
def strlen (text : List UInt8) : Option ℕ :=
  if 0 ∈ text then some (cstring text).length else none

/-- `textLength` in `encrypt`. -/
def textLength (clearText : List UInt8) (clearTextLen : ℤ) : Option ℕ :=
  if clearTextLen = 0 then (strlen clearText).map (· + 1)
  else if 0 < clearTextLen ∧ clearTextLen < intMax then some (clearTextLen.toNat + 1)
  else none

/-- `extendSize` in `encrypt`. -/
def extendSize (textLength : ℕ) : ℕ := (textLength / 8 + 1) * 8

/-- `additiveSize` in `encrypt`. -/
def additiveSize (textLength : ℕ) : ℕ := extendSize textLength - textLength

/-- `result` before it is encrypted: the text, zeros and their number. -/
def padText (text : List UInt8) (textLength : ℕ) : List UInt8 :=
  text ++ List.replicate (additiveSize textLength) 0 ++
    [UInt8.ofNat ('0'.toNat + additiveSize textLength)]

/-- `EasyDES::encrypt`: the new value of `encrypted`. -/
def encrypt (w : ℕ) (mKey clearText encrypted : List UInt8) (outType clearTextLen mode : ℤ) :
    Option (List UInt8) := do
  let textLength ← textLength clearText clearTextLen
  let text ← readBytes clearText (textLength - 1)
  let blocks := (toInt (extendSize textLength)).tdiv 8
  let key ← keyBlock mKey
  let result ← onVector (Des.encrypt w key (some 0) blocks mode) blocks
    (padText text textLength)
  if outType = 0 then some (toHex result encrypted) else some result

/-- `resize` of a vector. -/
def resize (result : List UInt8) (size : ℕ) : List UInt8 :=
  result.take size ++ List.replicate (size - result.length) 0

/-- `len` in `decrypt`. -/
def codeLength (code : List UInt8) (codeLen : ℤ) : Option ℕ :=
  if codeLen = 0 then strlen code else if 0 < codeLen then some codeLen.toNat else none

/-- `result` in `decrypt`, before it is resized. -/
def readCode (third : UInt8) (code : List UInt8) (inType : ℤ) (len : ℕ) : Option (List UInt8) :=
  if inType = 0 then toBin third code len else readBytes code len

/-- The end of `decrypt` in mode 0: `additiveSize` comes from the last byte. -/
def removePadding (result clearText : List UInt8) : List UInt8 :=
  let additiveSize : ℤ := (result.getLastD 0).toInt8.toInt - '0'.toNat + 1
  if 0 ≤ additiveSize ∧ additiveSize < result.length then
    result.take (result.length - additiveSize.toNat)
  else clearText

/-- `decrypt`, from the computation of `blocks` on. -/
def decryptVector (w : ℕ) (key : Block) (result clearText : List UInt8) (mode : ℤ) :
    Option (List UInt8) :=
  let blocks := (toInt (result.length - 1 : ℕ)).tdiv 8 + 1
  if mode = 1 then
    if 0 ≤ blocks * 8 + 1 ∧ blocks * 8 + 1 ≤ intMax then
      onVector (Des.decrypt w key (some 0) blocks mode) blocks
        (resize result (blocks * 8 + 1).toNat)
    else none
  else
    (onVector (Des.decrypt w key (some 0) blocks mode) blocks result).map fun result ↦
      removePadding result clearText

/-- `EasyDES::decrypt`: the new value of `clearText`. -/
def decrypt (w : ℕ) (third : UInt8) (mKey code clearText : List UInt8)
    (inType codeLen mode : ℤ) : Option (List UInt8) := do
  let len ← codeLength code codeLen
  if len = 0 then some clearText
  else
    let result ← readCode third code inType len
    let key ← keyBlock mKey
    decryptVector w key result clearText mode

end Exc.Des.EasyDES
