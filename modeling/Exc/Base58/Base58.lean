import Exc.Lib.CString
import Exc.Lib.Decimal
import Exc.Lib.Positional

/-!
# Base58

`util/cryption/base58/base58.cpp`: `EncodeBase58` and `DecodeBase58`. Both count leading zeros (`1`
stands for a zero), and change the base of the rest in a vector whose size is an estimate.

The loops run over the vectors from the last element to the first, so that a vector is a list in
this order, the least significant digit first. An assertion that fails is a `Base58Fault`.

Scope. Pointers have 64 bits, the length of a text or of a sequence of bytes is in the range of
`int`, and `isspace` is that of the C locale.
-/

set_option autoImplicit false
set_option relaxedAutoImplicit false

namespace Exc.Base58

open Lib

/-- `pszBase58`. -/
def pszBase58 : List UInt8 := chars "123456789ABCDEFGHJKLMNPQRSTUVWXYZabcdefghijkmnopqrstuvwxyz"

/-- `assert(carry == 0)` fails. -/
inductive Base58Fault
  | carry
  deriving DecidableEq

/-! ### Encoding -/

/-- The loop over the bytes: `b58 = b58 * 256 + ch`. -/
def encodeLoop : List UInt8 → List ℕ → Except Base58Fault (List ℕ)
  | [], b58 => .ok b58
  | byte :: bytes, b58 =>
    let (b58, carry) := mulAdd 58 256 b58 byte.toNat
    if carry = 0 then encodeLoop bytes b58 else .error .carry

/-- `EncodeBase58`. -/
def encodeBase58 (bytes : List UInt8) : Except Base58Fault (List UInt8) := do
  let zeroes := (bytes.takeWhile (· = 0)).length
  let bytes := bytes.dropWhile (· = 0)
  let b58 ← encodeLoop bytes (List.replicate (bytes.length * 138 / 100 + 1) 0)
  pure (List.replicate zeroes '1'.toUInt8 ++
    (b58.reverse.dropWhile (· = 0)).map fun digit ↦ pszBase58.getD digit 0)

/-! ### Decoding -/

/-- The loop over the characters: `b256 = b256 * 58 + ch`. No value means that a character is not in
the alphabet; otherwise what comes behind the last character that was decoded is left. -/
def decodeLoop : List UInt8 → List ℕ → Except Base58Fault (Option (List ℕ × List UInt8))
  | [], b256 => .ok (some (b256, []))
  | char :: psz, b256 =>
    if isSpace char then .ok (some (b256, char :: psz))
    else
      match pszBase58.idxOf? char with
      | none => .ok none
      | some ch =>
        let (b256, carry) := mulAdd 256 58 b256 ch
        if carry = 0 then decodeLoop psz b256 else .error .carry

/-- `DecodeBase58`: the bytes, or no value when it returns false. -/
def decodeBase58 (psz : CStr) : Except Base58Fault (Option (List UInt8)) := do
  let psz := psz.chars.dropWhile isSpace
  let zeroes := (psz.takeWhile (· = '1'.toUInt8)).length
  let psz := psz.dropWhile (· = '1'.toUInt8)
  match ← decodeLoop psz (List.replicate (psz.length * 733 / 1000 + 1) 0) with
  | none => pure none
  | some (b256, psz) =>
    if psz.dropWhile isSpace ≠ [] then pure none
    else
      pure (some (List.replicate zeroes 0 ++
        (b256.reverse.dropWhile (· = 0)).map UInt8.ofNat))

/-- The `DecodeBase58` that returns a string. -/
def decodeBase58String (psz : CStr) : Except Base58Fault (List UInt8) := do
  match ← decodeBase58 psz with
  | some vchRet => pure vchRet
  | none => pure []

example : encodeBase58 [0, 0, 1, 2, 3] = .ok (chars "11Ldp") := by decide +kernel

end Exc.Base58
