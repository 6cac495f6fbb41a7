import Exc.Lib.CString
import Exc.Lib.JsonText

/-!
# UniValue

The class `UniValue`, a JSON value: `getJsonToken` takes a token off a text, `read` builds a value
from the tokens, and `write` gives the text of a value.

A text is what a `const char *` points to, without the terminator: the end of the list is the null
character. `char` is signed, so that a byte of 0x80 and above is less than 0x20.

`read` keeps a stack of pointers, each to the last element of `values` of the one below it. An
element of the stack is its place in the stack here, and the value is changed at that place
(`modifyBack`).
-/

set_option autoImplicit false
set_option relaxedAutoImplicit false

namespace Exc.Json

open Lib

/-! ### The class -/

/-- `VType`. -/
inductive VType
  | null | obj | arr | str | num | bool
  deriving DecidableEq, Repr

structure UniValue where
  typ : VType
  val : List UInt8
  keys : List (List UInt8)
  values : List UniValue

/-- A value of a type, with a string. -/
def UniValue.ofType (typ : VType) (val : List UInt8) : UniValue := ⟨typ, val, [], []⟩

/-- `UniValue()`, and what `clear` leaves. -/
def UniValue.empty : UniValue := .ofType .null []

/-- `setBool`. -/
def UniValue.setBool (val : Bool) : UniValue := .ofType .bool (if val then ['1'.toUInt8] else [])

/-! ### Tokens -/

/-- `jtokentype`. -/
inductive TokenType
  | err | none
  | objOpen | objClose | arrOpen | arrClose | colon | comma
  | kwNull | kwTrue | kwFalse
  | number | string
  deriving DecidableEq, Repr

/-- What `getJsonToken` gives: the token, `tokenVal` and `consumed`. -/
structure Lexed where
  tok : TokenType
  tokenVal : List UInt8
  consumed : ℕ

def jsonIsspace (ch : UInt8) : Bool := ch = 0x20 || ch = 0x09 || ch = 0x0a || ch = 0x0d

def jsonIsdigit (ch : UInt8) : Bool := '0'.toUInt8 ≤ ch && ch ≤ '9'.toUInt8

/-- The condition that a text starts with a digit. -/
def startsWithDigit (raw : List UInt8) : Bool := raw.head?.any jsonIsdigit

/-- The value of a digit in `hatoui`. -/
def hexDigit (ch : UInt8) : Option ℕ :=
  if jsonIsdigit ch then some (ch.toNat - '0'.toNat)
  else if 'a'.toUInt8 ≤ ch ∧ ch ≤ 'f'.toUInt8 then some (ch.toNat - 'a'.toNat + 10)
  else if 'A'.toUInt8 ≤ ch ∧ ch ≤ 'F'.toUInt8 then some (ch.toNat - 'A'.toNat + 10)
  else none

/-- `hatoui`; no value means that it stopped before the end. -/
def hatoui (digits : List UInt8) : Option ℕ :=
  digits.foldlM (fun result ch ↦ (hexDigit ch).map (16 * result + ·)) 0

/-- What `\u` adds to a string. -/
def pushCodepoint (codepoint : ℕ) : List UInt8 :=
  if codepoint ≤ 0x7f then [UInt8.ofNat codepoint]
  else if codepoint ≤ 0x7FF then
    [UInt8.ofNat (0xC0 ||| codepoint >>> 6), UInt8.ofNat (0x80 ||| codepoint &&& 0x3F)]
  else if codepoint ≤ 0xFFFF then
    [UInt8.ofNat (0xE0 ||| codepoint >>> 12), UInt8.ofNat (0x80 ||| codepoint >>> 6 &&& 0x3F),
      UInt8.ofNat (0x80 ||| codepoint &&& 0x3F)]
  else []

/-- What a character behind a backslash adds to a string, besides `u`. -/
def escapedChar (escaped : UInt8) : Option UInt8 :=
  if escaped = '"'.toUInt8 then some '"'.toUInt8
  else if escaped = '\\'.toUInt8 then some '\\'.toUInt8
  else if escaped = '/'.toUInt8 then some '/'.toUInt8
  else if escaped = 'b'.toUInt8 then some 8
  else if escaped = 'f'.toUInt8 then some 12
  else if escaped = 'n'.toUInt8 then some 10
  else if escaped = 'r'.toUInt8 then some 13
  else if escaped = 't'.toUInt8 then some 9
  else none

/-- `valStr += piece` in front of what the rest of the loop adds. -/
def add (piece : List UInt8) (rest : Option (List UInt8 × List UInt8)) :
    Option (List UInt8 × List UInt8) :=
  rest.map fun rest ↦ (piece ++ rest.1, rest.2)

/-- The loop over a string, behind its first quote: the string and what follows the last quote. A
string that is not closed ends with the text. -/
def scanString : List UInt8 → Option (List UInt8 × List UInt8)
  | [] => some ([], [])
  | ch :: raw =>
    if ch < 0x20 ∨ 0x80 ≤ ch then none
    else if ch = '\\'.toUInt8 then
      match raw with
      | [] => none
      | escaped :: raw =>
        match escapedChar escaped with
        | some ch => add [ch] (scanString raw)
        | none =>
          if escaped = 'u'.toUInt8 then
            match raw with
            | a :: b :: c :: d :: raw =>
              match hatoui [a, b, c, d] with
              | some codepoint => add (pushCodepoint codepoint) (scanString raw)
              | none => none
            | _ => none
          else none
    else if ch = '"'.toUInt8 then some ([], raw)
    else add [ch] (scanString raw)

/-- Part 2 of a number: the number so far and what follows. -/
def scanFrac (numStr raw : List UInt8) : Option (List UInt8 × List UInt8) :=
  match raw with
  | [] => some (numStr, [])
  | ch :: rest =>
    if ch = '.'.toUInt8 then
      if startsWithDigit rest then
        some (numStr ++ ch :: rest.takeWhile jsonIsdigit, rest.dropWhile jsonIsdigit)
      else none
    else some (numStr, ch :: rest)

/-- The sign of an exponent. -/
def scanSign (raw : List UInt8) : List UInt8 :=
  match raw with
  | [] => []
  | ch :: _ => if ch = '-'.toUInt8 ∨ ch = '+'.toUInt8 then [ch] else []

/-- Part 3 of a number. -/
def scanExp (numStr raw : List UInt8) : Option (List UInt8 × List UInt8) :=
  match raw with
  | [] => some (numStr, [])
  | ch :: rest =>
    if ch = 'e'.toUInt8 ∨ ch = 'E'.toUInt8 then
      let digits := rest.drop (scanSign rest).length
      if startsWithDigit digits then
        some (numStr ++ ch :: (scanSign rest ++ digits.takeWhile jsonIsdigit),
          digits.dropWhile jsonIsdigit)
      else none
    else some (numStr, ch :: rest)

/-- A number, from its first character on. -/
def scanNumber (raw : List UInt8) : Option (List UInt8 × List UInt8) :=
  let firstDigit := if startsWithDigit raw then raw else raw.drop 1
  if firstDigit.head? = some '0'.toUInt8 ∧ startsWithDigit (firstDigit.drop 1) then none
  else if raw.head? = some '-'.toUInt8 ∧ ¬startsWithDigit (raw.drop 1) then none
  else
    let numStr := raw.take 1 ++ (raw.drop 1).takeWhile jsonIsdigit
    (scanFrac numStr ((raw.drop 1).dropWhile jsonIsdigit)).bind fun scanned ↦
      scanExp scanned.1 scanned.2

/-- The keywords: the token and what follows. -/
def scanKeyword (raw : List UInt8) : Option (TokenType × List UInt8) :=
  if raw.take 4 = ['n'.toUInt8, 'u'.toUInt8, 'l'.toUInt8, 'l'.toUInt8] then
    some (.kwNull, raw.drop 4)
  else if raw.take 4 = ['t'.toUInt8, 'r'.toUInt8, 'u'.toUInt8, 'e'.toUInt8] then
    some (.kwTrue, raw.drop 4)
  else if raw.take 5 = ['f'.toUInt8, 'a'.toUInt8, 'l'.toUInt8, 's'.toUInt8, 'e'.toUInt8] then
    some (.kwFalse, raw.drop 5)
  else none

/-- The `switch` of `getJsonToken`: the token, `tokenVal` and what follows. -/
def scanToken (raw : List UInt8) : Option (TokenType × List UInt8 × List UInt8) :=
  match raw with
  | [] => none
  | ch :: rest =>
    if ch = '{'.toUInt8 then some (.objOpen, [], rest)
    else if ch = '}'.toUInt8 then some (.objClose, [], rest)
    else if ch = '['.toUInt8 then some (.arrOpen, [], rest)
    else if ch = ']'.toUInt8 then some (.arrClose, [], rest)
    else if ch = ':'.toUInt8 then some (.colon, [], rest)
    else if ch = ','.toUInt8 then some (.comma, [], rest)
    else if ch = 'n'.toUInt8 ∨ ch = 't'.toUInt8 ∨ ch = 'f'.toUInt8 then
      (scanKeyword (ch :: rest)).map fun scanned ↦ (scanned.1, [], scanned.2)
    else if ch = '-'.toUInt8 ∨ jsonIsdigit ch then
      (scanNumber (ch :: rest)).map fun scanned ↦ (.number, scanned.1, scanned.2)
    else if ch = '"'.toUInt8 then
      (scanString rest).map fun scanned ↦ (.string, scanned.1, scanned.2)
    else none

/-- `getJsonToken`. `consumed` is a number of 32 bits. -/
def getJsonToken (rawStart : List UInt8) : Lexed :=
  let raw := rawStart.dropWhile jsonIsspace
  if raw = [] then ⟨.none, [], 0⟩
  else
    match scanToken raw with
    | none => ⟨.err, [], 0⟩
    | some (tok, tokenVal, rest) => ⟨tok, tokenVal, (rawStart.length - rest.length) % 2 ^ 32⟩

/-! ### Reading -/

/-- The bits of `expectMask`. -/
structure Expect where
  objName : Bool
  colon : Bool
  arrValue : Bool
  value : Bool
  notValue : Bool
  deriving DecidableEq, Repr

/-- The variables of `read`: the value itself, the number of pointers on the stack, `expectMask` and
the last token. -/
structure ReadState where
  root : UniValue
  stack : ℕ
  expect : Expect
  lastTok : TokenType

def modifyLast (f : UniValue → UniValue) : List UniValue → List UniValue
  | [] => []
  | [value] => [f value]
  | value :: rest => value :: modifyLast f rest

/-- Changes the value that a pointer on the stack points to. -/
def modifyBack : ℕ → (UniValue → UniValue) → UniValue → UniValue
  | 0, f, value => f value
  | place + 1, f, value => { value with values := modifyLast (modifyBack place f) value.values }

/-- The value that a pointer on the stack points to. -/
def back : ℕ → UniValue → Option UniValue
  | 0, value => some value
  | place + 1, value => value.values.getLast?.bind (back place)

/-- `top->getType()`. -/
def topType (state : ReadState) : Option VType :=
  if state.stack = 0 then none else (back (state.stack - 1) state.root).map UniValue.typ

/-- `top->values.push_back(value)`. -/
def pushValue (state : ReadState) (value : UniValue) : ReadState :=
  { state with
    root := modifyBack (state.stack - 1)
      (fun top ↦ { top with values := top.values ++ [value] }) state.root }

/-- `top->keys.push_back(key)`. -/
def pushKey (state : ReadState) (key : List UInt8) : ReadState :=
  { state with
    root := modifyBack (state.stack - 1)
      (fun top ↦ { top with keys := top.keys ++ [key] }) state.root }

def jsonTokenIsValue : TokenType → Bool
  | .kwNull | .kwTrue | .kwFalse | .number | .string => true
  | _ => false

def isValueOpen (tok : TokenType) : Bool :=
  jsonTokenIsValue tok || tok = .objOpen || tok = .arrOpen

/-- The checks in front of the `switch`; no value means that `read` returns false. -/
def checkExpect (expect : Expect) (tok : TokenType) : Option Expect :=
  let checked :=
    if expect.value then
      if isValueOpen tok then some { expect with value := false } else none
    else if expect.arrValue then
      if isValueOpen tok || tok = .arrClose then some { expect with arrValue := false } else none
    else if expect.objName then
      if tok = .objClose || tok = .string then some expect else none
    else if expect.colon then
      if tok = .colon then some { expect with colon := false } else none
    else if tok = .colon then none
    else some expect
  checked.bind fun expect ↦
    if expect.notValue then
      if isValueOpen tok then none else some { expect with notValue := false }
    else some expect

/-- The `switch`. -/
def switchToken (state : ReadState) (tok : TokenType) (tokenVal : List UInt8) : Option ReadState :=
  match tok with
  | .objOpen | .arrOpen =>
    let typ := if tok = .objOpen then VType.obj else VType.arr
    let opened :=
      if state.stack = 0 then { state with root := .ofType typ [] }
      else pushValue state (.ofType typ [])
    some { opened with
      stack := state.stack + 1
      expect := if tok = .objOpen then { state.expect with objName := true }
        else { state.expect with arrValue := true } }
  | .objClose | .arrClose =>
    let typ := if tok = .objClose then VType.obj else VType.arr
    if state.stack = 0 ∨ state.lastTok = .comma then none
    else if topType state ≠ some typ then none
    else some { state with
      stack := state.stack - 1
      expect := { state.expect with objName := false, notValue := true } }
  | .colon =>
    if state.stack = 0 then none
    else if topType state ≠ some .obj then none
    else some { state with expect := { state.expect with value := true } }
  | .comma =>
    if state.stack = 0 ∨ state.lastTok = .comma ∨ state.lastTok = .arrOpen then none
    else if topType state = some .obj then
      some { state with expect := { state.expect with objName := true } }
    else some { state with expect := { state.expect with arrValue := true } }
  | .kwNull | .kwTrue | .kwFalse =>
    if state.stack = 0 then none
    else
      let tmpVal := if tok = .kwTrue then UniValue.setBool true
        else if tok = .kwFalse then UniValue.setBool false else .empty
      let pushed := pushValue state tmpVal
      some { pushed with expect := { state.expect with notValue := true } }
  | .number =>
    if state.stack = 0 then none
    else
      let pushed := pushValue state (.ofType .num tokenVal)
      some { pushed with expect := { state.expect with notValue := true } }
  | .string =>
    if state.stack = 0 then none
    else if state.expect.objName then
      let pushed := pushKey state tokenVal
      some { pushed with
        expect := { state.expect with objName := false, colon := true, notValue := true } }
    else
      let pushed := pushValue state (.ofType .str tokenVal)
      some { pushed with expect := { state.expect with notValue := true } }
  | _ => none

/-- One turn of the loop, behind `getJsonToken`; no value means that `read` returns false. -/
def readToken (state : ReadState) (tok : TokenType) (tokenVal : List UInt8) : Option ReadState :=
  (checkExpect state.expect tok).bind fun expect ↦
    (switchToken { state with expect := expect } tok tokenVal).map fun state ↦
      { state with lastTok := tok }

/-- The loop of `read` for a number of turns: whether it succeeds, and the value that is left. -/
def readLoop : ℕ → ReadState → List UInt8 → Bool × UniValue
  | 0, state, _ => (false, state.root)
  | turns + 1, state, raw =>
    let lexed := getJsonToken raw
    if lexed.tok = .none ∨ lexed.tok = .err then (false, state.root)
    else
      match readToken state lexed.tok lexed.tokenVal with
      | none => (false, state.root)
      | some state =>
        if state.stack ≠ 0 then readLoop turns state (raw.drop lexed.consumed)
        else (decide ((getJsonToken (raw.drop lexed.consumed)).tok = .none), state.root)

/-- `read`. Every turn takes a character at least. -/
def read (rawStr : List UInt8) : Bool × UniValue :=
  let raw := cstring rawStr
  readLoop (raw.length + 1) ⟨.empty, 0, ⟨false, false, false, false, false⟩, .none⟩ raw

/-! ### Writing -/

/-- Four hexadecimal digits, as `%04x` writes a byte. -/
def hexByte (ch : UInt8) : List UInt8 :=
  ['0'.toUInt8, '0'.toUInt8, (Nat.digitChar (ch.toNat / 16)).toUInt8,
    (Nat.digitChar (ch.toNat % 16)).toUInt8]

/-- `escapes`. -/
def escapes (ch : UInt8) : Option (List UInt8) :=
  if ch = 8 then some ['\\'.toUInt8, 'b'.toUInt8]
  else if ch = 9 then some ['\\'.toUInt8, 't'.toUInt8]
  else if ch = 10 then some ['\\'.toUInt8, 'n'.toUInt8]
  else if ch = 12 then some ['\\'.toUInt8, 'f'.toUInt8]
  else if ch = 13 then some ['\\'.toUInt8, 'r'.toUInt8]
  else if ch < 0x20 ∨ ch = 0x7f then some ('\\'.toUInt8 :: 'u'.toUInt8 :: hexByte ch)
  else if ch = '"'.toUInt8 then some ['\\'.toUInt8, '"'.toUInt8]
  else if ch = '\\'.toUInt8 then some ['\\'.toUInt8, '\\'.toUInt8]
  else none

def jsonEscape (inS : List UInt8) : List UInt8 :=
  inS.flatMap fun ch ↦
    match escapes ch with
    | some escStr => escStr
    | none => if ch < 0x80 then [ch] else '\\'.toUInt8 :: 'u'.toUInt8 :: hexByte ch

/-- A string in quotes. -/
def quoted (str : List UInt8) : List UInt8 := '"'.toUInt8 :: (jsonEscape str ++ ['"'.toUInt8])

/-- `indentStr`; the product is a number of 32 bits. -/
def indentStr (prettyIndent indentLevel : ℕ) : List UInt8 :=
  List.replicate (prettyIndent * indentLevel % 2 ^ 32) ' '.toUInt8

/-- A piece of the text that is only there with `prettyIndent`. -/
def pretty (prettyIndent : ℕ) (piece : List UInt8) : List UInt8 :=
  if prettyIndent ≠ 0 then piece else []

mutual

/-- `write`. -/
def write (prettyIndent indentLevel : ℕ) : UniValue → List UInt8
  | ⟨typ, val, keys, values⟩ =>
    let modIndent := if indentLevel = 0 then 1 else indentLevel
    match typ with
    | .null => ['n'.toUInt8, 'u'.toUInt8, 'l'.toUInt8, 'l'.toUInt8]
    | .obj =>
      '{'.toUInt8 :: (pretty prettyIndent ['\n'.toUInt8] ++
        writeMembers prettyIndent modIndent keys values ++
        pretty prettyIndent (indentStr prettyIndent (modIndent - 1)) ++ ['}'.toUInt8])
    | .arr =>
      '['.toUInt8 :: (pretty prettyIndent ['\n'.toUInt8] ++
        writeItems prettyIndent modIndent values ++
        pretty prettyIndent (indentStr prettyIndent (modIndent - 1)) ++ [']'.toUInt8])
    | .str => quoted val
    | .num => val
    | .bool =>
      if val = ['1'.toUInt8] then ['t'.toUInt8, 'r'.toUInt8, 'u'.toUInt8, 'e'.toUInt8]
      else ['f'.toUInt8, 'a'.toUInt8, 'l'.toUInt8, 's'.toUInt8, 'e'.toUInt8]

/-- The loop of `writeArray`. -/
def writeItems (prettyIndent indentLevel : ℕ) : List UniValue → List UInt8
  | [] => []
  | value :: rest =>
    pretty prettyIndent (indentStr prettyIndent indentLevel) ++
      write prettyIndent ((indentLevel + 1) % 2 ^ 32) value ++
      (if rest ≠ [] then ','.toUInt8 :: pretty prettyIndent [' '.toUInt8] else []) ++
      pretty prettyIndent ['\n'.toUInt8] ++ writeItems prettyIndent indentLevel rest

/-- The loop of `writeObject`, over as many keys as there are values. -/
def writeMembers (prettyIndent indentLevel : ℕ) : List (List UInt8) → List UniValue → List UInt8
  | key :: keys, value :: rest =>
    pretty prettyIndent (indentStr prettyIndent indentLevel) ++ quoted key ++ [':'.toUInt8] ++
      pretty prettyIndent [' '.toUInt8] ++ write prettyIndent ((indentLevel + 1) % 2 ^ 32) value ++
      (if rest ≠ [] then [','.toUInt8] else []) ++ pretty prettyIndent ['\n'.toUInt8] ++
      writeMembers prettyIndent indentLevel keys rest
  | _, _ => []

end

end Exc.Json
