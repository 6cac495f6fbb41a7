import Mathlib.Data.List.Basic
import Mathlib.Data.UInt

/-!
# JSON texts

The lexical grammar of JSON as RFC 8259 has it: the tokens, the texts that stand for a token
(`Lexeme`), and the texts of a list of tokens, with white space between them (`Spaced`). A string of
a text stands for bytes in UTF-8. In one point this is not the RFC: every `\u` with four digits
stands for the code point with that number, also a surrogate, where the RFC takes two escapes that
are a pair of surrogates for one character.

Reading a text is unique as long as no number follows a number (`Separated`).
-/

set_option autoImplicit false
set_option relaxedAutoImplicit false

namespace Exc.Lib.JsonText

def isWhitespace (char : UInt8) : Bool :=
  char = 0x20 || char = 0x09 || char = 0x0a || char = 0x0d

def isDigit (char : UInt8) : Bool := '0'.toUInt8 ≤ char && char ≤ '9'.toUInt8

/-! ### Numbers -/

/-- One digit or more. -/
def IsDigits (text : List UInt8) : Prop := text ≠ [] ∧ ∀ char ∈ text, isDigit char = true

/-- The part in front of the point: a zero, or digits that do not start with a zero. -/
def IsInt (text : List UInt8) : Prop :=
  IsDigits text ∧ (text = ['0'.toUInt8] ∨ text.head? ≠ some '0'.toUInt8)

/-- The part from the point on. -/
def IsFrac (text : List UInt8) : Prop :=
  text = [] ∨ ∃ digits, text = '.'.toUInt8 :: digits ∧ IsDigits digits

/-- The exponent. -/
def IsExp (text : List UInt8) : Prop :=
  text = [] ∨ ∃ mark sign digits, text = mark :: (sign ++ digits) ∧
    (mark = 'e'.toUInt8 ∨ mark = 'E'.toUInt8) ∧
    (sign = [] ∨ sign = ['-'.toUInt8] ∨ sign = ['+'.toUInt8]) ∧ IsDigits digits

def IsNumber (text : List UInt8) : Prop :=
  ∃ sign int frac exp, text = sign ++ int ++ frac ++ exp ∧ (sign = [] ∨ sign = ['-'.toUInt8]) ∧
    IsInt int ∧ IsFrac frac ∧ IsExp exp

/-- A character of a number. -/
def isNumberChar (char : UInt8) : Bool :=
  isDigit char || char = '-'.toUInt8 || char = '+'.toUInt8 || char = '.'.toUInt8 ||
    char = 'e'.toUInt8 || char = 'E'.toUInt8

theorem isNumberChar_of_isDigits {text : List UInt8} (hdigits : IsDigits text) :
    ∀ char ∈ text, isNumberChar char = true := by
  intro char hmem
  simp only [isNumberChar, hdigits.2 char hmem, Bool.true_or]

theorem isNumberChar_of_isNumber {text : List UInt8} (hnumber : IsNumber text) :
    ∀ char ∈ text, isNumberChar char = true := by
  obtain ⟨sign, int, frac, exp, rfl, hsign, hint, hfrac, hexp⟩ := hnumber
  have hsignChars : ∀ char ∈ sign, isNumberChar char = true := by
    obtain rfl | rfl := hsign
    · exact List.forall_mem_nil _
    · exact List.forall_mem_singleton.mpr (by decide)
  have hfracChars : ∀ char ∈ frac, isNumberChar char = true := by
    obtain rfl | ⟨digits, rfl, hdigits⟩ := hfrac
    · exact List.forall_mem_nil _
    · exact List.forall_mem_cons.mpr ⟨by decide, isNumberChar_of_isDigits hdigits⟩
  have hexpChars : ∀ char ∈ exp, isNumberChar char = true := by
    obtain rfl | ⟨mark, expSign, digits, rfl, hmark, hexpSign, hdigits⟩ := hexp
    · exact List.forall_mem_nil _
    · refine List.forall_mem_cons.mpr ⟨?_, List.forall_mem_append.mpr
        ⟨?_, isNumberChar_of_isDigits hdigits⟩⟩
      · obtain rfl | rfl := hmark
        · decide
        · decide
      · obtain rfl | rfl | rfl := hexpSign
        · exact List.forall_mem_nil _
        · exact List.forall_mem_singleton.mpr (by decide)
        · exact List.forall_mem_singleton.mpr (by decide)
  exact List.forall_mem_append.mpr ⟨List.forall_mem_append.mpr ⟨List.forall_mem_append.mpr
    ⟨hsignChars, isNumberChar_of_isDigits hint.1⟩, hfracChars⟩, hexpChars⟩

/-! ### Strings -/

/-- The value of a hexadecimal digit. -/
def hexValue (char : UInt8) : Option ℕ :=
  if isDigit char then some (char.toNat - '0'.toNat)
  else if 'a'.toUInt8 ≤ char ∧ char ≤ 'f'.toUInt8 then some (char.toNat - 'a'.toNat + 10)
  else if 'A'.toUInt8 ≤ char ∧ char ≤ 'F'.toUInt8 then some (char.toNat - 'A'.toNat + 10)
  else none

/-- A code point below 65536 in UTF-8, a surrogate like any other. -/
def utf8 (codepoint : ℕ) : List UInt8 :=
  if codepoint < 0x80 then [UInt8.ofNat codepoint]
  else if codepoint < 0x800 then
    [UInt8.ofNat (0xC0 + codepoint / 64), UInt8.ofNat (0x80 + codepoint % 64)]
  else
    [UInt8.ofNat (0xE0 + codepoint / 4096), UInt8.ofNat (0x80 + codepoint / 64 % 64),
      UInt8.ofNat (0x80 + codepoint % 64)]

/-- The escapes of one character, and what they stand for. -/
def simpleEscapes : List (UInt8 × UInt8) :=
  [('"'.toUInt8, '"'.toUInt8), ('\\'.toUInt8, '\\'.toUInt8), ('/'.toUInt8, '/'.toUInt8),
    ('b'.toUInt8, 8), ('f'.toUInt8, 12), ('n'.toUInt8, 10), ('r'.toUInt8, 13), ('t'.toUInt8, 9)]

/-- What is between the quotes, and what it stands for. Escaped surrogates are not joined. -/
inductive Chars : List UInt8 → List UInt8 → Prop
  | nil : Chars [] []
  | plain {char : UInt8} {text value : List UInt8} (hcontrol : 0x20 ≤ char)
      (hquote : char ≠ '"'.toUInt8) (hescape : char ≠ '\\'.toUInt8) (htext : Chars text value) :
      Chars (char :: text) (char :: value)
  | simple {mark char : UInt8} {text value : List UInt8} (hmark : (mark, char) ∈ simpleEscapes)
      (htext : Chars text value) : Chars ('\\'.toUInt8 :: mark :: text) (char :: value)
  | unicode {a b c d : UInt8} {first second third fourth : ℕ} {text value : List UInt8}
      (ha : hexValue a = some first) (hb : hexValue b = some second) (hc : hexValue c = some third)
      (hd : hexValue d = some fourth) (htext : Chars text value) :
      Chars ('\\'.toUInt8 :: 'u'.toUInt8 :: a :: b :: c :: d :: text)
        (utf8 (16 * (16 * (16 * first + second) + third) + fourth) ++ value)

/-! ### Tokens and texts -/

/-- A token: one of the structural characters, a keyword, a number as it is written, or a string as
it is meant. -/
inductive Token
  | objOpen | objClose | arrOpen | arrClose | colon | comma
  | kwNull | kwTrue | kwFalse
  | number (text : List UInt8) (hnumber : IsNumber text)
  | string (value : List UInt8)

/-- The texts of a token. -/
inductive Lexeme : Token → List UInt8 → Prop
  | objOpen : Lexeme .objOpen ['{'.toUInt8]
  | objClose : Lexeme .objClose ['}'.toUInt8]
  | arrOpen : Lexeme .arrOpen ['['.toUInt8]
  | arrClose : Lexeme .arrClose [']'.toUInt8]
  | colon : Lexeme .colon [':'.toUInt8]
  | comma : Lexeme .comma [','.toUInt8]
  | kwNull : Lexeme .kwNull ['n'.toUInt8, 'u'.toUInt8, 'l'.toUInt8, 'l'.toUInt8]
  | kwTrue : Lexeme .kwTrue ['t'.toUInt8, 'r'.toUInt8, 'u'.toUInt8, 'e'.toUInt8]
  | kwFalse : Lexeme .kwFalse ['f'.toUInt8, 'a'.toUInt8, 'l'.toUInt8, 's'.toUInt8, 'e'.toUInt8]
  | number {text : List UInt8} (hnumber : IsNumber text) : Lexeme (.number text hnumber) text
  | string {text value : List UInt8} (hchars : Chars text value) :
      Lexeme (.string value) ('"'.toUInt8 :: (text ++ ['"'.toUInt8]))

/-- The texts of a list of tokens. -/
inductive Spaced : List Token → List UInt8 → Prop
  | nil {spaces : List UInt8} (hspaces : ∀ char ∈ spaces, isWhitespace char = true) :
      Spaced [] spaces
  | cons {token : Token} {tokens : List Token} {spaces lexeme text : List UInt8}
      (hspaces : ∀ char ∈ spaces, isWhitespace char = true) (hlexeme : Lexeme token lexeme)
      (htext : Spaced tokens text) : Spaced (token :: tokens) (spaces ++ lexeme ++ text)

/-- A number does not follow a number. -/
def Separated (first second : Token) : Prop :=
  ∀ text hnumber next hnext, first = .number text hnumber → second ≠ .number next hnext

end Exc.Lib.JsonText
