import Exc.Json.Reading

/-!
# Writing and reading

The text that `write` gives is a text of the tokens of the value, for any indentation
(`write_spelled`), so that `read` gets a value back from it (`read_write`). Strings come back as
they were as long as they are ASCII: `jsonEscape` writes a byte of 0x80 and above as the code point
of that number, which `read` takes for two bytes.
-/

set_option autoImplicit false
set_option relaxedAutoImplicit false

namespace Exc.Json

open Lib JsonText

/-! ### Strings -/

/-- A string with every byte taken for a code point. -/
def recodeString (str : List UInt8) : List UInt8 := str.flatMap fun ch ↦ utf8 ch.toNat

theorem hexValue_digitChar (digit : ℕ) (hdigit : digit < 16) :
    hexValue (Nat.digitChar digit).toUInt8 = some digit := by
  have hall : ∀ digit < 16, hexValue (Nat.digitChar digit).toUInt8 = some digit := by decide
  exact hall digit hdigit

/-- A byte that is written with `\u`. -/
theorem chars_hexByte (ch : UInt8) {text value : List UInt8} (htext : Chars text value) :
    Chars ('\\'.toUInt8 :: 'u'.toUInt8 :: hexByte ch ++ text) (utf8 ch.toNat ++ value) := by
  have hch := ch.toNat_lt
  have hzero : hexValue '0'.toUInt8 = some 0 := by decide
  have hhigh := hexValue_digitChar (ch.toNat / 16) (by omega)
  have hlow := hexValue_digitChar (ch.toNat % 16) (by omega)
  have hchars := Chars.unicode hzero hzero hhigh hlow htext
  have hvalue : 16 * (16 * (16 * 0 + 0) + ch.toNat / 16) + ch.toNat % 16 = ch.toNat := by omega
  rw [hvalue] at hchars
  exact hchars

theorem utf8_of_lt {ch : UInt8} (hch : ch < 0x80) : utf8 ch.toNat = [ch] := by
  have hlt : ch.toNat < 0x80 := UInt8.lt_iff_toNat_lt.mp hch
  rw [utf8, if_pos hlt, UInt8.ofNat_toNat]

/-- What `json_escape` makes of one character. -/
def escapeChar (ch : UInt8) : List UInt8 :=
  match escapes ch with
  | some escStr => escStr
  | none => if ch < 0x80 then [ch] else '\\'.toUInt8 :: 'u'.toUInt8 :: hexByte ch

theorem jsonEscape_cons (ch : UInt8) (str : List UInt8) :
    jsonEscape (ch :: str) = escapeChar ch ++ jsonEscape str := List.flatMap_cons

theorem chars_escapeChar (ch : UInt8) {text value : List UInt8} (htext : Chars text value) :
    Chars (escapeChar ch ++ text) (utf8 ch.toNat ++ value) := by
  have hsimple (mark : UInt8) {char : UInt8} (hmark : (mark, char) ∈ simpleEscapes)
      (hchar : char < 0x80) : Chars ('\\'.toUInt8 :: mark :: text) (utf8 char.toNat ++ value) := by
    rw [utf8_of_lt hchar]
    exact .simple hmark htext
  unfold escapeChar escapes
  by_cases hb : ch = 8
  · rw [if_pos hb, hb]
    exact hsimple 'b'.toUInt8 (by decide) (by decide)
  rw [if_neg hb]
  by_cases ht : ch = 9
  · rw [if_pos ht, ht]
    exact hsimple 't'.toUInt8 (by decide) (by decide)
  rw [if_neg ht]
  by_cases hn : ch = 10
  · rw [if_pos hn, hn]
    exact hsimple 'n'.toUInt8 (by decide) (by decide)
  rw [if_neg hn]
  by_cases hf : ch = 12
  · rw [if_pos hf, hf]
    exact hsimple 'f'.toUInt8 (by decide) (by decide)
  rw [if_neg hf]
  by_cases hr : ch = 13
  · rw [if_pos hr, hr]
    exact hsimple 'r'.toUInt8 (by decide) (by decide)
  rw [if_neg hr]
  by_cases hcontrol : ch < 0x20 ∨ ch = 0x7f
  · rw [if_pos hcontrol]
    exact chars_hexByte ch htext
  rw [if_neg hcontrol]
  by_cases hquote : ch = '"'.toUInt8
  · rw [if_pos hquote, hquote]
    exact hsimple '"'.toUInt8 (by decide) (by decide)
  rw [if_neg hquote]
  by_cases hescape : ch = '\\'.toUInt8
  · rw [if_pos hescape, hescape]
    exact hsimple '\\'.toUInt8 (by decide) (by decide)
  rw [if_neg hescape]
  by_cases hascii : ch < 0x80
  · simp only [if_pos hascii]
    rw [utf8_of_lt hascii]
    exact .plain (UInt8.not_lt.mp fun hlt ↦ hcontrol (.inl hlt)) hquote hescape htext
  · simp only [if_neg hascii]
    exact chars_hexByte ch htext

theorem chars_jsonEscape (str : List UInt8) : Chars (jsonEscape str) (recodeString str) := by
  induction str with
  | nil => exact .nil
  | cons ch str ih =>
    rw [jsonEscape_cons, recodeString, List.flatMap_cons]
    exact chars_escapeChar ch ih

/-! ### Texts -/

/-- A text of tokens, of bytes below 0x80. -/
def Spelled (input : List Token) (text : List UInt8) : Prop := Spaced input text ∧ IsAscii text

/-- What `json_escape` gives is ASCII. -/
theorem ascii_jsonEscape (str : List UInt8) : IsAscii (jsonEscape str) := by
  have hdigits : ∀ digit < 16, (Nat.digitChar digit).toUInt8 < 0x80 := by decide
  have hhex (ch : UInt8) : IsAscii ('\\'.toUInt8 :: 'u'.toUInt8 :: hexByte ch) := by
    have hch := ch.toNat_lt
    simp only [hexByte, isAscii_cons]
    exact ⟨by decide, by decide, by decide, by decide, hdigits _ (by omega), hdigits _ (by omega),
      List.forall_mem_nil _⟩
  have htwo (first second : UInt8) (hfirst : first < 0x80) (hsecond : second < 0x80) :
      IsAscii [first, second] :=
    isAscii_cons.mpr ⟨hfirst, isAscii_cons.mpr ⟨hsecond, List.forall_mem_nil _⟩⟩
  have hescapes (ch : UInt8) (escStr : List UInt8) (hescape : escapes ch = some escStr) :
      IsAscii escStr := by
    unfold escapes at hescape
    split_ifs at hescape with hb ht hn hf hr hcontrol hquote hbackslash
    all_goals obtain rfl := Option.some.inj hescape
    · exact htwo _ _ (by decide) (by decide)
    · exact htwo _ _ (by decide) (by decide)
    · exact htwo _ _ (by decide) (by decide)
    · exact htwo _ _ (by decide) (by decide)
    · exact htwo _ _ (by decide) (by decide)
    · exact hhex ch
    · exact htwo _ _ (by decide) (by decide)
    · exact htwo _ _ (by decide) (by decide)
  have hone (ch : UInt8) : IsAscii (escapeChar ch) := by
    rw [escapeChar]
    match hescape : escapes ch with
    | some escStr => exact hescapes ch escStr hescape
    | none =>
      by_cases hascii : ch < 0x80
      · simp only [if_pos hascii]
        exact isAscii_cons.mpr ⟨hascii, List.forall_mem_nil _⟩
      · simp only [if_neg hascii]
        exact hhex ch
  induction str with
  | nil => exact List.forall_mem_nil _
  | cons ch str ih =>
    rw [jsonEscape_cons]
    exact isAscii_append.mpr ⟨hone ch, ih⟩

theorem spelled_nil : Spelled [] [] := ⟨.nil (List.forall_mem_nil _), List.forall_mem_nil _⟩

/-- White space in front of a text. -/
theorem spelled_spaces {input : List Token} {spaces text : List UInt8}
    (hspaces : ∀ char ∈ spaces, isWhitespace char = true) (htext : Spelled input text) :
    Spelled input (spaces ++ text) := by
  refine ⟨?_, isAscii_append.mpr ⟨isWhitespace_ascii hspaces, htext.2⟩⟩
  cases htext.1 with
  | nil hbehind => exact .nil (List.forall_mem_append.mpr ⟨hspaces, hbehind⟩)
  | cons hbehind hlexeme hrest =>
    rw [← List.append_assoc, ← List.append_assoc]
    exact .cons (List.forall_mem_append.mpr ⟨hspaces, hbehind⟩) hlexeme hrest

/-- A lexeme in front of a text. -/
theorem spelled_lexeme {token : Token} {input : List Token} {lexeme text : List UInt8}
    (hlexeme : Lexeme token lexeme) (hascii : IsAscii lexeme) (htext : Spelled input text) :
    Spelled (token :: input) (lexeme ++ text) :=
  ⟨.cons (List.forall_mem_nil _) hlexeme htext.1, isAscii_append.mpr ⟨hascii, htext.2⟩⟩

/-- A token besides a string in front of a text. -/
theorem spelled_token {token : Token} {input : List Token} {lexeme text : List UInt8}
    (hlexeme : Lexeme token lexeme) (hstring : ∀ value, token ≠ .string value)
    (htext : Spelled input text) : Spelled (token :: input) (lexeme ++ text) := by
  refine spelled_lexeme hlexeme ?_ htext
  unfold IsAscii
  cases hlexeme with
  | objOpen | objClose | arrOpen | arrClose | colon | comma | kwNull | kwTrue | kwFalse =>
    decide +kernel
  | number hnumber => exact isNumber_ascii hnumber
  | string hchars => exact absurd rfl (hstring _)

theorem spelled_quoted (str : List UInt8) {input : List Token} {text : List UInt8}
    (htext : Spelled input text) :
    Spelled (.string (recodeString str) :: input) (quoted str ++ text) := by
  have hquote : IsAscii ['"'.toUInt8] := List.forall_mem_singleton.mpr (by decide)
  exact spelled_lexeme (.string (chars_jsonEscape str)) (isAscii_cons.mpr ⟨by decide,
    isAscii_append.mpr ⟨ascii_jsonEscape str, hquote⟩⟩) htext

theorem spaces_pretty {piece : List UInt8} (hpiece : ∀ char ∈ piece, isWhitespace char = true)
    (prettyIndent : ℕ) : ∀ char ∈ pretty prettyIndent piece, isWhitespace char = true := by
  rw [pretty]
  split_ifs
  · exact hpiece
  · exact List.forall_mem_nil _

theorem spaces_indentStr (prettyIndent indentLevel : ℕ) :
    ∀ char ∈ pretty prettyIndent (indentStr prettyIndent indentLevel),
      isWhitespace char = true := by
  refine spaces_pretty (fun char hmem ↦ ?_) prettyIndent
  rw [List.eq_of_mem_replicate hmem]
  decide

mutual

/-- A value with every byte of its strings taken for a code point. -/
def recode : Value → Value
  | .null => .null
  | .bool value => .bool value
  | .number text hnumber => .number text hnumber
  | .string value => .string (recodeString value)
  | .array items => .array (recodeItems items)
  | .object members => .object (recodeMembers members)

def recodeItems : List Value → List Value
  | [] => []
  | item :: items => recode item :: recodeItems items

def recodeMembers : List (List UInt8 × Value) → List (List UInt8 × Value)
  | [] => []
  | (key, value) :: members => (recodeString key, recode value) :: recodeMembers members

end

mutual

/-- The text of a value is one of its tokens. By induction on the value. -/
theorem write_spelled (value : Value) (prettyIndent indentLevel : ℕ) {input : List Token}
    {text : List UInt8} (htext : Spelled input text) :
    Spelled (tokens (recode value) ++ input)
      (write prettyIndent indentLevel (ofValue value) ++ text) := by
  have hnewline : ∀ char ∈ ['\n'.toUInt8], isWhitespace char = true :=
    List.forall_mem_singleton.mpr (by decide)
  match value with
  | .null => exact spelled_token .kwNull nofun htext
  | .bool true => exact spelled_token .kwTrue nofun htext
  | .bool false => exact spelled_token .kwFalse nofun htext
  | .number _ hnumber => exact spelled_token (.number hnumber) nofun htext
  | .string str => exact spelled_quoted str htext
  | .array items =>
    have hclose := spelled_token .arrClose nofun htext
    have hindent := spelled_spaces (spaces_indentStr prettyIndent
      ((if indentLevel = 0 then 1 else indentLevel) - 1)) hclose
    have hitems := writeItems_spelled items prettyIndent
      (if indentLevel = 0 then 1 else indentLevel) hindent
    have hline := spelled_spaces (spaces_pretty hnewline prettyIndent) hitems
    have hopen := spelled_token .arrOpen nofun hline
    simp only [recode, tokens, ofValue, write, List.cons_append, List.append_assoc,
      List.nil_append] at hopen ⊢
    exact hopen
  | .object members =>
    have hclose := spelled_token .objClose nofun htext
    have hindent := spelled_spaces (spaces_indentStr prettyIndent
      ((if indentLevel = 0 then 1 else indentLevel) - 1)) hclose
    have hmembers := writeMembers_spelled members prettyIndent
      (if indentLevel = 0 then 1 else indentLevel) hindent
    have hline := spelled_spaces (spaces_pretty hnewline prettyIndent) hmembers
    have hopen := spelled_token .objOpen nofun hline
    simp only [recode, tokens, ofValue, write, List.cons_append, List.append_assoc,
      List.nil_append] at hopen ⊢
    exact hopen

theorem writeItems_spelled (items : List Value) (prettyIndent indentLevel : ℕ) {input : List Token}
    {text : List UInt8} (htext : Spelled input text) :
    Spelled (joined (itemPieces (recodeItems items)) ++ input)
      (writeItems prettyIndent indentLevel (ofItems items) ++ text) := by
  have hnewline : ∀ char ∈ ['\n'.toUInt8], isWhitespace char = true :=
    List.forall_mem_singleton.mpr (by decide)
  have hspace : ∀ char ∈ [' '.toUInt8], isWhitespace char = true :=
    List.forall_mem_singleton.mpr (by decide)
  match items with
  | [] => exact htext
  | [item] =>
    have hline := spelled_spaces (spaces_pretty hnewline prettyIndent) htext
    have hitem := write_spelled item prettyIndent ((indentLevel + 1) % 2 ^ 32) hline
    have hindent := spelled_spaces (spaces_indentStr prettyIndent indentLevel) hitem
    simp only [recodeItems, itemPieces, joined, List.intercalate_singleton, ofItems, writeItems,
      ne_eq, not_true, if_false, List.append_assoc, List.nil_append]
    exact hindent
  | item :: next :: items =>
    have hnext := writeItems_spelled (next :: items) prettyIndent indentLevel htext
    have hline := spelled_spaces (spaces_pretty hnewline prettyIndent) hnext
    have hblank := spelled_spaces (spaces_pretty hspace prettyIndent) hline
    have hcomma := spelled_token .comma nofun hblank
    have hitem := write_spelled item prettyIndent ((indentLevel + 1) % 2 ^ 32) hcomma
    have hindent := spelled_spaces (spaces_indentStr prettyIndent indentLevel) hitem
    have hmore : ofItems (next :: items) ≠ [] := List.cons_ne_nil _ _
    rw [recodeItems, recodeItems, itemPieces, itemPieces, joined_cons_cons, ← itemPieces,
      ← recodeItems, ofItems, writeItems, if_pos hmore]
    simp only [List.cons_append, List.append_assoc, List.nil_append] at hindent ⊢
    exact hindent

theorem writeMembers_spelled (members : List (List UInt8 × Value)) (prettyIndent indentLevel : ℕ)
    {input : List Token} {text : List UInt8} (htext : Spelled input text) :
    Spelled (joined (memberPieces (recodeMembers members)) ++ input)
      (writeMembers prettyIndent indentLevel (members.map Prod.fst) (ofMembers members) ++
        text) := by
  have hnewline : ∀ char ∈ ['\n'.toUInt8], isWhitespace char = true :=
    List.forall_mem_singleton.mpr (by decide)
  have hspace : ∀ char ∈ [' '.toUInt8], isWhitespace char = true :=
    List.forall_mem_singleton.mpr (by decide)
  match members with
  | [] => exact htext
  | [(key, value)] =>
    have hline := spelled_spaces (spaces_pretty hnewline prettyIndent) htext
    have hvalue := write_spelled value prettyIndent ((indentLevel + 1) % 2 ^ 32) hline
    have hblank := spelled_spaces (spaces_pretty hspace prettyIndent) hvalue
    have hcolon := spelled_token .colon nofun hblank
    have hkey := spelled_quoted key hcolon
    have hindent := spelled_spaces (spaces_indentStr prettyIndent indentLevel) hkey
    simp only [recodeMembers, memberPieces, joined, List.intercalate_singleton, ofMembers,
      writeMembers, List.map_cons, List.map_nil, ne_eq, not_true, if_false, List.append_assoc,
      List.nil_append, List.cons_append] at hindent ⊢
    exact hindent
  | (key, value) :: next :: members =>
    have hnext := writeMembers_spelled (next :: members) prettyIndent indentLevel htext
    have hline := spelled_spaces (spaces_pretty hnewline prettyIndent) hnext
    have hcomma := spelled_token .comma nofun hline
    have hvalue := write_spelled value prettyIndent ((indentLevel + 1) % 2 ^ 32) hcomma
    have hblank := spelled_spaces (spaces_pretty hspace prettyIndent) hvalue
    have hcolon := spelled_token .colon nofun hblank
    have hkey := spelled_quoted key hcolon
    have hindent := spelled_spaces (spaces_indentStr prettyIndent indentLevel) hkey
    have hmore : ofMembers (next :: members) ≠ [] := List.cons_ne_nil _ _
    rw [recodeMembers, recodeMembers, memberPieces, memberPieces, joined_cons_cons, ← memberPieces,
      ← recodeMembers, ofMembers, List.map_cons, writeMembers, if_pos hmore]
    simp only [List.cons_append, List.append_assoc, List.nil_append] at hindent ⊢
    exact hindent

end

/-! ### No null character -/

theorem zero_notMem_chars {text value : List UInt8} (hchars : Chars text value) : 0 ∉ text := by
  have hdigit {char : UInt8} {digit : ℕ} (hvalue : hexValue char = some digit) : 0 ≠ char := by
    rintro rfl
    cases hvalue
  induction hchars with
  | nil => exact List.not_mem_nil
  | plain hcontrol hquote hescape htext ih =>
    refine List.not_mem_cons_of_ne_of_not_mem ?_ ih
    rintro rfl
    exact absurd hcontrol (by decide)
  | simple hmark htext ih =>
    refine List.not_mem_cons_of_ne_of_not_mem (by decide)
      (List.not_mem_cons_of_ne_of_not_mem ?_ ih)
    rintro rfl
    exact absurd (escapedChar_eq_some_iff.mpr hmark) nofun
  | unicode ha hb hc hd htext ih =>
    simp only [List.mem_cons, not_or]
    exact ⟨by decide, by decide, hdigit ha, hdigit hb, hdigit hc, hdigit hd, ih⟩

theorem zero_notMem_lexeme {token : Token} {lexeme : List UInt8} (hlexeme : Lexeme token lexeme) :
    0 ∉ lexeme := by
  cases hlexeme with
  | objOpen | objClose | arrOpen | arrClose | colon | comma | kwNull | kwTrue | kwFalse => decide
  | number hnumber =>
    intro hmem
    exact absurd (isNumberChar_ascii (isNumberChar_of_isNumber hnumber 0 hmem)).1 (by decide)
  | string hchars =>
    simp only [List.mem_cons, List.mem_append, not_or]
    exact ⟨by decide, zero_notMem_chars hchars, by decide, List.not_mem_nil⟩

theorem zero_notMem_spaces {spaces : List UInt8}
    (hspaces : ∀ char ∈ spaces, isWhitespace char = true) :
    0 ∉ spaces := fun hmem ↦ absurd (hspaces 0 hmem) (by decide)

theorem zero_notMem_spaced {input : List Token} {text : List UInt8} (hspaced : Spaced input text) :
    0 ∉ text := by
  induction hspaced with
  | nil hspaces => exact zero_notMem_spaces hspaces
  | cons hspaces hlexeme htext ih =>
    simp only [List.mem_append, not_or]
    exact ⟨⟨zero_notMem_spaces hspaces, zero_notMem_lexeme hlexeme⟩, ih⟩

/-! ### Values that come back -/

mutual

/-- All strings of a value are ASCII. -/
def AsciiStrings : Value → Prop
  | .null | .bool _ | .number _ _ => True
  | .string value => IsAscii value
  | .array items => AsciiItems items
  | .object members => AsciiMembers members

def AsciiItems : List Value → Prop
  | [] => True
  | item :: items => AsciiStrings item ∧ AsciiItems items

def AsciiMembers : List (List UInt8 × Value) → Prop
  | [] => True
  | (key, value) :: members => IsAscii key ∧ AsciiStrings value ∧ AsciiMembers members

end

theorem length_utf8_pos (codepoint : ℕ) : 0 < (utf8 codepoint).length := by
  rw [utf8]
  split_ifs
  · exact Nat.one_pos
  · exact Nat.two_pos
  · exact Nat.succ_pos 2

theorem length_le_recodeString (str : List UInt8) : str.length ≤ (recodeString str).length := by
  induction str with
  | nil => exact Nat.le_refl 0
  | cons ch str ih =>
    have hpos := length_utf8_pos ch.toNat
    rw [recodeString, List.flatMap_cons, List.length_append, ← recodeString, List.length_cons]
    omega

theorem utf8_eq_singleton_iff {ch : UInt8} : (utf8 ch.toNat).length = 1 ↔ ch < 0x80 := by
  constructor
  · intro hlength
    by_contra hascii
    have hle : ¬ch.toNat < 0x80 := fun hlt ↦ hascii (UInt8.lt_iff_toNat_lt.mpr hlt)
    rw [utf8, if_neg hle] at hlength
    split_ifs at hlength
    · cases hlength
    · cases hlength
  · intro hascii
    rw [utf8_of_lt hascii]
    rfl

/-- Exactly the ASCII strings stay as they are. -/
theorem recodeString_eq_self_iff {str : List UInt8} : recodeString str = str ↔ IsAscii str := by
  induction str with
  | nil => exact iff_of_true rfl (List.forall_mem_nil _)
  | cons ch str ih =>
    rw [isAscii_cons, recodeString, List.flatMap_cons, ← recodeString]
    constructor
    · intro heq
      have hlength := congrArg List.length heq
      have hpos := length_utf8_pos ch.toNat
      have hle := length_le_recodeString str
      rw [List.length_append, List.length_cons] at hlength
      have hascii := utf8_eq_singleton_iff.mp (show (utf8 ch.toNat).length = 1 by omega)
      rw [utf8_of_lt hascii, List.singleton_append] at heq
      exact ⟨hascii, ih.mp (List.cons.inj heq).2⟩
    · rintro ⟨hascii, hstr⟩
      rw [utf8_of_lt hascii, ih.mpr hstr, List.singleton_append]

mutual

theorem ofValue_recode_iff (value : Value) :
    ofValue (recode value) = ofValue value ↔ AsciiStrings value := by
  match value with
  | .null | .bool _ | .number _ _ => exact iff_of_true rfl trivial
  | .string str =>
    rw [AsciiStrings, ← recodeString_eq_self_iff]
    simp only [recode, ofValue, UniValue.ofType, UniValue.mk.injEq, and_true, true_and]
  | .array items =>
    rw [AsciiStrings, ← ofItems_recode_iff items]
    simp only [recode, ofValue, UniValue.mk.injEq, true_and]
  | .object members =>
    rw [AsciiStrings, ← ofMembers_recode_iff members]
    simp only [recode, ofValue, UniValue.mk.injEq, true_and]

theorem ofItems_recode_iff (items : List Value) :
    ofItems (recodeItems items) = ofItems items ↔ AsciiItems items := by
  match items with
  | [] => exact iff_of_true rfl trivial
  | item :: items =>
    rw [AsciiItems, ← ofValue_recode_iff item, ← ofItems_recode_iff items]
    simp only [recodeItems, ofItems, List.cons.injEq]

theorem ofMembers_recode_iff (members : List (List UInt8 × Value)) :
    (recodeMembers members).map Prod.fst = members.map Prod.fst ∧
      ofMembers (recodeMembers members) = ofMembers members ↔ AsciiMembers members := by
  match members with
  | [] => exact iff_of_true ⟨rfl, rfl⟩ trivial
  | (key, value) :: members =>
    rw [AsciiMembers, ← ofValue_recode_iff value, ← ofMembers_recode_iff members,
      ← recodeString_eq_self_iff]
    simp only [recodeMembers, ofMembers, List.map_cons, List.cons.injEq]
    tauto

end

/-- The text of an object or of an array is read as the value with its strings recoded, which is the
value itself exactly if the strings are ASCII. -/
theorem read_write {value : Value} (hcontainer : IsContainer value) (prettyIndent indentLevel : ℕ)
    (hlength : (write prettyIndent indentLevel (ofValue value)).length < 2 ^ 32) :
    read (write prettyIndent indentLevel (ofValue value)) = (true, ofValue (recode value)) ∧
      (ofValue (recode value) = ofValue value ↔ AsciiStrings value) := by
  refine ⟨?_, ofValue_recode_iff value⟩
  have hspelled := write_spelled value prettyIndent indentLevel spelled_nil
  rw [List.append_nil, List.append_nil] at hspelled
  have hrecode : IsContainer (recode value) := by
    cases value with
    | array items | object members => trivial
    | null | bool | number | string => cases hcontainer
  rw [read_eq_true_iff hlength, cstring_eq_self (zero_notMem_spaced hspelled.1)]
  exact ⟨recode value, hrecode, rfl, hspelled.1, hspelled.2⟩

/-- An array with a string of two bytes, one of them not ASCII, indented. -/
theorem read_write_indented :
    read (write 2 0 (ofValue (.array [.null, .string [0x61, 0xe9]]))) =
        (true, ofValue (recode (.array [.null, .string [0x61, 0xe9]]))) ∧
      (ofValue (recode (.array [.null, .string [0x61, 0xe9]])) =
        ofValue (.array [.null, .string [0x61, 0xe9]]) ↔
          AsciiStrings (.array [.null, .string [0x61, 0xe9]])) :=
  read_write (show IsContainer (.array [.null, .string [0x61, 0xe9]]) from trivial) 2 0 (by decide)

end Exc.Json
