import Exc.Lib.CString
import Exc.Lib.Decimal

/-!
# INI files

`comLib/IniFile.cpp`: the sections and their entries, reading (`GetString`, `GetStringLowercase`,
`GetInteger`, `GetBool`), writing (`SetString`, `SetInteger`, `SetBool`, `add_a_key_value`,
`delete_a_key_value`), loading a file (`LoadIniFile`, `analyzeLine`) and saving it
(`flush_to_string`, `flush_to_file`).

A `std::string` is a list of bytes and may contain null bytes. A `const char *` is a `CStr`, with
`none` for a null pointer where the source looks for one. A `std::map` is an `ExtTreeMap`: its
order, that of the bytes, is the order in which the file is saved.

`LoadIniFile` reads with `std::istream::getline` into a buffer of 1024 characters, and its loop
looks at `eofbit` only. `Stream` has the state bits and the characters that are left, and the loop
takes an amount of fuel: no value means that it has not ended yet.

Scope. The file that is read is its contents, or nothing if it cannot be opened; the file that is
written can be opened. `m_strFilePath` is never read and left out, and so is the mutex.
-/

set_option autoImplicit false
set_option relaxedAutoImplicit false

namespace Exc.Ini

open Lib

/-- `std::string`. -/
abbrev Str := List UInt8

/-- `TSection`: the entries of a section. -/
abbrev TSection := Std.ExtTreeMap Str Str

/-- `IniFile`: its sections. -/
structure IniFile where
  mInifile : Std.ExtTreeMap Str TSection
  deriving DecidableEq

/-- `getLowercase`. -/
def getLowercase (char : UInt8) : UInt8 :=
  if 'A'.toUInt8 ≤ char ∧ char ≤ 'Z'.toUInt8 then char - 'A'.toUInt8 + 'a'.toUInt8 else char

/-- The loops that lower-case a name character by character. -/
def lowercase (name : Str) : Str := name.map getLowercase

/-- Capital letters become small letters, and nothing else changes. -/
theorem getLowercase_cases (char : UInt8) :
    getLowercase char = char ∨
      97 ≤ (getLowercase char).toNat ∧ (getLowercase char).toNat ≤ 122 := by
  have hcapitalA : 'A'.toUInt8.toNat = 65 := rfl
  have hcapitalZ : 'Z'.toUInt8.toNat = 90 := rfl
  have hsmallA : 'a'.toUInt8.toNat = 97 := rfl
  by_cases hcapital : 'A'.toUInt8 ≤ char ∧ char ≤ 'Z'.toUInt8
  · right
    rw [getLowercase, if_pos hcapital, UInt8.toNat_add, UInt8.toNat_sub_of_le _ _ hcapital.1]
    rw [UInt8.le_iff_toNat_le, UInt8.le_iff_toNat_le] at hcapital
    omega
  · left
    rw [getLowercase, if_neg hcapital]

theorem getLowercase_getLowercase (char : UInt8) :
    getLowercase (getLowercase char) = getLowercase char := by
  rcases getLowercase_cases char with hsame | ⟨hlower, -⟩
  · rw [hsame, hsame]
  · have hcapitalZ : 'Z'.toUInt8.toNat = 90 := rfl
    rw [getLowercase.eq_def (getLowercase char), if_neg]
    rintro ⟨-, hle⟩
    rw [UInt8.le_iff_toNat_le] at hle
    omega

theorem lowercase_lowercase (name : Str) : lowercase (lowercase name) = lowercase name := by
  simp only [lowercase, List.map_map, List.map_inj_left, Function.comp_apply]
  exact fun char _ ↦ getLowercase_getLowercase char

namespace IniFile

/-- `IniFile()`, and what `clear` leaves. -/
def empty : IniFile := ⟨∅⟩

/-! ### Reading entries -/

/-- `getSection`, where it does not create the section. -/
def getSection (ini : IniFile) (szSection : CStr) : Option TSection :=
  ini.mInifile[lowercase szSection.chars]?

/-- `getValue`. -/
def getValue (pSec : TSection) (szP : CStr) : Option CStr :=
  pSec[lowercase szP.chars]?.map CStr.ofString

/-- What `GetInteger` makes of the text of a value. -/
def toInteger (szValue : CStr) : Int32 :=
  if szValue.chars[0]? = some '0'.toUInt8 ∧
      (szValue.chars[1]? = some 'x'.toUInt8 ∨ szValue.chars[1]? = some 'X'.toUInt8) then
    sscanfHex szValue.chars
  else atoi szValue.chars

/-- `GetInteger`. -/
def getInteger (ini : IniFile) (szSection szKey : CStr) (nDefault : Int32) : Int32 :=
  match ini.getSection szSection with
  | none => nDefault
  | some p =>
    match getValue p szKey with
    | none => nDefault
    | some szValue => toInteger szValue

/-- `GetString`. -/
def getString (ini : IniFile) (szSection szKey szDefault : CStr) : Str :=
  match ini.getSection szSection with
  | none => szDefault.chars
  | some p =>
    match getValue p szKey with
    | none => szDefault.chars
    | some szValue => szValue.chars

/-- `GetStringLowercase`. -/
def getStringLowercase (ini : IniFile) (szSection szKey szDefault : CStr) : Str :=
  match ini.getSection szSection with
  | none => szDefault.chars
  | some p =>
    match getValue p szKey with
    | none => szDefault.chars
    | some szValue => lowercase szValue.chars

/-- The default that `GetBool` passes on, and what `SetBool` stores. -/
def boolText : Bool → CStr
  | true => ⟨chars "yes", by decide⟩
  | false => ⟨chars "no", by decide⟩

/-- `GetBool`. -/
def getBool (ini : IniFile) (szSection szKey : CStr) (bDefault : Bool) : Bool :=
  let str := ini.getStringLowercase szSection szKey (boolText bDefault)
  str = chars "yes" || str = chars "true"

/-! ### Writing entries -/

/-- `(*p)[szKey] = value` with `p = getSection(szSection, true)`: the section is created if it is
not there. Its name is lower-cased, the key is not. -/
def assign (ini : IniFile) (szSection szKey : CStr) (value : Str) : IniFile :=
  let strSec := lowercase szSection.chars
  let p := ini.mInifile[strSec]?.getD ∅
  ⟨ini.mInifile.insert strSec (p.insert szKey.chars value)⟩

/-- `SetInteger`. -/
def setInteger (ini : IniFile) (szSection szKey : Option CStr) (value : Int32) : IniFile :=
  match szSection, szKey with
  | some szSection, some szKey => ini.assign szSection szKey (formatInt value)
  | _, _ => ini

/-- `SetString`. -/
def setString (ini : IniFile) (szSection szKey value : Option CStr) : IniFile :=
  match szSection, szKey, value with
  | some szSection, some szKey, some value =>
    if value.chars.length = 0 then ini else ini.assign szSection szKey value.chars
  | _, _, _ => ini

/-- `SetBool`. -/
def setBool (ini : IniFile) (szSection szKey : Option CStr) (bValue : Bool) : IniFile :=
  match szSection, szKey with
  | some szSection, some szKey => ini.assign szSection szKey (boolText bValue).chars
  | _, _ => ini

/-- `add_a_key_value`, with what it returns. -/
def addAKeyValue (ini : IniFile) (strSection strP strV : Str) : IniFile × Bool :=
  match ini.mInifile[strSection]? with
  | none => (ini, false)
  | some pSec => (⟨ini.mInifile.insert strSection (pSec.insert strP strV)⟩, true)

/-- `delete_a_key_value`, with what it returns. -/
def deleteAKeyValue (ini : IniFile) (strSection strP : Str) : IniFile × Bool :=
  match ini.mInifile[strSection]? with
  | none => (ini, false)
  | some pSec => (⟨ini.mInifile.insert strSection (pSec.erase strP)⟩, true)

/-! ### Analyzing a line -/

/-- `addASection`: only the first one is added. -/
def addASection (ini : IniFile) (strSection : Str) : IniFile :=
  if strSection ∈ ini.mInifile then ini else ⟨ini.mInifile.insert strSection ∅⟩

/-- `addAValue`: only the first one is added, and only to a section that is there. -/
def addAValue (ini : IniFile) (strSection strP strV : Str) : IniFile :=
  match ini.mInifile[strSection]? with
  | none => ini
  | some pSec =>
    if strP ∈ pSec then ini else ⟨ini.mInifile.insert strSection (pSec.insert strP strV)⟩

end IniFile

/-- Blanks and tabs, which are skipped in names. -/
def isBlank (char : UInt8) : Bool := char ∈ chars " \t"

/-- The marks that finish a line. -/
def isFinish (char : UInt8) : Bool := char ∈ chars "#;\r"

/-- `'` and `"`. -/
def isQuote (char : UInt8) : Bool := char ∈ chars "\x27\x22"

/-- The loop of `analyzeLine` for a line without `=`: the name up to a `]`, if there is one that is
not empty. The end of the list is the null byte at the end of the line. -/
def sectionName (bSection : Bool) (strSec : Str) : Str → Option Str
  | [] => none
  | char :: rest =>
    if isBlank char then sectionName bSection strSec rest
    else if char = '['.toUInt8 then
      if bSection then none else sectionName true strSec rest
    else if char = ']'.toUInt8 then
      if strSec.length = 0 then none else some strSec
    else if isFinish char then none
    else if bSection then sectionName bSection (strSec ++ [getLowercase char]) rest
    else none

/-- The loop of `analyzeLine` over the characters before the `=`. -/
def parameterName (strCurrSec strPara : Str) : Str → Option Str
  | [] => some strPara
  | char :: rest =>
    if isBlank char then parameterName strCurrSec strPara rest
    else if isFinish char then none
    else if char ∈ chars "[]" || isQuote char then none
    else if strCurrSec = chars "domain_isp_map" then
      parameterName strCurrSec (strPara ++ [char]) rest
    else parameterName strCurrSec (strPara ++ [getLowercase char]) rest

/-- The loop of `analyzeLine` over the characters after the `=`: the value that it adds. -/
def parameterValue (bInBarcket : Bool) (strValue : Str) : Str → Str
  | [] => strValue
  | char :: rest =>
    if char = ' '.toUInt8 then
      parameterValue bInBarcket (if bInBarcket then strValue ++ [char] else strValue) rest
    else if isQuote char then
      if bInBarcket then strValue else parameterValue true strValue rest
    else if isFinish char then strValue
    else parameterValue bInBarcket (strValue ++ [char]) rest

/-- `analyzeLine` for a line without `=`. -/
def analyzeSection (ini : IniFile) (strCurrSec szLine : Str) : IniFile × Str :=
  match sectionName false [] szLine with
  | none => (ini, strCurrSec)
  | some strSec => (ini.addASection strSec, strSec)

/-- `analyzeLine` for a line with an `=`, given as what is before it and what is after it. -/
def analyzeParameter (ini : IniFile) (strCurrSec before after : Str) : IniFile × Str :=
  if strCurrSec.length = 0 then (ini, strCurrSec)
  else
    match parameterName strCurrSec [] before with
    | none => (ini, strCurrSec)
    | some strPara =>
      if strPara.length = 0 then (ini, strCurrSec)
      else (ini.addAValue strCurrSec strPara (parameterValue false [] after), strCurrSec)

/-- `analyzeLine`: the sections and the current one afterwards. It always returns true. -/
def analyzeLine (ini : IniFile) (strCurrSec szLine : Str) : IniFile × Str :=
  if '='.toUInt8 ∈ szLine then
    let before := szLine.takeWhile (· ≠ '='.toUInt8)
    analyzeParameter ini strCurrSec before (szLine.drop (before.length + 1))
  else analyzeSection ini strCurrSec szLine

/-! ### Loading -/

/-- `std::ifstream`: the characters that are left, `eofbit` and `failbit`. -/
structure Stream where
  rest : List UInt8
  eof : Bool
  fail : Bool
  deriving DecidableEq

/-- `CFG_LINE_LEN`. -/
def cfgLineLen : ℕ := 1024

/-- `getline(line, size)`: what it stores in the buffer, and the stream afterwards. A stream that is
not good extracts nothing. Otherwise characters are extracted up to the end of the stream, to a
newline (which is extracted too), or until `size - 1` of them are stored. -/
def Stream.getline (stream : Stream) (size : ℕ) : List UInt8 × Stream :=
  if stream.eof || stream.fail then ([], { stream with fail := true })
  else
    let line := (stream.rest.takeWhile (· ≠ '\n'.toUInt8)).take (size - 1)
    match stream.rest.drop line.length with
    | [] => (line, ⟨[], true, line.length = 0⟩)
    | char :: rest =>
      if char = '\n'.toUInt8 then (line, ⟨rest, false, false⟩)
      else (line, ⟨char :: rest, false, true⟩)

/-- What the loop of `LoadIniFile` changes. -/
structure LoadState where
  ini : IniFile
  strCurrSection : Str
  inif : Stream

/-- What one line does. Only the characters before a null byte are seen. -/
def loadLine (ini : IniFile) (strCurrSection line : Str) : IniFile × Str :=
  if (cstring line).length = 0 then (ini, strCurrSection)
  else analyzeLine ini strCurrSection (cstring line)

/-- One round of the loop. -/
def LoadState.next (state : LoadState) : LoadState :=
  let (line, inif) := state.inif.getline cfgLineLen
  let (ini, strCurrSection) := loadLine state.ini state.strCurrSection line
  ⟨ini, strCurrSection, inif⟩

/-- `while(!inif.eof())`, for at most `fuel` rounds. -/
def loadLoop : ℕ → LoadState → Option LoadState
  | 0, state => if state.inif.eof then some state else none
  | fuel + 1, state => if state.inif.eof then some state else loadLoop fuel state.next

/-- `LoadIniFile`, with what it returns. What was there before is cleared. -/
def loadIniFile (fuel : ℕ) (file : Option (List UInt8)) : Option (IniFile × Bool) :=
  match file with
  | none => some (.empty, false)
  | some content =>
    (loadLoop fuel ⟨.empty, [], ⟨content, false, false⟩⟩).map fun state ↦ (state.ini, true)

/-! ### Saving -/

/-- The line of an entry: the key is filled up to 21 characters. -/
def entryLine (key value : Str) : Str :=
  let strLine := cstring key
  strLine ++ List.replicate (21 - strLine.length) ' '.toUInt8 ++ chars "= " ++ cstring value

/-- What is written for a section: its name, its entries and an empty line. -/
def sectionText (name : Str) (entries : TSection) : Str :=
  chars "[" ++ cstring name ++ chars "]" ++ chars "\n" ++
    (entries.toList.flatMap fun entry ↦ entryLine entry.1 entry.2 ++ chars "\n") ++ chars "\n"

/-- What is written for all sections. -/
def IniFile.sectionsText (ini : IniFile) : Str :=
  ini.mInifile.toList.flatMap fun entry ↦ sectionText entry.1 entry.2

/-- `flush_to_string`: it appends to its argument. -/
def IniFile.flushToString (ini : IniFile) (strConfigure : Str) : Str :=
  strConfigure ++ chars "#Host version 1.0.0.1" ++ chars "\n" ++ chars "#2014.04.18" ++
    chars "\n" ++ chars "\n" ++ ini.sectionsText

/-- `flush_to_file`: the name of the file that is written, and what it contains afterwards. -/
def IniFile.flushToFile (ini : IniFile) (strFileName : Str) : Str × List UInt8 :=
  (if strFileName.isEmpty then chars "Host.ini" else strFileName,
    chars "#Host configure file" ++ chars "\n" ++ chars "\n" ++ ini.sectionsText)

end Exc.Ini
