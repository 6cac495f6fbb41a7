import Exc.Ini.RoundTrip
import Exc.Ini.SetGet

/-!
# What a file says

The meaning of an INI file in terms of its lines, and that `LoadIniFile` and `GetString` follow it.

A line is a header (`HeaderLine`), an assignment (`AssignmentLine`) or neither. A line is under a
name if the last header before it has the name (`Under`), and a key has the value of the first line
under its section that assigns it (`FirstAssigned`). None of this mentions the loops of
`analyzeLine` or the sections that they fill.

The loops are matched against the grammar one by one (`sectionName_iff`, `parameterName_eq`,
`parameterValue_eq_assignedValue`), and so is what a whole line does (`loadLine_header`,
`loadLine_assignment`, `loadLine_other`). `Reads` relates lines to what the loader has made of them;
it is kept line by line (`reads_snoc`).
-/

set_option autoImplicit false
set_option relaxedAutoImplicit false

namespace Exc.Ini

open Lib

/-! ### The grammar -/

/-- A name as it is looked up: without blanks and tabs and in lower case. -/
def plainName (raw : Str) : Str := lowercase (raw.filter fun char ↦ !isBlank char)

/-- A header: blanks, a name in brackets and anything behind it, and no `=`. -/
def HeaderLine (line name : Str) : Prop :=
  '='.toUInt8 ∉ line ∧ ∃ blanks raw rest,
    line = blanks ++ '['.toUInt8 :: (raw ++ ']'.toUInt8 :: rest) ∧
    (∀ char ∈ blanks, isBlank char) ∧ (∀ char ∈ raw, char ∉ chars "[]#;\r") ∧
    name = plainName raw ∧ name ≠ []

/-- The value behind an `=`: it ends before a finish mark or a second quote, the first quote is
dropped, and so are the spaces before it. -/
def assignedValue (after : Str) : Str :=
  let text := after.takeWhile fun char ↦ !isFinish char
  let unquoted := text.takeWhile fun char ↦ !isQuote char
  let quoted := (text.dropWhile fun char ↦ !isQuote char).tail.takeWhile fun char ↦ !isQuote char
  dropSpaces unquoted ++ quoted

/-- An assignment: a key and a value around the first `=`. -/
def AssignmentLine (line key value : Str) : Prop :=
  ∃ before after, line = before ++ '='.toUInt8 :: after ∧ '='.toUInt8 ∉ before ∧
    (∀ char ∈ before, char ∉ chars "#;\r[]\x27\x22") ∧
    key = plainName before ∧ key ≠ [] ∧ value = assignedValue after

/-- The last header of the lines has the name. -/
def Under (lines : List Str) (name : Str) : Prop :=
  ∃ front line back, lines = front ++ line :: back ∧ HeaderLine line name ∧
    ∀ other ∈ back, ∀ otherName, ¬HeaderLine other otherName

/-- Some line under the name assigns the value to the key. -/
def Assigned (lines : List Str) (name key value : Str) : Prop :=
  ∃ front line back, lines = front ++ line :: back ∧ Under front name ∧
    AssignmentLine line key value

/-- The first line under the name that assigns the key assigns the value to it. -/
def FirstAssigned (lines : List Str) (name key value : Str) : Prop :=
  ∃ front line back, lines = front ++ line :: back ∧ Under front name ∧
    AssignmentLine line key value ∧ ∀ other, ¬Assigned front name key other

/-! ### The loops over a line -/

theorem plainName_blank {char : UInt8} (hblank : isBlank char) (raw : Str) :
    plainName (char :: raw) = plainName raw := by
  rw [plainName, List.filter_cons_of_neg (by simpa using hblank)]
  rfl

theorem plainName_char {char : UInt8} (hblank : ¬isBlank char) (raw : Str) :
    plainName (char :: raw) = getLowercase char :: plainName raw := by
  rw [plainName, List.filter_cons_of_pos (by simpa using hblank)]
  rfl

/-- The name in brackets is read up to the first closing bracket. -/
theorem sectionName_raw {raw rest : Str} (hraw : ∀ char ∈ raw, char ∉ chars "[]#;\r")
    (strSec : Str) : sectionName true strSec (raw ++ ']'.toUInt8 :: rest) =
      if strSec ++ plainName raw = [] then none else some (strSec ++ plainName raw) := by
  induction raw generalizing strSec with
  | nil =>
    rw [List.nil_append, sectionName, if_neg (by decide), if_neg (by decide), if_pos rfl]
    simp only [plainName, List.filter_nil, lowercase, List.map_nil, List.append_nil,
      List.length_eq_zero_iff]
  | cons char raw ih =>
    obtain ⟨hchar, hraw⟩ := List.forall_mem_cons.mp hraw
    have hopen : char ≠ '['.toUInt8 := fun heq ↦ hchar (heq ▸ by decide)
    have hclose : char ≠ ']'.toUInt8 := fun heq ↦ hchar (heq ▸ by decide)
    have hfinish : ¬isFinish char := fun hfinish ↦
      notMem_of_marks hchar (by decide) (of_decide_eq_true hfinish)
    rw [List.cons_append, sectionName]
    by_cases hblank : isBlank char
    · rw [if_pos hblank, ih hraw, plainName_blank hblank]
    · rw [if_neg hblank, if_neg hopen, if_neg hclose, if_neg hfinish, if_pos rfl, ih hraw,
        plainName_char hblank, List.append_assoc, List.singleton_append]

/-- What is read as a name in brackets is one. -/
theorem raw_of_sectionName {line strSec name : Str}
    (hname : sectionName true strSec line = some name) :
    ∃ raw rest, line = raw ++ ']'.toUInt8 :: rest ∧ ∀ char ∈ raw, char ∉ chars "[]#;\r" := by
  have hmarks : ∀ mark ∈ chars "[]#;\r", mark = '['.toUInt8 ∨ mark = ']'.toUInt8 ∨
      isFinish mark := forall_mark (by decide)
  have hblanks : ∀ mark ∈ chars " \t", mark ∉ chars "[]#;\r" := forall_mark (by decide)
  induction line generalizing strSec with
  | nil => cases hname
  | cons char line ih =>
    simp only [sectionName, ↓reduceIte] at hname
    split_ifs at hname with hblank hopen hclose hempty hfinish
    · obtain ⟨raw, rest, rfl, hraw⟩ := ih hname
      refine ⟨char :: raw, rest, rfl, List.forall_mem_cons.mpr ⟨?_, hraw⟩⟩
      exact hblanks char (of_decide_eq_true hblank)
    · exact ⟨[], line, by rw [hclose]; rfl, List.forall_mem_nil _⟩
    · obtain ⟨raw, rest, rfl, hraw⟩ := ih hname
      refine ⟨char :: raw, rest, rfl, List.forall_mem_cons.mpr ⟨fun hmem ↦ ?_, hraw⟩⟩
      rcases hmarks char hmem with hmark | hmark | hmark
      · exact hopen hmark
      · exact hclose hmark
      · exact hfinish hmark

/-- Blanks before the opening bracket are skipped. -/
theorem sectionName_blanks {blanks rest : Str} (hblanks : ∀ char ∈ blanks, isBlank char) :
    sectionName false [] (blanks ++ '['.toUInt8 :: rest) = sectionName true [] rest := by
  induction blanks with
  | nil => rw [List.nil_append, sectionName, if_neg (by decide), if_pos rfl,
      if_neg Bool.false_ne_true]
  | cons char blanks ih =>
    obtain ⟨hblank, hblanks⟩ := List.forall_mem_cons.mp hblanks
    rw [List.cons_append, sectionName, if_pos hblank, ih hblanks]

/-- Nothing but blanks comes before the opening bracket. -/
theorem blanks_of_sectionName {line name : Str} (hname : sectionName false [] line = some name) :
    ∃ blanks rest, line = blanks ++ '['.toUInt8 :: rest ∧ ∀ char ∈ blanks, isBlank char := by
  induction line with
  | nil => cases hname
  | cons char line ih =>
    simp only [sectionName, Bool.false_eq_true, ↓reduceIte, List.length_nil] at hname
    split_ifs at hname with hblank hopen hclose hfinish
    · obtain ⟨blanks, rest, rfl, hblanks⟩ := ih hname
      exact ⟨char :: blanks, rest, rfl, List.forall_mem_cons.mpr ⟨hblank, hblanks⟩⟩
    · exact ⟨[], line, by rw [hopen]; rfl, List.forall_mem_nil _⟩

/-- A line without `=` is a header exactly if the loop finds a name in it. -/
theorem sectionName_iff {line name : Str} (hline : '='.toUInt8 ∉ line) :
    sectionName false [] line = some name ↔ HeaderLine line name := by
  constructor
  · intro hname
    obtain ⟨blanks, inside, rfl, hblanks⟩ := blanks_of_sectionName hname
    rw [sectionName_blanks hblanks] at hname
    obtain ⟨raw, rest, rfl, hraw⟩ := raw_of_sectionName hname
    rw [sectionName_raw hraw, List.nil_append] at hname
    split_ifs at hname with hempty
    cases hname
    exact ⟨hline, blanks, raw, rest, rfl, hblanks, hraw, rfl, hempty⟩
  · rintro ⟨-, blanks, raw, rest, rfl, hblanks, hraw, rfl, hne⟩
    rw [sectionName_blanks hblanks, sectionName_raw hraw, List.nil_append, if_neg hne]

/-- The loop over a key, outside of the one section whose keys keep their case. -/
theorem parameterName_eq {strCurrSec : Str} (hcurr : strCurrSec ≠ chars "domain_isp_map")
    (strPara before : Str) : parameterName strCurrSec strPara before =
      if before.all fun char ↦ char ∉ chars "#;\r[]\x27\x22" then
        some (strPara ++ plainName before)
      else none := by
  have hmarks : ∀ mark ∈ chars "#;\r[]\x27\x22", ¬isBlank mark ∧
      (isFinish mark ∨ (mark ∈ chars "[]" || isQuote mark)) := forall_mark (by decide)
  induction before generalizing strPara with
  | nil => simp [parameterName, plainName, lowercase]
  | cons char before ih =>
    simp only [parameterName, List.all_cons]
    by_cases hblank : isBlank char
    · have hchar : char ∉ chars "#;\r[]\x27\x22" := fun hmem ↦ (hmarks char hmem).1 hblank
      rw [if_pos hblank, ih, plainName_blank hblank]
      simp only [hchar, not_false_eq_true, decide_true, Bool.true_and]
    · by_cases hmark : char ∈ chars "#;\r[]\x27\x22"
      · simp only [hmark, not_true_eq_false, decide_false, Bool.false_and, Bool.false_eq_true,
          if_false]
        rw [if_neg hblank]
        rcases (hmarks char hmark).2 with hfinish | hinvalid
        · rw [if_pos hfinish]
        · rw [if_pos hinvalid, ite_self]
      · have hfinish : ¬isFinish char := fun hfinish ↦
          notMem_of_marks hmark (by decide) (of_decide_eq_true hfinish)
        have hinvalid : ¬(char ∈ chars "[]" || isQuote char) := by
          rw [Bool.or_eq_true, not_or]
          exact ⟨fun hbracket ↦ notMem_of_marks hmark (by decide) (of_decide_eq_true hbracket),
            fun hquote ↦ notMem_of_marks hmark (by decide) (of_decide_eq_true hquote)⟩
        rw [if_neg hblank, if_neg hfinish, if_neg hinvalid, if_neg hcurr, ih,
          plainName_char hblank, List.append_assoc, List.singleton_append]
        simp only [hmark, not_false_eq_true, decide_true, Bool.true_and]

/-- Behind a quote the value goes up to a finish mark or the next quote. -/
theorem parameterValue_quoted (strValue after : Str) : parameterValue true strValue after =
    strValue ++ (after.takeWhile fun char ↦ !isFinish char).takeWhile fun char ↦ !isQuote char := by
  have hspace : isFinish ' '.toUInt8 = false ∧ isQuote ' '.toUInt8 = false := by decide
  have hquotes : ∀ mark ∈ chars "\x27\x22", isFinish mark = false := forall_mark (by decide)
  induction after generalizing strValue with
  | nil => simp [parameterValue]
  | cons char after ih =>
    simp only [parameterValue, ↓reduceIte]
    split_ifs with hchar hquote hfinish
    · subst hchar
      simp [ih, hspace]
    · simp [hquotes char (of_decide_eq_true hquote), hquote]
    · simp [hfinish]
    · simp [ih, hquote, hfinish]

/-- The loop over a value. -/
theorem parameterValue_eq_assignedValue (after : Str) :
    parameterValue false [] after = assignedValue after := by
  have hspace : isFinish ' '.toUInt8 = false ∧ isQuote ' '.toUInt8 = false := by decide
  have hquotes : ∀ mark ∈ chars "\x27\x22", isFinish mark = false := forall_mark (by decide)
  have hloop : ∀ strValue, parameterValue false strValue after =
      strValue ++ assignedValue after := by
    induction after with
    | nil => simp [parameterValue, assignedValue, dropSpaces]
    | cons char after ih =>
      intro strValue
      simp only [parameterValue, Bool.false_eq_true, ↓reduceIte]
      split_ifs with hchar hquote hfinish
      · subst hchar
        simp [ih, assignedValue, dropSpaces, hspace]
      · rw [parameterValue_quoted]
        simp [assignedValue, dropSpaces, hquotes char (of_decide_eq_true hquote), hquote]
      · simp [assignedValue, dropSpaces, hfinish]
      · simp [ih, assignedValue, dropSpaces, hquote, hfinish, hchar]
  exact hloop []

/-! ### What a line does -/

/-- A line has one name at most. -/
theorem HeaderLine.unique {line name other : Str} (h : HeaderLine line name)
    (hother : HeaderLine line other) : name = other :=
  Option.some.inj (((sectionName_iff h.1).mpr h).symm.trans ((sectionName_iff h.1).mpr hother))

/-- A line assigns at most one value to one key. -/
theorem AssignmentLine.unique {line key value otherKey otherValue : Str}
    (h : AssignmentLine line key value) (hother : AssignmentLine line otherKey otherValue) :
    key = otherKey ∧ value = otherValue := by
  obtain ⟨before, after, rfl, hbefore, -, rfl, -, rfl⟩ := h
  obtain ⟨before', after', hline, hbefore', -, rfl, -, rfl⟩ := hother
  have heq : before = before' := by
    have hbegin : (before ++ '='.toUInt8 :: after).takeWhile (· ≠ '='.toUInt8) = before :=
      takeWhile_mark hbefore
    rw [← hbegin, hline, takeWhile_mark hbefore']
  subst heq
  have hafter := List.append_cancel_left hline
  cases hafter
  exact ⟨rfl, rfl⟩

section Line

variable {ini : IniFile} {strCurrSec line : Str}

/-- A header makes its section the current one. -/
theorem loadLine_header {name : Str} (hclean : 0 ∉ line) (h : HeaderLine line name) :
    loadLine ini strCurrSec line = (ini.addASection name, name) := by
  have hne : line ≠ [] := by
    obtain ⟨-, blanks, raw, rest, rfl, -⟩ := h
    simp
  rw [loadLine_eq hclean hne, analyzeLine, if_neg h.1, analyzeSection, (sectionName_iff h.1).mpr h]

/-- An assignment adds its value to the current section. -/
theorem loadLine_assignment {key value : Str} (hclean : 0 ∉ line) (hcurr : strCurrSec ≠ [])
    (hdomain : strCurrSec ≠ chars "domain_isp_map") (h : AssignmentLine line key value) :
    loadLine ini strCurrSec line = (ini.addAValue strCurrSec key value, strCurrSec) := by
  obtain ⟨before, after, rfl, hbefore, hmarks, rfl, hkey, rfl⟩ := h
  rw [loadLine_eq hclean (by simp), analyzeLine_mark hbefore, analyzeParameter,
    if_neg (by rwa [List.length_eq_zero_iff]), parameterName_eq hdomain,
    if_pos (List.all_eq_true.mpr fun char hchar ↦ decide_eq_true (hmarks char hchar))]
  dsimp only
  rw [List.nil_append, if_neg (by rwa [List.length_eq_zero_iff]), parameterValue_eq_assignedValue]

/-- All other lines do nothing. -/
theorem loadLine_other (hclean : 0 ∉ line) (hheader : ∀ name, ¬HeaderLine line name)
    (hdomain : strCurrSec ≠ chars "domain_isp_map")
    (hassign : strCurrSec = [] ∨ ∀ key value, ¬AssignmentLine line key value) :
    loadLine ini strCurrSec line = (ini, strCurrSec) := by
  by_cases hempty : line = []
  · subst hempty
    rfl
  · rw [loadLine_eq hclean hempty]
    by_cases hmark : '='.toUInt8 ∈ line
    · obtain ⟨before, after, rfl, hbefore⟩ := List.eq_append_cons_of_mem hmark
      rw [analyzeLine_mark hbefore, analyzeParameter]
      rcases hassign with rfl | hassign
      · exact if_pos rfl
      · by_cases hcurr : strCurrSec = []
        · rw [if_pos (List.length_eq_zero_iff.mpr hcurr)]
        · rw [if_neg (by rwa [List.length_eq_zero_iff]), parameterName_eq hdomain]
          by_cases hmarks : ∀ char ∈ before, char ∉ chars "#;\r[]\x27\x22"
          · rw [if_pos (List.all_eq_true.mpr fun char hchar ↦ decide_eq_true (hmarks char hchar)),
              List.nil_append]
            dsimp only
            rw [if_pos]
            by_contra hkey
            rw [List.length_eq_zero_iff] at hkey
            exact hassign _ _ ⟨before, after, rfl, hbefore, hmarks, rfl, hkey, rfl⟩
          · rw [if_neg fun hall ↦ hmarks fun char hchar ↦
              of_decide_eq_true (List.all_eq_true.mp hall char hchar)]
    · rw [analyzeLine, if_neg hmark, analyzeSection]
      cases hname : sectionName false [] line with
      | none => rfl
      | some name => exact absurd ((sectionName_iff hmark).mp hname) (hheader name)

/-- A line that is not a header adds at most an entry to the current section. -/
theorem loadLine_cases (hclean : 0 ∉ line) (hheader : ∀ name, ¬HeaderLine line name) :
    loadLine ini strCurrSec line = (ini, strCurrSec) ∨
      ∃ key value, loadLine ini strCurrSec line =
        (ini.addAValue strCurrSec key value, strCurrSec) := by
  by_cases hempty : line = []
  · subst hempty
    exact Or.inl rfl
  · rw [loadLine_eq hclean hempty, analyzeLine]
    split_ifs with hmark
    · rw [analyzeParameter]
      split_ifs with hcurr
      · exact Or.inl rfl
      · cases parameterName strCurrSec [] (line.takeWhile (· ≠ '='.toUInt8)) with
        | none => exact Or.inl rfl
        | some strPara =>
          dsimp only
          split_ifs with hpara
          · exact Or.inl rfl
          · exact Or.inr ⟨_, _, rfl⟩
    · rw [analyzeSection]
      cases hname : sectionName false [] line with
      | none => exact Or.inl rfl
      | some name => exact absurd ((sectionName_iff hmark).mp hname) (hheader name)

end Line

/-! ### Sections and entries -/

/-- The value that is stored under the two names. -/
def IniFile.entry (ini : IniFile) (name key : Str) : Option Str :=
  ini.mInifile[name]?.bind fun entries ↦ entries[key]?

section Entry

variable {ini : IniFile}

theorem entry_addASection (added name key : Str) :
    (ini.addASection added).entry name key = ini.entry name key := by
  rw [IniFile.addASection]
  split_ifs with hmem
  · rfl
  · rw [IniFile.entry, getElem?_insert_eq, IniFile.entry]
    split_ifs with heq
    · subst heq
      rw [Std.ExtTreeMap.getElem?_eq_none hmem]
      rfl
    · rfl

theorem entry_addAValue_of_ne {strCurrSec name : Str} (hne : strCurrSec ≠ name)
    (added value key : Str) :
    (ini.addAValue strCurrSec added value).entry name key = ini.entry name key := by
  rw [IniFile.addAValue]
  cases ini.mInifile[strCurrSec]? with
  | none => rfl
  | some entries =>
    dsimp only
    split_ifs with hmem
    · rfl
    · rw [IniFile.entry, getElem?_insert_of_ne _ hne, IniFile.entry]

/-- Only the first value of a key is added. -/
theorem entry_addAValue {name : Str} (hname : name ∈ ini.mInifile) (added value key : Str) :
    (ini.addAValue name added value).entry name key =
      if added = key then (ini.entry name key).or (some value) else ini.entry name key := by
  obtain ⟨entries, hentries⟩ : ∃ entries, ini.mInifile[name]? = some entries :=
    ⟨_, Std.ExtTreeMap.getElem?_eq_some_getElem hname⟩
  have hentry : ∀ other, ini.entry name other = entries[other]? := by
    intro other
    rw [IniFile.entry, hentries, Option.bind_some]
  rw [hentry, IniFile.addAValue, hentries]
  dsimp only
  by_cases hmem : added ∈ entries
  · rw [if_pos hmem, hentry]
    split_ifs with hkey
    · subst hkey
      rw [Std.ExtTreeMap.getElem?_eq_some_getElem hmem, Option.some_or]
    · rfl
  · rw [if_neg hmem, IniFile.entry, getElem?_insert_eq, if_pos rfl, Option.bind_some,
      getElem?_insert_eq]
    split_ifs with hkey
    · subst hkey
      rw [Std.ExtTreeMap.getElem?_eq_none hmem, Option.none_or]
    · rfl

theorem mem_addASection (added : Str) : added ∈ (ini.addASection added).mInifile := by
  rw [IniFile.addASection]
  split_ifs with hmem
  · exact hmem
  · exact Std.ExtTreeMap.mem_insert_self

theorem mem_addAValue {name : Str} (hname : name ∈ ini.mInifile) (strCurrSec key value : Str) :
    name ∈ (ini.addAValue strCurrSec key value).mInifile := by
  rw [IniFile.addAValue]
  cases ini.mInifile[strCurrSec]? with
  | none => exact hname
  | some entries =>
    dsimp only
    split_ifs with hmem
    · exact hname
    · exact Std.ExtTreeMap.mem_insert.mpr (Or.inr hname)

end Entry

/-! ### One line more -/

section Snoc

variable {lines : List Str} {line name key value : Str}

/-- What the last member of a list can be. -/
theorem snoc_eq_split {α : Type} {all front back : List α} {final last : α} :
    all ++ [final] = front ++ last :: back ↔
      (∃ rest, back = rest ++ [final] ∧ all = front ++ last :: rest) ∨
        back = [] ∧ last = final ∧ front = all := by
  constructor
  · intro heq
    rcases List.eq_nil_or_concat back with rfl | ⟨rest, added, rfl⟩
    · obtain ⟨hfront, hlast⟩ := List.append_inj' heq rfl
      exact Or.inr ⟨rfl, (List.cons.inj hlast).1.symm, hfront.symm⟩
    · rw [List.concat_eq_append] at heq ⊢
      rw [← List.cons_append, ← List.append_assoc] at heq
      obtain ⟨hall, hlast⟩ := List.append_inj' heq rfl
      cases hlast
      exact Or.inl ⟨rest, rfl, hall⟩
  · rintro (⟨rest, rfl, rfl⟩ | ⟨rfl, rfl, rfl⟩)
    · simp
    · rfl

theorem under_snoc : Under (lines ++ [line]) name ↔
    HeaderLine line name ∨ (∀ other, ¬HeaderLine line other) ∧ Under lines name := by
  constructor
  · rintro ⟨front, last, back, hlines, hheader, hback⟩
    rcases snoc_eq_split.mp hlines with ⟨rest, rfl, rfl⟩ | ⟨rfl, rfl, rfl⟩
    · refine Or.inr ⟨hback line (by simp), front, last, rest, rfl, hheader, fun other hother ↦ ?_⟩
      exact hback other (List.mem_append_left _ hother)
    · exact Or.inl hheader
  · rintro (hheader | ⟨hline, front, last, back, rfl, hheader, hback⟩)
    · exact ⟨lines, line, [], rfl, hheader, List.forall_mem_nil _⟩
    · refine ⟨front, last, back ++ [line], by simp, hheader, ?_⟩
      rw [List.forall_mem_append, List.forall_mem_singleton]
      exact ⟨hback, hline⟩

theorem assigned_snoc : Assigned (lines ++ [line]) name key value ↔
    Assigned lines name key value ∨ Under lines name ∧ AssignmentLine line key value := by
  constructor
  · rintro ⟨front, last, back, hlines, hunder, hassign⟩
    rcases snoc_eq_split.mp hlines with ⟨rest, rfl, rfl⟩ | ⟨rfl, rfl, rfl⟩
    · exact Or.inl ⟨front, last, rest, rfl, hunder, hassign⟩
    · exact Or.inr ⟨hunder, hassign⟩
  · rintro (⟨front, last, back, rfl, hunder, hassign⟩ | ⟨hunder, hassign⟩)
    · exact ⟨front, last, back ++ [line], by simp, hunder, hassign⟩
    · exact ⟨lines, line, [], rfl, hunder, hassign⟩

theorem firstAssigned_snoc : FirstAssigned (lines ++ [line]) name key value ↔
    FirstAssigned lines name key value ∨
      (∀ other, ¬Assigned lines name key other) ∧ Under lines name ∧
        AssignmentLine line key value := by
  constructor
  · rintro ⟨front, last, back, hlines, hunder, hassign, hfirst⟩
    rcases snoc_eq_split.mp hlines with ⟨rest, rfl, rfl⟩ | ⟨rfl, rfl, rfl⟩
    · exact Or.inl ⟨front, last, rest, rfl, hunder, hassign, hfirst⟩
    · exact Or.inr ⟨hfirst, hunder, hassign⟩
  · rintro (⟨front, last, back, rfl, hunder, hassign, hfirst⟩ | ⟨hfirst, hunder, hassign⟩)
    · exact ⟨front, last, back ++ [line], by simp, hunder, hassign, hfirst⟩
    · exact ⟨lines, line, [], rfl, hunder, hassign, hfirst⟩

end Snoc

/-! ### The loader reads what the file says -/

/-- What the loader has made of some lines: the section it is in, and the entries. -/
structure Reads (lines : List Str) (state : IniFile × Str) : Prop where
  current : ∀ name, Under lines name ↔ state.2 = name ∧ name ≠ []
  current_mem : state.2 ≠ [] → state.2 ∈ state.1.mInifile
  entry_some : ∀ name key value, name ≠ chars "domain_isp_map" →
    (state.1.entry name key = some value ↔ FirstAssigned lines name key value)
  entry_none : ∀ name key, name ≠ chars "domain_isp_map" →
    (state.1.entry name key = none ↔ ∀ value, ¬Assigned lines name key value)

theorem reads_nil : Reads [] (.empty, []) := by
  have hnil : ∀ {front back : List Str} {line : Str}, [] ≠ front ++ line :: back := by simp
  have hentry : ∀ name key, IniFile.empty.entry name key = none := fun name key ↦ rfl
  constructor
  · refine fun name ↦ iff_of_false ?_ fun hname ↦ hname.2 hname.1.symm
    rintro ⟨front, line, back, hlines, -⟩
    exact hnil hlines
  · exact fun hne ↦ absurd rfl hne
  · refine fun name key value _ ↦ iff_of_false (by rw [hentry]; simp) ?_
    rintro ⟨front, line, back, hlines, -⟩
    exact hnil hlines
  · refine fun name key _ ↦ iff_of_true (hentry name key) ?_
    rintro value ⟨front, line, back, hlines, -⟩
    exact hnil hlines

variable {lines : List Str} {line : Str} {state : IniFile × Str}

/-- Lines that assign nothing under a name leave its entries. -/
theorem Reads.snoc_frame (h : Reads lines state) {after : IniFile × Str}
    (hcurrent : ∀ name, Under (lines ++ [line]) name ↔ after.2 = name ∧ name ≠ [])
    (hmem : after.2 ≠ [] → after.2 ∈ after.1.mInifile)
    (hentry : ∀ name key, name ≠ chars "domain_isp_map" →
      after.1.entry name key = state.1.entry name key)
    (hassign : ∀ name key value, name ≠ chars "domain_isp_map" →
      ¬(Under lines name ∧ AssignmentLine line key value)) :
    Reads (lines ++ [line]) after := by
  refine ⟨hcurrent, hmem, fun name key value hname ↦ ?_, fun name key hname ↦ ?_⟩
  · rw [hentry name key hname, h.entry_some name key value hname, firstAssigned_snoc]
    exact (or_iff_left fun hnew ↦ hassign name key value hname hnew.2).symm
  · rw [hentry name key hname, h.entry_none name key hname]
    refine forall_congr' fun value ↦ not_congr ?_
    rw [assigned_snoc]
    exact (or_iff_left (hassign name key value hname)).symm

/-- An assignment adds its value if the key has none yet. -/
theorem Reads.snoc_assignment (h : Reads lines state) {key value : Str} (hcurr : state.2 ≠ [])
    (hcurrent : ∀ name, Under (lines ++ [line]) name ↔ state.2 = name ∧ name ≠ [])
    (hassign : AssignmentLine line key value) :
    Reads (lines ++ [line]) (state.1.addAValue state.2 key value, state.2) := by
  have hmem := h.current_mem hcurr
  have hunder : ∀ name, Under lines name ↔ state.2 = name := by
    intro name
    rw [h.current]
    exact ⟨fun hboth ↦ hboth.1, fun heq ↦ ⟨heq, heq ▸ hcurr⟩⟩
  have hline : ∀ other otherValue, AssignmentLine line other otherValue ↔
      key = other ∧ value = otherValue := by
    refine fun other otherValue ↦ ⟨fun hother ↦ hassign.unique hother, ?_⟩
    rintro ⟨rfl, rfl⟩
    exact hassign
  refine ⟨hcurrent, fun _ ↦ mem_addAValue hmem _ _ _, fun name other found hname ↦ ?_,
    fun name other hname ↦ ?_⟩
  · rw [firstAssigned_snoc, ← h.entry_some name other found hname,
      ← h.entry_none name other hname, hunder, hline]
    by_cases hsame : state.2 = name
    · subst hsame
      rw [entry_addAValue hmem]
      by_cases hkey : key = other
      · rw [if_pos hkey, Option.or_eq_some_iff]
        simp [hkey]
      · simp [hkey]
    · rw [entry_addAValue_of_ne hsame]
      simp [hsame]
  · have hnone := h.entry_none name other hname
    have hsnoc : (∀ found, ¬Assigned (lines ++ [line]) name other found) ↔
        state.1.entry name other = none ∧ ¬(state.2 = name ∧ key = other) := by
      rw [hnone]
      simp only [assigned_snoc, hunder, hline, not_or, forall_and]
      simp
    rw [hsnoc]
    by_cases hsame : state.2 = name
    · subst hsame
      rw [entry_addAValue hmem]
      by_cases hkey : key = other
      · rw [if_pos hkey, Option.or_eq_none_iff]
        simp [hkey]
      · simp [hkey]
    · rw [entry_addAValue_of_ne hsame]
      simp [hsame]

/-- One line more is read as the file says. -/
theorem reads_snoc (h : Reads lines state) (hclean : 0 ∉ line) :
    Reads (lines ++ [line]) (loadLine state.1 state.2 line) := by
  by_cases hheader : ∃ name, HeaderLine line name
  · obtain ⟨name, hheader⟩ := hheader
    rw [loadLine_header hclean hheader]
    refine h.snoc_frame (fun other ↦ ?_) (fun _ ↦ mem_addASection name)
      (fun other key _ ↦ entry_addASection name other key) fun other key value _ hnew ↦ ?_
    · rw [under_snoc]
      constructor
      · rintro (hother | ⟨hnone, -⟩)
        · obtain rfl := hheader.unique hother
          obtain ⟨-, blanks, raw, rest, -, -, -, -, hne⟩ := hheader
          exact ⟨rfl, hne⟩
        · exact absurd hheader (hnone name)
      · rintro ⟨rfl, -⟩
        exact Or.inl hheader
    · obtain ⟨before, after, rfl, -⟩ := hnew.2
      exact hheader.1 (by simp)
  · rw [not_exists] at hheader
    have hunder : ∀ name, Under (lines ++ [line]) name ↔ state.2 = name ∧ name ≠ [] := by
      intro name
      rw [under_snoc, h.current]
      simp [hheader]
    by_cases hdomain : state.2 = chars "domain_isp_map"
    · -- The keys of this one section keep their case; no other section changes.
      have hassign : ∀ name key value, name ≠ chars "domain_isp_map" →
          ¬(Under lines name ∧ AssignmentLine line key value) := by
        rintro name key value hname ⟨hin, -⟩
        exact hname (((h.current name).mp hin).1.symm.trans hdomain)
      have hcases : loadLine state.1 state.2 line = (state.1, state.2) ∨
          ∃ key value, loadLine state.1 state.2 line =
            (state.1.addAValue state.2 key value, state.2) := loadLine_cases hclean hheader
      rcases hcases with heq | ⟨key, value, heq⟩
      · rw [heq]
        exact h.snoc_frame hunder h.current_mem (fun _ _ _ ↦ rfl) hassign
      · rw [heq]
        refine h.snoc_frame hunder (fun hne ↦ mem_addAValue (h.current_mem hne) _ _ _) ?_ hassign
        intro name other hname
        exact entry_addAValue_of_ne (fun heq ↦ hname (heq.symm.trans hdomain)) _ _ _
    · by_cases hassign : state.2 ≠ [] ∧ ∃ key value, AssignmentLine line key value
      · obtain ⟨hcurr, key, value, hassign⟩ := hassign
        rw [loadLine_assignment hclean hcurr hdomain hassign]
        exact h.snoc_assignment hcurr hunder hassign
      · have hnone : state.2 = [] ∨ ∀ key value, ¬AssignmentLine line key value := by
          by_cases hcurr : state.2 = []
          · exact Or.inl hcurr
          · exact Or.inr fun key value hline ↦ hassign ⟨hcurr, key, value, hline⟩
        rw [loadLine_other hclean hheader hdomain hnone]
        refine h.snoc_frame hunder h.current_mem (fun _ _ _ ↦ rfl) ?_
        rintro name key value - ⟨hin, hline⟩
        obtain ⟨hsame, hne⟩ := (h.current name).mp hin
        exact hassign ⟨hsame ▸ hne, key, value, hline⟩

theorem reads_loadLines (hclean : ∀ line ∈ lines, 0 ∉ line) :
    Reads lines (loadLines (.empty, []) lines) := by
  induction lines using List.reverseRecOn with
  | nil => exact reads_nil
  | append_singleton lines line ih =>
    rw [List.forall_mem_append, List.forall_mem_singleton] at hclean
    rw [loadLines_append]
    exact reads_snoc (ih hclean.1) hclean.2

/-- After a file without null bytes is loaded, `GetString` returns the value of the first line under
the section that assigns the key, and the default if there is none. -/
theorem loadIniFile_getString {content : List UInt8} (hclean : 0 ∉ content)
    (hshort : ∀ line ∈ content.splitOn '\n'.toUInt8, line.length < cfgLineLen) :
    ∃ ini, Loads content ini ∧ ∀ szSection szKey szDefault : CStr,
      lowercase szSection.chars ≠ chars "domain_isp_map" →
        (∀ value, FirstAssigned (content.splitOn '\n'.toUInt8) (lowercase szSection.chars)
          (lowercase szKey.chars) value → ini.getString szSection szKey szDefault = value) ∧
        ((¬∃ value, FirstAssigned (content.splitOn '\n'.toUInt8) (lowercase szSection.chars)
          (lowercase szKey.chars) value) →
            ini.getString szSection szKey szDefault = szDefault.chars) := by
  have hloads := loads_of_shortLines hshort
  have hlines : ∀ line ∈ content.splitOn '\n'.toUInt8, 0 ∉ line :=
    fun line hline hmem ↦ hclean (mem_of_mem_splitOn hline hmem)
  have hreads := reads_loadLines hlines
  refine ⟨_, hloads, fun szSection szKey szDefault hname ↦ ⟨fun value hvalue ↦ ?_, fun hnone ↦ ?_⟩⟩
  · have hentry := (hreads.entry_some _ _ value hname).mpr hvalue
    obtain ⟨entries, hentries, hkey⟩ := Option.bind_eq_some_iff.mp hentry
    have hzero : 0 ∉ value := fun hmem ↦
      hloads.wellFormed.value _ entries _ value hentries hkey 0 hmem (by decide)
    rw [IniFile.getString_eq, IniFile.stored, hentries, Option.bind_some, hkey, Option.map_some,
      CStr.ofString_eq hzero, Option.getD_some]
  · have hentry : (loadLines (.empty, []) (content.splitOn '\n'.toUInt8)).1.entry
        (lowercase szSection.chars) (lowercase szKey.chars) = none := by
      rw [Option.eq_none_iff_forall_not_mem]
      exact fun value hvalue ↦ hnone ⟨value, (hreads.entry_some _ _ value hname).mp hvalue⟩
    have hstored : (loadLines (.empty, []) (content.splitOn '\n'.toUInt8)).1.stored szSection
        szKey = none := Option.map_eq_none_iff.mpr hentry
    rw [IniFile.getString_eq, hstored, Option.getD_none]

/-- A file in which a key is assigned twice. -/
def twiceAssigned : List UInt8 := chars "[A]\nk = 1 ;x\nK=2"

/-- The first of two assignments counts, and capital letters do not matter. -/
theorem loadIniFile_getString_twice : ∃ ini, Loads twiceAssigned ini ∧
    ini.getString ⟨chars "A", by decide⟩ ⟨chars "K", by decide⟩ ⟨[], by decide⟩ = chars "1" := by
  obtain ⟨ini, hloads, hget⟩ := @loadIniFile_getString twiceAssigned (by decide)
    (by decide +kernel)
  refine ⟨ini, hloads, (hget _ _ _ (by decide)).1 _ ?_⟩
  refine ⟨[chars "[A]"], chars "k = 1 ;x", [chars "K=2"], by decide +kernel, ?_, ?_, ?_⟩
  · refine ⟨[], chars "[A]", [], rfl, ⟨by decide, [], chars "A", [], ?_⟩, List.forall_mem_nil _⟩
    exact ⟨by decide, List.forall_mem_nil _, forall_mark (by decide), by decide, by decide⟩
  · exact ⟨chars "k ", chars " 1 ;x", by decide, by decide, forall_mark (by decide), by decide,
      by decide, by decide⟩
  · rintro other ⟨front, line, back, hlines, ⟨first, header, rest, hfront, -⟩, -⟩
    have hlength : 1 = front.length + (back.length + 1) := by
      simpa using congrArg List.length hlines
    have hpos : 0 < front.length := by
      rw [hfront]
      simp
    omega

end Exc.Ini
