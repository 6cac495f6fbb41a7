import Exc.Ini.Loading

/-!
# Saving and loading again

`flush_to_string` and `flush_to_file` write a line for each section and for each entry, and values
are written as they are. `analyzeLine` drops the spaces of a value that is not quoted, so a space
that quotes let into a value is lost when the file is saved and loaded again (`space_is_lost`).

Nothing else is lost. The marks that the loops over a line stop at or leave out are in no name and
no value that was loaded, so each line is read back (`loadLine_section`, `loadLine_entry`), and all
lines together give the sections with the spaces removed from their values (`loadLines_savedLines`).
So the round trip holds exactly if no value has a space (`save_load_iff`).
-/

set_option autoImplicit false
set_option relaxedAutoImplicit false

namespace Exc.Ini

open Lib

/-! ### The lines of the text -/

/-- Lines, each with a newline at its end. -/
def unlines (lines : List Str) : List UInt8 := lines.flatMap fun line ↦ line ++ chars "\n"

/-- The line with a section name. -/
def sectionLine (name : Str) : Str := chars "[" ++ cstring name ++ chars "]"

/-- The lines of a section. -/
def sectionLines (name : Str) (entries : TSection) : List Str :=
  sectionLine name :: (entries.toList.map fun entry ↦ entryLine entry.1 entry.2) ++ [[]]

/-- The lines of a file that begins with `header`. -/
def savedLines (header : List Str) (ini : IniFile) : List Str :=
  header ++ ini.mInifile.toList.flatMap fun entry ↦ sectionLines entry.1 entry.2

/-- The lines at the beginning of what `flush_to_string` writes. -/
def stringHeader : List Str := [chars "#Host version 1.0.0.1", chars "#2014.04.18", []]

/-- The lines at the beginning of what `flush_to_file` writes. -/
def fileHeader : List Str := [chars "#Host configure file", []]

variable {char : UInt8} {name key value : Str} {entries : TSection} {ini : IniFile}

theorem unlines_append (first second : List Str) :
    unlines (first ++ second) = unlines first ++ unlines second := by
  rw [unlines, List.flatMap_append]
  rfl

/-- The last newline begins a line without characters. -/
theorem unlines_eq_intercalate (lines : List Str) :
    unlines lines = ['\n'.toUInt8].intercalate (lines ++ [[]]) := by
  induction lines with
  | nil => rfl
  | cons line rest ih =>
    rw [List.cons_append, List.intercalate_cons_of_ne_nil (by simp), ← ih]
    rfl

theorem sectionText_eq : sectionText name entries = unlines (sectionLines name entries) := by
  rw [sectionLines, unlines_append, sectionText]
  simp only [unlines, sectionLine, List.flatMap_cons, List.flatMap_map, List.flatMap_nil,
    List.nil_append, List.append_nil]

theorem sectionsText_eq : ini.sectionsText =
    unlines (ini.mInifile.toList.flatMap fun entry ↦ sectionLines entry.1 entry.2) := by
  rw [IniFile.sectionsText, unlines, List.flatMap_assoc]
  simp only [sectionText_eq]
  rfl

theorem flushToString_eq : ini.flushToString [] = unlines (savedLines stringHeader ini) := by
  rw [IniFile.flushToString, sectionsText_eq, savedLines, unlines_append]
  rfl

theorem flushToFile_eq (strFileName : Str) :
    (ini.flushToFile strFileName).2 = unlines (savedLines fileHeader ini) := by
  rw [IniFile.flushToFile, sectionsText_eq, savedLines, unlines_append]
  rfl

/-! ### Reading a line back -/

/-- The name of a section is read up to the bracket. -/
theorem sectionName_append (hname : ∀ char ∈ name, IsSectionChar char) {strSec : Str}
    (hne : strSec ++ name ≠ []) :
    sectionName true strSec (name ++ [']'.toUInt8]) = some (strSec ++ name) := by
  induction name generalizing strSec with
  | nil =>
    rw [List.append_nil] at hne ⊢
    rw [List.nil_append, sectionName, if_neg (by decide), if_neg (by decide), if_pos rfl,
      if_neg (by rwa [List.length_eq_zero_iff])]
  | cons char rest ih =>
    obtain ⟨⟨hchar, hlower⟩, hrest⟩ := List.forall_mem_cons.mp hname
    have hblank : ¬isBlank char := fun hblank ↦
      notMem_of_marks hchar (by decide) (of_decide_eq_true hblank)
    have hopen : char ≠ '['.toUInt8 := fun heq ↦ hchar (heq ▸ by decide)
    have hclose : char ≠ ']'.toUInt8 := fun heq ↦ hchar (heq ▸ by decide)
    have hfinish : ¬isFinish char := fun hfinish ↦
      notMem_of_marks hchar (by decide) (of_decide_eq_true hfinish)
    rw [List.cons_append, sectionName, if_neg hblank, if_neg hopen, if_neg hclose, if_neg hfinish,
      if_pos rfl, hlower, ih hrest]
    · rw [List.append_assoc, List.singleton_append]
    · simp

theorem parameterName_spaces (strPara : Str) (count : ℕ) :
    parameterName name strPara (List.replicate count ' '.toUInt8) = some strPara := by
  induction count with
  | zero => rfl
  | succ count ih => rwa [List.replicate_succ, parameterName, if_pos (by decide)]

/-- The spaces after a key are skipped. -/
theorem parameterName_append (hkey : ∀ char ∈ key, IsParameterChar name char) (strPara : Str)
    (count : ℕ) :
    parameterName name strPara (key ++ List.replicate count ' '.toUInt8) =
      some (strPara ++ key) := by
  induction key generalizing strPara with
  | nil => rw [List.nil_append, List.append_nil, parameterName_spaces]
  | cons char rest ih =>
    obtain ⟨⟨hchar, hlower⟩, hrest⟩ := List.forall_mem_cons.mp hkey
    have hblank : ¬isBlank char := fun hblank ↦
      notMem_of_marks hchar (by decide) (of_decide_eq_true hblank)
    have hfinish : ¬isFinish char := fun hfinish ↦
      notMem_of_marks hchar (by decide) (of_decide_eq_true hfinish)
    have hinvalid : ¬(char ∈ chars "[]" || isQuote char) := by
      rw [Bool.or_eq_true, not_or]
      exact ⟨fun hbracket ↦ notMem_of_marks hchar (by decide) (of_decide_eq_true hbracket),
        fun hquote ↦ notMem_of_marks hchar (by decide) (of_decide_eq_true hquote)⟩
    have hadd : strPara ++ char :: rest = strPara ++ [char] ++ rest := by
      rw [List.append_assoc, List.singleton_append]
    rw [List.cons_append, parameterName, if_neg hblank, if_neg hfinish, if_neg hinvalid, hadd]
    by_cases hdomain : name = chars "domain_isp_map"
    · rw [if_pos hdomain, ih hrest]
    · rw [if_neg hdomain, hlower hdomain, ih hrest]

/-- A value without its spaces. -/
def dropSpaces (value : Str) : Str := value.filter (· ≠ ' '.toUInt8)

/-- The spaces of a value are skipped. -/
theorem parameterValue_eq (hvalue : ∀ char ∈ value, char ∉ valueMarks) (strValue : Str) :
    parameterValue false strValue value = strValue ++ dropSpaces value := by
  rw [dropSpaces]
  induction value generalizing strValue with
  | nil => rw [List.filter_nil, List.append_nil, parameterValue]
  | cons char rest ih =>
    obtain ⟨hchar, hrest⟩ := List.forall_mem_cons.mp hvalue
    have hquote : ¬isQuote char := fun hquote ↦
      notMem_of_marks hchar (by decide) (of_decide_eq_true hquote)
    have hfinish : ¬isFinish char := fun hfinish ↦
      notMem_of_marks hchar (by decide) (of_decide_eq_true hfinish)
    rw [parameterValue]
    by_cases hspace : char = ' '.toUInt8
    · rw [if_pos hspace, if_neg Bool.false_ne_true, ih hrest,
        List.filter_cons_of_neg (by simpa using hspace)]
    · rw [if_neg hspace, if_neg hquote, if_neg hfinish, ih hrest,
        List.filter_cons_of_pos (by simpa using hspace), List.append_assoc, List.singleton_append]

/-- A name or a value that was loaded has no null byte. -/
theorem cstring_of_marks {text marks : Str} (hzero : 0 ∈ marks)
    (htext : ∀ char ∈ text, char ∉ marks) : cstring text = text :=
  cstring_eq_self fun hmem ↦ htext 0 hmem hzero

theorem cstring_of_isSectionChar (hname : ∀ char ∈ name, IsSectionChar char) :
    cstring name = name :=
  cstring_of_marks (by decide) fun char hchar ↦ (hname char hchar).1

/-- A line without null bytes is analyzed as it is. -/
theorem loadLine_eq {line strCurrSec : Str} (hclean : 0 ∉ line) (hne : line ≠ []) :
    loadLine ini strCurrSec line = analyzeLine ini strCurrSec line := by
  rw [loadLine, cstring_eq_self hclean, if_neg (by rwa [List.length_eq_zero_iff])]

/-- The line of a section makes it the current one. -/
theorem loadLine_section (hname : name ≠ [] ∧ ∀ char ∈ name, IsSectionChar char)
    (strCurrSec : Str) :
    loadLine ini strCurrSec (sectionLine name) = (ini.addASection name, name) := by
  have hline : sectionLine name = '['.toUInt8 :: (name ++ [']'.toUInt8]) := by
    rw [sectionLine, cstring_of_isSectionChar hname.2]
    rfl
  have habsent : ∀ mark ∈ [0, '='.toUInt8], mark ∉ sectionLine name := by
    intro mark hmark hmem
    rw [hline, List.mem_cons, List.mem_append, List.mem_singleton] at hmem
    rcases hmem with rfl | hmem | rfl
    · revert hmark
      decide
    · exact notMem_of_marks (hname.2 mark hmem).1 (by decide) hmark
    · revert hmark
      decide
  have hread : sectionName false [] (sectionLine name) = some name := by
    rw [hline, sectionName, if_neg (by decide), if_pos rfl, if_neg Bool.false_ne_true,
      sectionName_append hname.2 (show [] ++ name ≠ [] from hname.1), List.nil_append]
  rw [loadLine_eq (habsent 0 (by decide)) (by rw [hline]; exact List.cons_ne_nil _ _), analyzeLine,
    if_neg (habsent _ (by decide)), analyzeSection, hread]

/-- A line is taken apart at its first `=`. -/
theorem analyzeLine_mark {strCurrSec before after : Str} (hbefore : '='.toUInt8 ∉ before) :
    analyzeLine ini strCurrSec (before ++ '='.toUInt8 :: after) =
      analyzeParameter ini strCurrSec before after := by
  have hdrop : (before ++ '='.toUInt8 :: after).drop (before.length + 1) = after := by
    rw [← List.drop_drop, List.drop_left]
    rfl
  rw [analyzeLine, if_pos (List.mem_append_right _ List.mem_cons_self)]
  dsimp only
  rw [takeWhile_mark hbefore, hdrop]

/-- What comes before the `=` in the line of an entry. -/
def entryKey (key : Str) : Str := key ++ List.replicate (21 - key.length) ' '.toUInt8

theorem entryLine_eq (hkey : ∀ char ∈ key, IsParameterChar name char)
    (hvalue : ∀ char ∈ value, char ∉ valueMarks) :
    entryLine key value = entryKey key ++ '='.toUInt8 :: ' '.toUInt8 :: value := by
  have hcleanKey : cstring key = key :=
    cstring_of_marks (by decide) fun char hchar ↦ (hkey char hchar).1
  have hcleanValue : cstring value = value := cstring_of_marks (by decide) hvalue
  rw [entryLine, hcleanKey, hcleanValue, entryKey, List.append_assoc _ (chars "= ")]
  rfl

/-- The line of an entry adds it, with the spaces removed from its value. -/
theorem loadLine_entry (hname : name ≠ [])
    (hkey : key ≠ [] ∧ ∀ char ∈ key, IsParameterChar name char)
    (hvalue : ∀ char ∈ value, char ∉ valueMarks) :
    loadLine ini name (entryLine key value) =
      (ini.addAValue name key (dropSpaces value), name) := by
  have hbefore : ∀ char ∈ entryKey key, char ∉ [0, '='.toUInt8] := by
    intro char hchar
    rcases List.mem_append.mp hchar with hchar | hchar
    · exact notMem_of_marks (hkey.2 char hchar).1 (by decide)
    · rw [List.eq_of_mem_replicate hchar]
      decide
  have hclean : 0 ∉ entryKey key ++ '='.toUInt8 :: ' '.toUInt8 :: value := by
    rw [List.mem_append, List.mem_cons, List.mem_cons]
    rintro (hzero | hzero | hzero | hzero)
    · exact hbefore 0 hzero (by decide)
    · exact absurd hzero (by decide)
    · exact absurd hzero (by decide)
    · exact hvalue 0 hzero (by decide)
  have hread : parameterValue false [] (' '.toUInt8 :: value) = dropSpaces value := by
    rw [parameterValue, if_pos rfl, if_neg Bool.false_ne_true, parameterValue_eq hvalue,
      List.nil_append]
  rw [entryLine_eq hkey.2 hvalue, loadLine_eq hclean (by simp),
    analyzeLine_mark fun hmark ↦ hbefore _ hmark (by decide), analyzeParameter,
    if_neg (mt List.length_eq_zero_iff.mp hname), entryKey, parameterName_append hkey.2,
    List.nil_append]
  dsimp only
  rw [if_neg (mt List.length_eq_zero_iff.mp hkey.1), hread]

/-! ### Reading all lines back -/

/-- Entries without the spaces of their values. -/
def entriesWithoutSpaces (entries : TSection) : TSection := entries.map fun _ ↦ dropSpaces

/-- Sections without the spaces of their values. -/
def IniFile.withoutSpaces (ini : IniFile) : IniFile :=
  ⟨ini.mInifile.map fun _ ↦ entriesWithoutSpaces⟩

theorem loadLines_append (state : IniFile × Str) (first second : List Str) :
    loadLines state (first ++ second) = loadLines (loadLines state first) second :=
  List.foldl_append

theorem loadLines_cons (state : IniFile × Str) (line : Str) (rest : List Str) :
    loadLines state (line :: rest) = loadLines (loadLine state.1 state.2 line) rest :=
  List.foldl_cons ..

/-- An empty line does nothing. -/
theorem loadLines_empty (state : IniFile × Str) : loadLines state [[]] = state := rfl

/-- The entries of a section are added to it one after another. -/
theorem loadLines_entries {sections : Std.ExtTreeMap Str TSection} {list : List (Str × Str)}
    (hname : name ≠ [])
    (hlist : ∀ entry ∈ list, (entry.1 ≠ [] ∧ ∀ char ∈ entry.1, IsParameterChar name char) ∧
      ∀ char ∈ entry.2, char ∉ valueMarks)
    (hdistinct : list.Pairwise fun first second ↦ ¬compare first.1 second.1 = .eq)
    (hfresh : ∀ entry ∈ list, entry.1 ∉ entries) :
    loadLines (⟨sections.insert name entries⟩, name)
        (list.map fun entry ↦ entryLine entry.1 entry.2) =
      (⟨sections.insert name
        (entries.insertMany (list.map fun entry ↦ (entry.1, dropSpaces entry.2)))⟩, name) := by
  induction list generalizing entries with
  | nil => rw [List.map_nil, List.map_nil, Std.ExtTreeMap.insertMany_nil, loadLines, List.foldl_nil]
  | cons entry rest ih =>
    obtain ⟨hentry, hlist⟩ := List.forall_mem_cons.mp hlist
    obtain ⟨hkey, hfresh⟩ := List.forall_mem_cons.mp hfresh
    obtain ⟨hdiffers, hdistinct⟩ := List.pairwise_cons.mp hdistinct
    have hadd : IniFile.addAValue ⟨sections.insert name entries⟩ name entry.1 (dropSpaces entry.2) =
        ⟨sections.insert name (entries.insert entry.1 (dropSpaces entry.2))⟩ := by
      rw [IniFile.addAValue]
      dsimp only
      rw [Std.ExtTreeMap.getElem?_insert_self]
      dsimp only
      rw [if_neg hkey, insert_insert]
    have hstill : ∀ other ∈ rest, other.1 ∉ entries.insert entry.1 (dropSpaces entry.2) := by
      intro other hother hmem
      rcases Std.ExtTreeMap.mem_insert.mp hmem with hsame | hmem
      · exact hdiffers other hother hsame
      · exact hfresh other hother hmem
    rw [List.map_cons, List.map_cons, Std.ExtTreeMap.insertMany_cons, loadLines_cons,
      loadLine_entry hname hentry.1 hentry.2, hadd]
    exact ih hlist hdistinct hstill

/-- The entries of a well-formed section, as `loadLines_entries` takes them. -/
theorem WellFormed.entry (hini : WellFormed ini) (hentries : ini.mInifile[name]? = some entries) :
    ∀ entry ∈ entries.toList,
      (entry.1 ≠ [] ∧ ∀ char ∈ entry.1, IsParameterChar name char) ∧
        ∀ char ∈ entry.2, char ∉ valueMarks := by
  rintro ⟨key, value⟩ hentry
  rw [Std.ExtTreeMap.mem_toList_iff_getElem?_eq_some] at hentry
  exact ⟨hini.key name entries key value hentries hentry,
    hini.value name entries key value hentries hentry⟩

/-- The lines of a section that is not there yet add it. -/
theorem loadLines_sectionLines {loaded : IniFile} {strCurrSec : Str} (hini : WellFormed ini)
    (hentries : ini.mInifile[name]? = some entries) (hfresh : name ∉ loaded.mInifile) :
    loadLines (loaded, strCurrSec) (sectionLines name entries) =
      (⟨loaded.mInifile.insert name (entriesWithoutSpaces entries)⟩, name) := by
  have hname := hini.name name entries hentries
  have hadd : loaded.addASection name = ⟨loaded.mInifile.insert name ∅⟩ := if_neg hfresh
  have hlines : loadLines (⟨loaded.mInifile.insert name ∅⟩, name)
      (entries.toList.map fun entry ↦ entryLine entry.1 entry.2) =
        (⟨loaded.mInifile.insert name (entriesWithoutSpaces entries)⟩, name) := by
    rw [loadLines_entries hname.1 (hini.entry hentries) Std.ExtTreeMap.distinct_keys_toList
      fun _ _ ↦ Std.ExtTreeMap.not_mem_empty, insertMany_toList, entriesWithoutSpaces]
  rw [sectionLines, loadLines_append, loadLines_empty, loadLines_cons, loadLine_section hname, hadd,
    hlines]

/-- The lines of sections that are not there yet add them. -/
theorem loadLines_sections {loaded : IniFile} {strCurrSec : Str} (hini : WellFormed ini)
    {list : List (Str × TSection)} (hlist : ∀ entry ∈ list, ini.mInifile[entry.1]? = some entry.2)
    (hdistinct : list.Pairwise fun first second ↦ ¬compare first.1 second.1 = .eq)
    (hfresh : ∀ entry ∈ list, entry.1 ∉ loaded.mInifile) :
    (loadLines (loaded, strCurrSec) (list.flatMap fun entry ↦ sectionLines entry.1 entry.2)).1 =
      ⟨loaded.mInifile.insertMany
        (list.map fun entry ↦ (entry.1, entriesWithoutSpaces entry.2))⟩ := by
  induction list generalizing loaded strCurrSec with
  | nil =>
    rw [List.map_nil, List.flatMap_nil, Std.ExtTreeMap.insertMany_nil, loadLines, List.foldl_nil]
  | cons entry rest ih =>
    obtain ⟨hentry, hlist⟩ := List.forall_mem_cons.mp hlist
    obtain ⟨hname, hfresh⟩ := List.forall_mem_cons.mp hfresh
    obtain ⟨hdiffers, hdistinct⟩ := List.pairwise_cons.mp hdistinct
    have hstill : ∀ other ∈ rest,
        other.1 ∉ loaded.mInifile.insert entry.1 (entriesWithoutSpaces entry.2) := by
      intro other hother hmem
      rcases Std.ExtTreeMap.mem_insert.mp hmem with hsame | hmem
      · exact hdiffers other hother hsame
      · exact hfresh other hother hmem
    rw [List.flatMap_cons, loadLines_append, loadLines_sectionLines hini hentry hname,
      List.map_cons, Std.ExtTreeMap.insertMany_cons]
    exact ih hlist hdistinct hstill

/-- Lines at the beginning of a file that do nothing. -/
structure IsHeader (header : List Str) : Prop where
  newline : ∀ line ∈ header, '\n'.toUInt8 ∉ line
  loadLines : ∀ (ini : IniFile) (strCurrSec : Str),
    loadLines (ini, strCurrSec) header = (ini, strCurrSec)

theorem isHeader_stringHeader : IsHeader stringHeader := ⟨by decide, fun _ _ ↦ rfl⟩

theorem isHeader_fileHeader : IsHeader fileHeader := ⟨by decide, fun _ _ ↦ rfl⟩

variable {header : List Str}

/-- The lines that are saved give the sections without the spaces of their values. -/
theorem loadLines_savedLines (hini : WellFormed ini) (hheader : IsHeader header) :
    (loadLines (.empty, []) (savedLines header ini ++ [[]])).1 = ini.withoutSpaces := by
  have hlist : ∀ entry ∈ ini.mInifile.toList, ini.mInifile[entry.1]? = some entry.2 := by
    rintro ⟨name, entries⟩ hentry
    exact Std.ExtTreeMap.mem_toList_iff_getElem?_eq_some.mp hentry
  have hfresh : ∀ entry ∈ ini.mInifile.toList, entry.1 ∉ IniFile.empty.mInifile := fun _ _ ↦
    Std.ExtTreeMap.not_mem_empty
  rw [loadLines_append, loadLines_empty, savedLines, loadLines_append, hheader.loadLines,
    loadLines_sections hini hlist Std.ExtTreeMap.distinct_keys_toList hfresh]
  exact congrArg IniFile.mk (insertMany_toList ini.mInifile entriesWithoutSpaces)

theorem newline_notMem_sectionLine (hname : ∀ char ∈ name, IsSectionChar char) :
    '\n'.toUInt8 ∉ sectionLine name := by
  rw [sectionLine, cstring_of_isSectionChar hname, List.mem_append, List.mem_append]
  rintro ((hopen | hmem) | hclose)
  · exact absurd hopen (by decide)
  · exact (hname _ hmem).1 (by decide)
  · exact absurd hclose (by decide)

theorem newline_notMem_entryLine (hkey : ∀ char ∈ key, IsParameterChar name char)
    (hvalue : ∀ char ∈ value, char ∉ valueMarks) : '\n'.toUInt8 ∉ entryLine key value := by
  rw [entryLine_eq hkey hvalue, entryKey, List.mem_append,
    List.mem_append, List.mem_cons, List.mem_cons]
  rintro ((hmem | hmem) | hmem | hmem | hmem)
  · exact (hkey _ hmem).1 (by decide)
  · exact absurd (List.eq_of_mem_replicate hmem) (by decide)
  · exact absurd hmem (by decide)
  · exact absurd hmem (by decide)
  · exact hvalue _ hmem (by decide)

theorem newline_notMem_sectionLines (hini : WellFormed ini)
    (hentries : ini.mInifile[name]? = some entries) :
    ∀ line ∈ sectionLines name entries, '\n'.toUInt8 ∉ line := by
  rw [sectionLines, List.cons_append, List.forall_mem_cons, List.forall_mem_append,
    List.forall_mem_singleton]
  refine ⟨newline_notMem_sectionLine (hini.name name entries hentries).2, ?_, List.not_mem_nil⟩
  intro line hline
  obtain ⟨entry, hentry, rfl⟩ := List.mem_map.mp hline
  obtain ⟨hkey, hvalue⟩ := hini.entry hentries entry hentry
  exact newline_notMem_entryLine hkey.2 hvalue

/-- No line that is saved has a newline inside. -/
theorem newline_notMem_savedLines (hini : WellFormed ini) (hheader : IsHeader header) :
    ∀ line ∈ savedLines header ini, '\n'.toUInt8 ∉ line := by
  intro line hline
  rcases List.mem_append.mp hline with hline | hline
  · exact hheader.newline line hline
  · obtain ⟨⟨name, entries⟩, hentries, hline⟩ := List.mem_flatMap.mp hline
    rw [Std.ExtTreeMap.mem_toList_iff_getElem?_eq_some] at hentries
    exact newline_notMem_sectionLines hini hentries line hline

/-! ### The round trip -/

/-- No value has a space. -/
def NoSpaces (ini : IniFile) : Prop :=
  ∀ (name : Str) (entries : TSection) (key value : Str), ini.mInifile[name]? = some entries →
    entries[key]? = some value → ' '.toUInt8 ∉ value

theorem dropSpaces_eq_self_iff : dropSpaces value = value ↔ ' '.toUInt8 ∉ value := by
  rw [dropSpaces, List.filter_eq_self]
  constructor
  · intro hspaces hmem
    simpa using hspaces _ hmem
  · intro hspaces char hchar
    have hne : char ≠ ' '.toUInt8 := fun heq ↦ hspaces (heq ▸ hchar)
    exact decide_eq_true hne

theorem withoutSpaces_eq_self_iff : ini.withoutSpaces = ini ↔ NoSpaces ini := by
  have hmap : ini.withoutSpaces = ini ↔
      (ini.mInifile.map fun _ ↦ entriesWithoutSpaces) = ini.mInifile :=
    ⟨congrArg IniFile.mInifile, congrArg IniFile.mk⟩
  simp only [hmap, map_eq_self_iff, entriesWithoutSpaces, dropSpaces_eq_self_iff]
  constructor
  · exact fun hspaces name entries key value hentries hvalue ↦
      hspaces name entries hentries key value hvalue
  · exact fun hspaces name entries hentries key value hvalue ↦
      hspaces name entries key value hentries hvalue

/-- What is saved loads again, without the spaces of the values. -/
theorem loads_unlines (hini : WellFormed ini) (hheader : IsHeader header)
    (hshort : ShortLines (unlines (savedLines header ini))) :
    Loads (unlines (savedLines header ini)) ini.withoutSpaces := by
  have hlines : ∀ line ∈ savedLines header ini ++ [[]], '\n'.toUInt8 ∉ line := by
    rw [List.forall_mem_append, List.forall_mem_singleton]
    exact ⟨newline_notMem_savedLines hini hheader, List.not_mem_nil⟩
  rw [unlines_eq_intercalate] at hshort ⊢
  rw [← loadLines_savedLines hini hheader]
  exact loads_of_lines hlines (by simp) hshort

/-- The round trip through the lines that are saved. -/
theorem loads_unlines_iff (hini : WellFormed ini) (hheader : IsHeader header)
    (hshort : ShortLines (unlines (savedLines header ini))) :
    Loads (unlines (savedLines header ini)) ini ↔ NoSpaces ini := by
  have hloads := loads_unlines hini hheader hshort
  rw [← withoutSpaces_eq_self_iff]
  constructor
  · exact fun hsame ↦ hloads.unique hsame
  · intro hsame
    rwa [hsame] at hloads

/-- What was loaded and is saved loads as the same sections exactly if no value has a space. -/
theorem save_load_iff {content : List UInt8} (hloads : Loads content ini) :
    (ShortLines (ini.flushToString []) → (Loads (ini.flushToString []) ini ↔ NoSpaces ini)) ∧
      ∀ strFileName : Str, ShortLines (ini.flushToFile strFileName).2 →
        (Loads (ini.flushToFile strFileName).2 ini ↔ NoSpaces ini) := by
  constructor
  · rw [flushToString_eq]
    exact loads_unlines_iff hloads.wellFormed isHeader_stringHeader
  · intro strFileName
    rw [flushToFile_eq]
    exact loads_unlines_iff hloads.wellFormed isHeader_fileHeader

/-- The sections of a file with one entry. -/
def oneEntry (value : Str) : IniFile :=
  ⟨(∅ : Std.ExtTreeMap Str TSection).insert (chars "a")
    ((∅ : TSection).insert (chars "k") value)⟩

instance (content : List UInt8) : Decidable (ShortLines content) :=
  inferInstanceAs (Decidable (∀ line ∈ content.splitOn '\n'.toUInt8, line.length < cfgLineLen))

theorem save_load_iff_oneEntry :
    Loads (chars "[a]\nk=x") (oneEntry (chars "x")) ∧
      ShortLines ((oneEntry (chars "x")).flushToString []) ∧ NoSpaces (oneEntry (chars "x")) := by
  have hloads : Loads (chars "[a]\nk=x") (oneEntry (chars "x")) := ⟨2, by decide +kernel⟩
  have hshort : ShortLines ((oneEntry (chars "x")).flushToString []) := by decide +kernel
  have hagain : Loads ((oneEntry (chars "x")).flushToString []) (oneEntry (chars "x")) :=
    ⟨7, by decide +kernel⟩
  exact ⟨hloads, hshort, ((save_load_iff hloads).1 hshort).mp hagain⟩

/-- The space of the value `x y`, which its quotes let in, is not there any more. -/
theorem space_is_lost :
    Loads (chars "[a]\nk=\x27x y\x27") (oneEntry (chars "x y")) ∧
      ShortLines ((oneEntry (chars "x y")).flushToString []) ∧
      Loads ((oneEntry (chars "x y")).flushToString []) (oneEntry (chars "xy")) ∧
      ¬Loads ((oneEntry (chars "x y")).flushToString []) (oneEntry (chars "x y")) := by
  have hagain : Loads ((oneEntry (chars "x y")).flushToString []) (oneEntry (chars "xy")) :=
    ⟨7, by decide +kernel⟩
  refine ⟨⟨2, by decide +kernel⟩, by decide +kernel, hagain, fun hsame ↦ ?_⟩
  exact absurd (hagain.unique hsame) (by decide +kernel)

end Exc.Ini
