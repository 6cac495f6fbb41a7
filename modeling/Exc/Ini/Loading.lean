import Exc.Ini.IniFile
import Exc.Lib.Lines
import Exc.Lib.OrderedMap

/-!
# What a load finds

`LoadIniFile` in two steps. The loop over the stream reads the lines of the file one after another
if all of them fit into the buffer (`loads_of_lines`), and what it returns does not depend on
the fuel (`Loads.unique`). A longer line sets `failbit`, after which the loop goes round for ever
(`loadLoop_stuck`): `loadIniFile_ends_iff`. Whatever the file is, the names and values that end up
in the sections consist of characters that `analyzeLine` lets through (`Loads.wellFormed`).
-/

set_option autoImplicit false
set_option relaxedAutoImplicit false

namespace Exc.Ini

open Lib

/-! ### The characters of names and values -/

/-- The characters that a section name never has. -/
def sectionMarks : Str := 0 :: chars " \t[]#;\r\n="

/-- The characters that a key never has. -/
def parameterMarks : Str := 0 :: chars " \t[]#;\r\n=\x27\x22"

/-- The characters that a value never has. -/
def valueMarks : Str := 0 :: chars "#;\r\n\x27\x22"

/-- A character that the loop over a section name adds to it. -/
def IsSectionChar (char : UInt8) : Prop := char ∉ sectionMarks ∧ getLowercase char = char

/-- A character that the loop over a key adds to it: in one section the case of letters is kept. -/
def IsParameterChar (strCurrSec : Str) (char : UInt8) : Prop :=
  char ∉ parameterMarks ∧ (strCurrSec ≠ chars "domain_isp_map" → getLowercase char = char)

/-- The names and values that a load can find. -/
structure WellFormed (ini : IniFile) : Prop where
  name : ∀ (name : Str) (entries : TSection), ini.mInifile[name]? = some entries →
    name ≠ [] ∧ ∀ char ∈ name, IsSectionChar char
  key : ∀ (name : Str) (entries : TSection) (key value : Str),
    ini.mInifile[name]? = some entries → entries[key]? = some value →
      key ≠ [] ∧ ∀ char ∈ key, IsParameterChar name char
  value : ∀ (name : Str) (entries : TSection) (key value : Str),
    ini.mInifile[name]? = some entries → entries[key]? = some value →
      ∀ char ∈ value, char ∉ valueMarks

variable {char : UInt8} {marks line : Str} {ini : IniFile}

/-- Marks have a property if it can be evaluated for each of them. -/
theorem forall_mark {property : UInt8 → Prop} [DecidablePred property]
    (hmarks : marks.all (property ·)) : ∀ mark ∈ marks, property mark :=
  fun mark hmark ↦ of_decide_eq_true (List.all_eq_true.mp hmarks mark hmark)

/-- A character is none of some marks if it is none of more. -/
theorem notMem_of_marks (hchar : char ∉ marks) {fewer : Str} (hfewer : fewer.all (· ∈ marks)) :
    char ∉ fewer :=
  fun hmem ↦ hchar (forall_mark hfewer char hmem)

/-- Lower-casing does not make a mark: no mark is a small letter. -/
theorem getLowercase_notMem (hmarks : marks.all (·.toNat < 97)) (hchar : char ∉ marks) :
    getLowercase char ∉ marks := by
  rcases getLowercase_cases char with hsame | ⟨hlower, -⟩
  · rwa [hsame]
  · intro hmem
    exact absurd (forall_mark hmarks _ hmem) (by omega)

/-- A mark that is not there does not stop the search for it. -/
theorem takeWhile_line {mark : UInt8} (hline : mark ∉ line) : line.takeWhile (· ≠ mark) = line := by
  rw [List.takeWhile_eq_self_iff]
  intro char hchar
  have hne : char ≠ mark := fun heq ↦ hline (heq ▸ hchar)
  exact decide_eq_true hne

/-- The search for a mark stops at the first one. -/
theorem takeWhile_mark {mark : UInt8} (hline : mark ∉ line) {rest : Str} :
    (line ++ mark :: rest).takeWhile (· ≠ mark) = line := by
  rw [List.takeWhile_append, takeWhile_line hline, if_pos rfl,
    List.takeWhile_cons_of_neg (by simp), List.append_nil]

/-! ### What the loops over a line let through -/

theorem sectionName_spec {bSection : Bool} {strSec name : Str}
    (hline : ∀ char ∈ line, char ∉ 0 :: chars "\n=") (hsec : ∀ char ∈ strSec, IsSectionChar char)
    (hname : sectionName bSection strSec line = some name) :
    name ≠ [] ∧ ∀ char ∈ name, IsSectionChar char := by
  have hmarks : ∀ mark ∈ sectionMarks, mark ∈ 0 :: chars "\n=" ∨ isBlank mark ∨
      mark = '['.toUInt8 ∨ mark = ']'.toUInt8 ∨ isFinish mark :=
    forall_mark (by decide)
  induction line generalizing bSection strSec with
  | nil => cases hname
  | cons char rest ih =>
    obtain ⟨hchar, hrest⟩ := List.forall_mem_cons.mp hline
    rw [sectionName] at hname
    split_ifs at hname with hblank hopen hsection hclose hempty hfinish hsection
    · exact ih hrest hsec hname
    · exact ih hrest hsec hname
    · cases hname
      exact ⟨fun hnil ↦ hempty (congrArg List.length hnil), hsec⟩
    · refine ih hrest ?_ hname
      rw [List.forall_mem_append, List.forall_mem_singleton]
      refine ⟨hsec, getLowercase_notMem (by decide) fun hmark ↦ ?_, getLowercase_getLowercase char⟩
      rcases hmarks char hmark with hmark | hmark | hmark | hmark | hmark
      · exact hchar hmark
      · exact hblank hmark
      · exact hopen hmark
      · exact hclose hmark
      · exact hfinish hmark

theorem parameterName_spec {strCurrSec strPara key : Str}
    (hline : ∀ char ∈ line, char ∉ 0 :: chars "\n=")
    (hpara : ∀ char ∈ strPara, IsParameterChar strCurrSec char)
    (hkey : parameterName strCurrSec strPara line = some key) :
    ∀ char ∈ key, IsParameterChar strCurrSec char := by
  have hmarks : ∀ mark ∈ parameterMarks, mark ∈ 0 :: chars "\n=" ∨ isBlank mark ∨
      isFinish mark ∨ (mark ∈ chars "[]" || isQuote mark) :=
    forall_mark (by decide)
  induction line generalizing strPara with
  | nil =>
    cases hkey
    exact hpara
  | cons char rest ih =>
    obtain ⟨hchar, hrest⟩ := List.forall_mem_cons.mp hline
    rw [parameterName] at hkey
    have hmark : ¬isBlank char → ¬isFinish char → ¬(char ∈ chars "[]" || isQuote char) →
        char ∉ parameterMarks := by
      intro hblank hfinish hinvalid hmem
      rcases hmarks char hmem with hmark | hmark | hmark | hmark
      · exact hchar hmark
      · exact hblank hmark
      · exact hfinish hmark
      · exact hinvalid hmark
    split_ifs at hkey with hblank hfinish hinvalid hdomain
    · exact ih hrest hpara hkey
    · refine ih hrest ?_ hkey
      rw [List.forall_mem_append, List.forall_mem_singleton]
      exact ⟨hpara, hmark hblank hfinish hinvalid, fun hne ↦ absurd hdomain hne⟩
    · refine ih hrest ?_ hkey
      rw [List.forall_mem_append, List.forall_mem_singleton]
      exact ⟨hpara, getLowercase_notMem (by decide) (hmark hblank hfinish hinvalid),
        fun _ ↦ getLowercase_getLowercase char⟩

theorem parameterValue_spec {bInBarcket : Bool} {strValue : Str}
    (hline : ∀ char ∈ line, char ∉ 0 :: chars "\n")
    (hvalue : ∀ char ∈ strValue, char ∉ valueMarks) :
    ∀ char ∈ parameterValue bInBarcket strValue line, char ∉ valueMarks := by
  have hmarks : ∀ mark ∈ valueMarks, mark ∈ 0 :: chars "\n" ∨ isQuote mark ∨ isFinish mark :=
    forall_mark (by decide)
  induction line generalizing bInBarcket strValue with
  | nil => exact hvalue
  | cons char rest ih =>
    obtain ⟨hchar, hrest⟩ := List.forall_mem_cons.mp hline
    rw [parameterValue]
    split_ifs with hspace hbarcket hquote hbarcket hfinish
    · refine ih hrest ?_
      rw [List.forall_mem_append, List.forall_mem_singleton, hspace]
      exact ⟨hvalue, by decide⟩
    · exact ih hrest hvalue
    · exact hvalue
    · exact ih hrest hvalue
    · exact hvalue
    · refine ih hrest ?_
      rw [List.forall_mem_append, List.forall_mem_singleton]
      refine ⟨hvalue, fun hmark ↦ ?_⟩
      rcases hmarks char hmark with hmark | hmark | hmark
      · exact hchar hmark
      · exact hquote hmark
      · exact hfinish hmark

/-! ### Well-formed sections -/

/-- The current section: none yet, or one that `analyzeLine` has found. -/
def IsCurrent (strCurrSec : Str) : Prop :=
  strCurrSec = [] ∨ strCurrSec ≠ [] ∧ ∀ char ∈ strCurrSec, IsSectionChar char

theorem wellFormed_empty : WellFormed .empty where
  name name entries hentries := by cases hentries
  key name entries key value hentries := by cases hentries
  value name entries key value hentries := by cases hentries

/-- A section with well-formed entries takes the place of another one or is added. -/
theorem WellFormed.insert (hini : WellFormed ini) {name : Str} {entries : TSection}
    (hname : name ≠ [] ∧ ∀ char ∈ name, IsSectionChar char)
    (hentries : ∀ key value : Str, entries[key]? = some value →
      (key ≠ [] ∧ ∀ char ∈ key, IsParameterChar name char) ∧ ∀ char ∈ value, char ∉ valueMarks) :
    WellFormed ⟨ini.mInifile.insert name entries⟩ := by
  have hcases : ∀ (other : Str) (found : TSection),
      (ini.mInifile.insert name entries)[other]? = some found →
        name = other ∧ entries = found ∨ ini.mInifile[other]? = some found := by
    intro other found hfound
    rw [getElem?_insert_eq] at hfound
    split_ifs at hfound with hother
    · exact .inl ⟨hother, Option.some.inj hfound⟩
    · exact .inr hfound
  constructor
  · intro other found hfound
    rcases hcases other found hfound with ⟨rfl, rfl⟩ | hfound
    · exact hname
    · exact hini.name other found hfound
  · intro other found key value hfound hkey
    rcases hcases other found hfound with ⟨rfl, rfl⟩ | hfound
    · exact (hentries key value hkey).1
    · exact hini.key other found key value hfound hkey
  · intro other found key value hfound hkey
    rcases hcases other found hfound with ⟨rfl, rfl⟩ | hfound
    · exact (hentries key value hkey).2
    · exact hini.value other found key value hfound hkey

theorem WellFormed.addASection (hini : WellFormed ini) {name : Str}
    (hname : name ≠ [] ∧ ∀ char ∈ name, IsSectionChar char) :
    WellFormed (ini.addASection name) := by
  rw [IniFile.addASection]
  split
  · exact hini
  · refine hini.insert hname fun key value hkey ↦ ?_
    rw [Std.ExtTreeMap.getElem?_empty] at hkey
    cases hkey

theorem WellFormed.addAValue (hini : WellFormed ini) {name key value : Str}
    (hkey : key ≠ [] ∧ ∀ char ∈ key, IsParameterChar name char)
    (hvalue : ∀ char ∈ value, char ∉ valueMarks) : WellFormed (ini.addAValue name key value) := by
  rw [IniFile.addAValue]
  cases hentries : ini.mInifile[name]? with
  | none => exact hini
  | some entries =>
    dsimp only
    split
    · exact hini
    · refine hini.insert (hini.name name entries hentries) fun other found hfound ↦ ?_
      rw [getElem?_insert_eq] at hfound
      split_ifs at hfound with hother
      · obtain rfl := hother
        obtain rfl := Option.some.inj hfound
        exact ⟨hkey, hvalue⟩
      · exact ⟨hini.key name entries other found hentries hfound,
          hini.value name entries other found hentries hfound⟩

theorem analyzeSection_keeps {strCurrSec : Str} (hini : WellFormed ini)
    (hcurr : IsCurrent strCurrSec) (hline : ∀ char ∈ line, char ∉ 0 :: chars "\n=") :
    WellFormed (analyzeSection ini strCurrSec line).1 ∧
      IsCurrent (analyzeSection ini strCurrSec line).2 := by
  rw [analyzeSection]
  cases hname : sectionName false [] line with
  | none => exact ⟨hini, hcurr⟩
  | some strSec =>
    have hsec := sectionName_spec hline (List.forall_mem_nil _) hname
    exact ⟨hini.addASection hsec, .inr hsec⟩

theorem analyzeParameter_keeps {strCurrSec before after : Str} (hini : WellFormed ini)
    (hcurr : IsCurrent strCurrSec) (hbefore : ∀ char ∈ before, char ∉ 0 :: chars "\n=")
    (hafter : ∀ char ∈ after, char ∉ 0 :: chars "\n") :
    WellFormed (analyzeParameter ini strCurrSec before after).1 ∧
      IsCurrent (analyzeParameter ini strCurrSec before after).2 := by
  rw [analyzeParameter]
  split
  · exact ⟨hini, hcurr⟩
  · cases hkey : parameterName strCurrSec [] before with
    | none => exact ⟨hini, hcurr⟩
    | some strPara =>
      dsimp only
      split
      · exact ⟨hini, hcurr⟩
      · rename_i hempty
        have hchars := parameterName_spec hbefore (List.forall_mem_nil _) hkey
        have hvalue : ∀ char ∈ parameterValue false [] after, char ∉ valueMarks :=
          parameterValue_spec hafter (List.forall_mem_nil _)
        exact ⟨hini.addAValue ⟨fun hnil ↦ hempty (congrArg List.length hnil), hchars⟩ hvalue, hcurr⟩

theorem analyzeLine_keeps {strCurrSec : Str} (hini : WellFormed ini) (hcurr : IsCurrent strCurrSec)
    (hline : ∀ char ∈ line, char ∉ 0 :: chars "\n") :
    WellFormed (analyzeLine ini strCurrSec line).1 ∧
      IsCurrent (analyzeLine ini strCurrSec line).2 := by
  have hmarks : ∀ mark ∈ 0 :: chars "\n=", mark ∈ 0 :: chars "\n" ∨ mark = '='.toUInt8 :=
    forall_mark (by decide)
  have hnoMark : ∀ char ∈ line, char ≠ '='.toUInt8 → char ∉ 0 :: chars "\n=" := by
    intro char hchar hne hmem
    rcases hmarks char hmem with hmark | hmark
    · exact hline char hchar hmark
    · exact hne hmark
  rw [analyzeLine]
  split
  · refine analyzeParameter_keeps hini hcurr (fun char hchar ↦ ?_)
      fun char hchar ↦ hline char (List.mem_of_mem_drop hchar)
    have hne : char ≠ '='.toUInt8 := by simpa using List.mem_takeWhile_imp hchar
    exact hnoMark char ((List.takeWhile_sublist _).subset hchar) hne
  · rename_i habsent
    refine analyzeSection_keeps hini hcurr fun char hchar ↦ hnoMark char hchar ?_
    rintro rfl
    exact habsent hchar

/-! ### The loop over the stream -/

/-- A line that `getline` stores has no newline. -/
theorem newline_notMem_getline (stream : Stream) (size : ℕ) :
    '\n'.toUInt8 ∉ (stream.getline size).1 := by
  have hline : '\n'.toUInt8 ∉ (stream.rest.takeWhile (· ≠ '\n'.toUInt8)).take (size - 1) := by
    intro hmem
    simpa using List.mem_takeWhile_imp (List.mem_of_mem_take hmem)
  rw [Stream.getline]
  split
  · exact List.not_mem_nil
  · dsimp only
    split
    · exact hline
    · split
      · exact hline
      · exact hline

theorem loadLine_keeps {strCurrSec : Str} (hini : WellFormed ini) (hcurr : IsCurrent strCurrSec)
    (hline : '\n'.toUInt8 ∉ line) :
    WellFormed (loadLine ini strCurrSec line).1 ∧ IsCurrent (loadLine ini strCurrSec line).2 := by
  rw [loadLine]
  split
  · exact ⟨hini, hcurr⟩
  · refine analyzeLine_keeps hini hcurr fun char hchar hmark ↦ ?_
    rcases List.mem_cons.mp hmark with rfl | hmark
    · exact zero_notMem_cstring line hchar
    · obtain rfl := List.mem_singleton.mp hmark
      exact hline ((List.takeWhile_sublist _).subset hchar)

theorem loadLoop_keeps {fuel : ℕ} {state last : LoadState} (hloop : loadLoop fuel state = some last)
    (hini : WellFormed state.ini) (hcurr : IsCurrent state.strCurrSection) :
    WellFormed last.ini := by
  induction fuel generalizing state with
  | zero =>
    rw [loadLoop] at hloop
    split_ifs at hloop
    cases hloop
    exact hini
  | succ fuel ih =>
    rw [loadLoop] at hloop
    split_ifs at hloop
    · cases hloop
      exact hini
    · have hnext := loadLine_keeps hini hcurr (newline_notMem_getline state.inif cfgLineLen)
      exact ih hloop hnext.1 hnext.2

/-- `LoadIniFile` reads a file with these contents to its end. -/
def Loads (content : List UInt8) (ini : IniFile) : Prop :=
  ∃ fuel, loadIniFile fuel (some content) = some (ini, true)

/-- A load is a run of the loop from cleared sections. -/
theorem loads_iff {content : List UInt8} : Loads content ini ↔
    ∃ fuel last, loadLoop fuel ⟨.empty, [], ⟨content, false, false⟩⟩ = some last ∧
      last.ini = ini := by
  simp only [Loads, loadIniFile, Option.map_eq_some_iff, Prod.mk.injEq, and_true]

/-- What is loaded is well formed. -/
theorem Loads.wellFormed {content : List UInt8} (hloads : Loads content ini) : WellFormed ini := by
  obtain ⟨fuel, last, hloop, rfl⟩ := loads_iff.mp hloads
  exact loadLoop_keeps hloop wellFormed_empty (.inl rfl)

/-- More fuel does not change what the loop returns. -/
theorem loadLoop_mono {fuel more : ℕ} (hle : fuel ≤ more) {state last : LoadState}
    (hloop : loadLoop fuel state = some last) : loadLoop more state = some last := by
  induction fuel generalizing more state with
  | zero =>
    rw [loadLoop] at hloop
    split_ifs at hloop with heof
    cases more with
    | zero => rwa [loadLoop, if_pos heof]
    | succ more => rwa [loadLoop, if_pos heof]
  | succ fuel ih =>
    obtain ⟨more, rfl⟩ := Nat.exists_eq_succ_of_ne_zero (Nat.ne_zero_of_lt hle)
    rw [loadLoop] at hloop ⊢
    split_ifs at hloop ⊢
    · exact hloop
    · exact ih (Nat.le_of_succ_le_succ hle) hloop

theorem Loads.unique {content : List UInt8} {other : IniFile} (hloads : Loads content ini)
    (hother : Loads content other) : ini = other := by
  obtain ⟨fuel, last, hlast, rfl⟩ := loads_iff.mp hloads
  obtain ⟨more, final, hfinal, rfl⟩ := loads_iff.mp hother
  have hsame : some last = some final :=
    (loadLoop_mono (le_max_left fuel more) hlast).symm.trans
      (loadLoop_mono (le_max_right fuel more) hfinal)
  rw [Option.some.inj hsame]

/-! ### Files whose lines fit into the buffer -/

/-- All lines are shorter than the buffer. -/
def ShortLines (content : List UInt8) : Prop :=
  ∀ line ∈ content.splitOn '\n'.toUInt8, line.length < cfgLineLen

/-- What lines do, one after another. -/
def loadLines (state : IniFile × Str) (lines : List Str) : IniFile × Str :=
  lines.foldl (fun state line ↦ loadLine state.1 state.2 line) state

theorem getline_of_newline {rest : List UInt8} {size : ℕ} (hline : '\n'.toUInt8 ∉ line)
    (hsize : line.length < size) :
    Stream.getline ⟨line ++ '\n'.toUInt8 :: rest, false, false⟩ size =
      (line, ⟨rest, false, false⟩) := by
  rw [Stream.getline]
  simp only [Bool.or_self, Bool.false_eq_true, if_false]
  rw [takeWhile_mark hline, List.take_of_length_le (by omega), List.drop_left]
  exact if_pos rfl

theorem getline_of_end {size : ℕ} (hline : '\n'.toUInt8 ∉ line) (hsize : line.length < size) :
    Stream.getline ⟨line, false, false⟩ size = (line, ⟨[], true, line.length = 0⟩) := by
  rw [Stream.getline]
  simp only [Bool.or_self, Bool.false_eq_true, if_false]
  rw [takeWhile_line hline, List.take_of_length_le (by omega), List.drop_length]

/-- Lines that fit into the buffer are read one after another. -/
theorem loadLoop_lines {lines : List Str} (hlines : ∀ line ∈ lines, '\n'.toUInt8 ∉ line)
    (hshort : ∀ line ∈ lines, line.length < cfgLineLen) (hne : lines ≠ []) (state : IniFile × Str) :
    ∃ inif, loadLoop lines.length
        ⟨state.1, state.2, ⟨['\n'.toUInt8].intercalate lines, false, false⟩⟩ =
      some ⟨(loadLines state lines).1, (loadLines state lines).2, inif⟩ := by
  induction lines generalizing state with
  | nil => exact absurd rfl hne
  | cons line rest ih =>
    obtain ⟨hline, hlines⟩ := List.forall_mem_cons.mp hlines
    obtain ⟨hsize, hshort⟩ := List.forall_mem_cons.mp hshort
    cases rest with
    | nil =>
      refine ⟨⟨[], true, line.length = 0⟩, ?_⟩
      rw [List.intercalate_singleton, List.length_singleton, loadLoop, if_neg Bool.false_ne_true,
        LoadState.next]
      dsimp only
      rw [getline_of_end hline hsize]
      exact if_pos rfl
    | cons second rest =>
      obtain ⟨inif, hloop⟩ := ih hlines hshort (List.cons_ne_nil _ _)
        (loadLine state.1 state.2 line)
      refine ⟨inif, ?_⟩
      rw [List.intercalate_cons_cons, List.length_cons, loadLoop, if_neg Bool.false_ne_true,
        LoadState.next]
      dsimp only
      rw [List.append_assoc, List.singleton_append, getline_of_newline hline hsize]
      exact hloop

/-- A file of lines that fit into the buffer is read to its end. -/
theorem loads_of_lines {lines : List Str} (hlines : ∀ line ∈ lines, '\n'.toUInt8 ∉ line)
    (hne : lines ≠ []) (hshort : ShortLines (['\n'.toUInt8].intercalate lines)) :
    Loads (['\n'.toUInt8].intercalate lines) (loadLines (.empty, []) lines).1 := by
  rw [ShortLines, List.splitOn_intercalate _ hlines hne] at hshort
  obtain ⟨inif, hloop⟩ := loadLoop_lines hlines hshort hne (.empty, [])
  exact loads_iff.mpr ⟨lines.length, _, hloop, rfl⟩

/-! ### Files with a longer line -/

/-- A stream that has failed before its end is never read to it. -/
theorem loadLoop_stuck {state : LoadState} (heof : state.inif.eof = false)
    (hfail : state.inif.fail = true) (fuel : ℕ) : loadLoop fuel state = none := by
  induction fuel generalizing state with
  | zero => rw [loadLoop, heof, if_neg Bool.false_ne_true]
  | succ fuel ih =>
    have hnext : state.next.inif = ⟨state.inif.rest, false, true⟩ := by
      simp only [LoadState.next, Stream.getline, heof, hfail, Bool.false_or, if_true]
    rw [loadLoop, heof, if_neg Bool.false_ne_true]
    exact ih (by rw [hnext]) (by rw [hnext])

/-- A line that does not fit into the buffer sets `failbit` and not `eofbit`. -/
theorem getline_of_long {rest : List UInt8} {size : ℕ} (hline : '\n'.toUInt8 ∉ line)
    (hpos : 0 < size) (hsize : size ≤ line.length) :
    (Stream.getline ⟨line ++ rest, false, false⟩ size).2.eof = false ∧
      (Stream.getline ⟨line ++ rest, false, false⟩ size).2.fail = true := by
  have hstored : ((line ++ rest).takeWhile (· ≠ '\n'.toUInt8)).take (size - 1) =
      line.take (size - 1) := by
    rw [List.takeWhile_append, takeWhile_line hline, if_pos rfl,
      List.take_append_of_le_length (by omega)]
  have hlt : size - 1 < line.length := by omega
  have hmore : line.drop (size - 1) ≠ [] := by
    rw [ne_eq, List.drop_eq_nil_iff]
    omega
  obtain ⟨char, after, hdrop⟩ := List.exists_cons_of_ne_nil hmore
  have hleft : (line ++ rest).drop (line.take (size - 1)).length = char :: (after ++ rest) := by
    rw [List.length_take, min_eq_left hlt.le, List.drop_append_of_le_length hlt.le, hdrop,
      List.cons_append]
  have hne : char ≠ '\n'.toUInt8 := by
    rintro rfl
    exact hline (List.mem_of_mem_drop (hdrop ▸ List.mem_cons_self))
  rw [Stream.getline]
  simp only [Bool.or_self, Bool.false_eq_true, if_false]
  rw [hstored, hleft]
  dsimp only
  rw [if_neg hne]
  exact ⟨rfl, rfl⟩

/-- A loop that ends has met no line that does not fit into the buffer. -/
theorem short_of_loadLoop {lines : List Str} (hlines : ∀ line ∈ lines, '\n'.toUInt8 ∉ line)
    {fuel : ℕ} {state last : LoadState}
    (hinif : state.inif = ⟨['\n'.toUInt8].intercalate lines, false, false⟩)
    (hloop : loadLoop fuel state = some last) : ∀ line ∈ lines, line.length < cfgLineLen := by
  induction lines generalizing fuel state with
  | nil => exact List.forall_mem_nil _
  | cons line rest ih =>
    obtain ⟨hline, hlines⟩ := List.forall_mem_cons.mp hlines
    cases fuel with
    | zero =>
      rw [loadLoop, hinif] at hloop
      cases hloop
    | succ fuel =>
      rw [loadLoop, hinif, if_neg Bool.false_ne_true] at hloop
      have hnext : state.next.inif = (state.inif.getline cfgLineLen).2 := rfl
      rw [hinif] at hnext
      have hsize : line.length < cfgLineLen := by
        by_contra hlong
        obtain ⟨tail, htail⟩ :
            ∃ tail, ['\n'.toUInt8].intercalate (line :: rest) = line ++ tail := by
          cases rest with
          | nil => exact ⟨[], by rw [List.intercalate_singleton, List.append_nil]⟩
          | cons second rest => exact ⟨_, by rw [List.intercalate_cons_cons, List.append_assoc]⟩
        rw [htail] at hnext
        obtain ⟨heof, hfail⟩ := @getline_of_long line tail _ hline (by decide)
          (not_lt.mp hlong)
        rw [loadLoop_stuck (by rw [hnext, heof]) (by rw [hnext, hfail])] at hloop
        cases hloop
      refine List.forall_mem_cons.mpr ⟨hsize, ?_⟩
      cases rest with
      | nil => exact List.forall_mem_nil _
      | cons second rest =>
        rw [List.intercalate_cons_cons, List.append_assoc, List.singleton_append,
          getline_of_newline hline hsize] at hnext
        exact ih hlines hnext hloop

/-- Only a file whose lines fit into the buffer is read to its end. -/
theorem Loads.shortLines {content : List UInt8} (hloads : Loads content ini) :
    ShortLines content := by
  obtain ⟨fuel, last, hloop, -⟩ := loads_iff.mp hloads
  refine short_of_loadLoop (fun line hline ↦ notMem_of_mem_splitOn hline) ?_ hloop
  rw [List.intercalate_splitOn]

/-- A file whose lines fit into the buffer is read to its end, line by line. -/
theorem loads_of_shortLines {content : List UInt8} (hshort : ShortLines content) :
    Loads content (loadLines (.empty, []) (content.splitOn '\n'.toUInt8)).1 := by
  have hloads := loads_of_lines (fun line hline ↦ notMem_of_mem_splitOn hline)
    (List.splitOn_ne_nil '\n'.toUInt8 content) (by rwa [List.intercalate_splitOn])
  rwa [List.intercalate_splitOn] at hloads

/-- `LoadIniFile` ends on a file exactly if all its lines are shorter than the buffer. -/
theorem loadIniFile_ends_iff (content : List UInt8) :
    (∃ fuel result, loadIniFile fuel (some content) = some result) ↔
      ∀ line ∈ content.splitOn '\n'.toUInt8, line.length < cfgLineLen := by
  constructor
  · rintro ⟨fuel, ⟨ini, opened⟩, hload⟩
    have hopened : opened = true := by
      obtain ⟨last, -, heq⟩ := Option.map_eq_some_iff.mp hload
      exact (congrArg Prod.snd heq).symm
    rw [hopened] at hload
    exact Loads.shortLines ⟨fuel, hload⟩
  · intro hshort
    obtain ⟨fuel, hload⟩ := loads_of_shortLines hshort
    exact ⟨fuel, _, hload⟩

/-- `LoadIniFile` does not end on a file that is one line of 1024 characters. -/
theorem loadIniFile_diverges_long_line :
    ¬∃ fuel result, loadIniFile fuel (some (List.replicate 1024 'a'.toUInt8)) = some result := by
  rintro ⟨fuel, ⟨ini, opened⟩, hload⟩
  obtain ⟨last, hloop, -⟩ := Option.map_eq_some_iff.mp hload
  have hshort := Loads.shortLines (loads_iff.mpr ⟨fuel, last, hloop, rfl⟩)
  have hline : '\n'.toUInt8 ∉ List.replicate 1024 'a'.toUInt8 := by
    rw [List.mem_replicate]
    exact fun hmem ↦ absurd hmem.2 (by decide)
  rw [ShortLines, List.splitOn_eq_singleton hline, List.forall_mem_singleton,
    List.length_replicate] at hshort
  exact absurd hshort (by decide)

end Exc.Ini
