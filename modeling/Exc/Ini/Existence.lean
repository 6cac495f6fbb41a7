import Exc.Ini.Grammar

/-!
# Asking whether an entry exists

`is_section_key_exist` of `comLib/IniFile.cpp` looks for the section in lower case and for the key
as it is given, while `GetString` looks for both in lower case. What the two look for is `HasEntry`
of the section under two spellings of the key.

`Written` says in terms of the calls alone which entries there are: the last call that gives a
section a key, if none after it takes it away. A file gives a section the keys of the lines under
its header, in lower case, with an exception for one section (`KeyLine`). `hasEntry_iff_written` is
the run lemma, and `exist_agrees_iff` what follows: the two agree exactly if the key has no capital
letter, or if both spellings were written or neither.
-/

set_option autoImplicit false
set_option relaxedAutoImplicit false

namespace Exc.Ini

open Lib

/-! ### The keys of a file -/

/-- A key as `analyzeLine` stores it: without blanks and tabs, and in lower case but in one section.
-/
def storedName (strCurrSec raw : Str) : Str :=
  if strCurrSec = chars "domain_isp_map" then raw.filter fun char ↦ !isBlank char else plainName raw

/-- A line that gives its section a key: the key is before the first `=`. -/
def KeyLine (strCurrSec line key : Str) : Prop :=
  ∃ before after, line = before ++ '='.toUInt8 :: after ∧ '='.toUInt8 ∉ before ∧
    (∀ char ∈ before, char ∉ chars "#;\r[]\x27\x22") ∧
    key = storedName strCurrSec before ∧ key ≠ []

/-- Some line under the name gives the section the key. -/
def KeyGiven (lines : List Str) (name key : Str) : Prop :=
  ∃ front line back, lines = front ++ line :: back ∧ Under front name ∧ KeyLine name line key

/-- The lines of a file, as far as `analyzeLine` sees them. -/
def seenLines (content : List UInt8) : List Str :=
  (content.splitOn '\n'.toUInt8).map cstring

theorem keyGiven_snoc {lines : List Str} {line name key : Str} :
    KeyGiven (lines ++ [line]) name key ↔
      KeyGiven lines name key ∨ Under lines name ∧ KeyLine name line key := by
  constructor
  · rintro ⟨front, last, back, hlines, hunder, hkey⟩
    rcases snoc_eq_split.mp hlines with ⟨rest, rfl, rfl⟩ | ⟨rfl, rfl, rfl⟩
    · exact .inl ⟨front, last, rest, rfl, hunder, hkey⟩
    · exact .inr ⟨hunder, hkey⟩
  · rintro (⟨front, last, back, rfl, hunder, hkey⟩ | ⟨hunder, hkey⟩)
    · exact ⟨front, last, back ++ [line], by simp, hunder, hkey⟩
    · exact ⟨lines, line, [], rfl, hunder, hkey⟩

/-- The loop over a key, in any section. -/
theorem parameterName_storedName (strCurrSec strPara before : Str) :
    parameterName strCurrSec strPara before =
      if before.all fun char ↦ char ∉ chars "#;\r[]\x27\x22" then
        some (strPara ++ storedName strCurrSec before)
      else none := by
  by_cases hcurr : strCurrSec = chars "domain_isp_map"
  · have hmarks : ∀ mark ∈ chars "#;\r[]\x27\x22", ¬isBlank mark ∧
        (isFinish mark ∨ (mark ∈ chars "[]" || isQuote mark)) := forall_mark (by decide)
    rw [storedName, if_pos hcurr]
    induction before generalizing strPara with
    | nil => simp [parameterName]
    | cons char before ih =>
      simp only [parameterName, List.all_cons]
      by_cases hblank : isBlank char
      · have hchar : char ∉ chars "#;\r[]\x27\x22" := fun hmem ↦ (hmarks char hmem).1 hblank
        rw [if_pos hblank, ih, List.filter_cons_of_neg (by simpa using hblank)]
        simp only [hchar, not_false_eq_true, decide_true, Bool.true_and]
      · by_cases hmark : char ∈ chars "#;\r[]\x27\x22"
        · simp only [hmark, not_true_eq_false, decide_false, Bool.false_and, Bool.false_eq_true,
            if_false]
          rw [if_neg hblank]
          rcases (hmarks char hmark).2 with hfinish | hinvalid
          · rw [if_pos hfinish]
          · rw [if_pos hinvalid, ite_self]
        · have hfinish : ¬isFinish char := fun hfinish ↦
            notMem_of_marks hmark (by decide) (of_decide_eq_true hfinish)
          have hinvalid : ¬(char ∈ chars "[]" || isQuote char) := by
            rw [Bool.or_eq_true, not_or]
            exact ⟨fun hbracket ↦ notMem_of_marks hmark (by decide) (of_decide_eq_true hbracket),
              fun hquote ↦ notMem_of_marks hmark (by decide) (of_decide_eq_true hquote)⟩
          rw [if_neg hblank, if_neg hfinish, if_neg hinvalid, if_pos hcurr, ih,
            List.filter_cons_of_pos (by simpa using hblank), List.append_assoc,
            List.singleton_append]
          simp only [hmark, not_false_eq_true, decide_true, Bool.true_and]
  · rw [storedName, if_neg hcurr]
    exact parameterName_eq hcurr strPara before

namespace IniFile

/-- `is_section_key_exist`. -/
def isSectionKeyExist (ini : IniFile) (szSection szKey : Option CStr) : Bool :=
  match szSection, szKey with
  | some szSection, some szKey =>
    match ini.getSection szSection with
    | none => false
    | some p => szKey.chars ∈ p
  | _, _ => false

/-- There is a section with an entry, both under exactly these names. -/
def HasEntry (ini : IniFile) (strSection strP : Str) : Prop :=
  ∃ entries, ini.mInifile[strSection]? = some entries ∧ strP ∈ entries

/-- `GetString` takes its result from an entry: it is the same for every default. -/
def TakesEntry (ini : IniFile) (szSection szKey : CStr) : Prop :=
  ∃ text, ∀ szDefault, ini.getString szSection szKey szDefault = text

variable {ini : IniFile} {szSection szKey : CStr}

theorem isSectionKeyExist_iff :
    ini.isSectionKeyExist (some szSection) (some szKey) ↔
      ini.HasEntry (lowercase szSection.chars) szKey.chars := by
  rw [isSectionKeyExist, HasEntry, getSection]
  cases ini.mInifile[lowercase szSection.chars]? with
  | none => simp
  | some entries => simp

theorem takesEntry_iff_stored :
    ini.TakesEntry szSection szKey ↔ (ini.stored szSection szKey).isSome := by
  simp only [TakesEntry, getString_eq]
  cases ini.stored szSection szKey with
  | none =>
    simp only [Option.getD_none, Option.isSome_none, Bool.false_eq_true, iff_false, not_exists]
    intro text htext
    obtain ⟨first, second, hne⟩ := exists_pair_ne CStr
    exact hne (CStr.chars_injective ((htext first).trans (htext second).symm))
  | some value => exact iff_of_true ⟨value.chars, fun _ ↦ rfl⟩ rfl

theorem takesEntry_iff :
    ini.TakesEntry szSection szKey ↔
      ini.HasEntry (lowercase szSection.chars) (lowercase szKey.chars) := by
  rw [takesEntry_iff_stored, stored, HasEntry, Option.isSome_map]
  cases ini.mInifile[lowercase szSection.chars]? with
  | none => simp
  | some entries => simp

/-! ### What a call does to the sections -/

theorem hasEntry_iff_isSome {name key : Str} :
    ini.HasEntry name key ↔ (ini.entry name key).isSome := by
  rw [HasEntry, entry]
  cases ini.mInifile[name]? with
  | none => simp
  | some entries => simp

theorem HasEntry.mem {name key : Str} (h : ini.HasEntry name key) : name ∈ ini.mInifile := by
  obtain ⟨entries, hentries, -⟩ := h
  exact mem_iff_exists_getElem?.mpr ⟨entries, hentries⟩

/-- Storing an entry in a section, which need not be there before. -/
theorem hasEntry_insert {strSection name key other : Str} (value : Str) :
    (⟨ini.mInifile.insert strSection ((ini.mInifile[strSection]?.getD ∅).insert key value)⟩ :
        IniFile).HasEntry name other ↔
      (strSection = name ∧ key = other) ∨ ini.HasEntry name other := by
  simp only [HasEntry, getElem?_insert_eq]
  split_ifs with hsection
  · subst hsection
    cases ini.mInifile[strSection]? with
    | none => simp [Std.ExtTreeMap.mem_insert]
    | some entries => simp [Std.ExtTreeMap.mem_insert]
  · simp [hsection]

theorem hasEntry_assign {name other : Str} (value : Str) :
    (ini.assign szSection szKey value).HasEntry name other ↔
      (lowercase szSection.chars = name ∧ szKey.chars = other) ∨ ini.HasEntry name other :=
  hasEntry_insert value

theorem hasEntry_addAKeyValue {strSection strP strV name other : Str} :
    (ini.addAKeyValue strSection strP strV).1.HasEntry name other ↔
      (strSection ∈ ini.mInifile ∧ strSection = name ∧ strP = other) ∨
        ini.HasEntry name other := by
  rw [addAKeyValue]
  cases hentries : ini.mInifile[strSection]? with
  | none =>
    have hmem : strSection ∉ ini.mInifile := fun hmem ↦ by
      rw [Std.ExtTreeMap.getElem?_eq_some_getElem hmem] at hentries
      cases hentries
    simp [hmem]
  | some pSec =>
    have hmem : strSection ∈ ini.mInifile := mem_iff_exists_getElem?.mpr ⟨pSec, hentries⟩
    have hinsert := @hasEntry_insert ini strSection name strP other strV
    rw [hentries, Option.getD_some] at hinsert
    simp only [hinsert, hmem, true_and]

theorem hasEntry_deleteAKeyValue {strSection strP name other : Str} :
    (ini.deleteAKeyValue strSection strP).1.HasEntry name other ↔
      ¬(strSection = name ∧ strP = other) ∧ ini.HasEntry name other := by
  rw [deleteAKeyValue]
  cases hentries : ini.mInifile[strSection]? with
  | none =>
    refine (and_iff_right_of_imp ?_).symm
    rintro ⟨entries, hfound, -⟩ ⟨rfl, -⟩
    rw [hentries] at hfound
    cases hfound
  | some pSec =>
    simp only [HasEntry, getElem?_insert_eq]
    split_ifs with hsection
    · subst hsection
      simp [hentries]
    · simp [hsection]

theorem mem_insert_iff {strSection name : Str} (entries : TSection) :
    name ∈ ini.mInifile.insert strSection entries ↔ strSection = name ∨ name ∈ ini.mInifile := by
  simp [Std.ExtTreeMap.mem_insert]

theorem mem_addAKeyValue_iff {strSection strP strV name : Str} :
    name ∈ (ini.addAKeyValue strSection strP strV).1.mInifile ↔ name ∈ ini.mInifile := by
  rw [addAKeyValue]
  cases hentries : ini.mInifile[strSection]? with
  | none => rfl
  | some pSec =>
    rw [mem_insert_iff]
    exact or_iff_right_of_imp fun heq ↦ heq ▸ mem_iff_exists_getElem?.mpr ⟨pSec, hentries⟩

theorem mem_deleteAKeyValue_iff {strSection strP name : Str} :
    name ∈ (ini.deleteAKeyValue strSection strP).1.mInifile ↔ name ∈ ini.mInifile := by
  rw [deleteAKeyValue]
  cases hentries : ini.mInifile[strSection]? with
  | none => rfl
  | some pSec =>
    rw [mem_insert_iff]
    exact or_iff_right_of_imp fun heq ↦ heq ▸ mem_iff_exists_getElem?.mpr ⟨pSec, hentries⟩

/-! ### What a load leaves -/

section Line

variable {strCurrSec line : Str}

theorem mem_addASection_iff {added name : Str} :
    name ∈ (ini.addASection added).mInifile ↔ added = name ∨ name ∈ ini.mInifile := by
  rw [addASection]
  split_ifs with hmem
  · exact (or_iff_right_of_imp fun heq ↦ heq ▸ hmem).symm
  · exact mem_insert_iff ∅

theorem mem_addAValue_iff {key value name : Str} :
    name ∈ (ini.addAValue strCurrSec key value).mInifile ↔ name ∈ ini.mInifile := by
  rw [addAValue]
  cases hentries : ini.mInifile[strCurrSec]? with
  | none => rfl
  | some pSec =>
    dsimp only
    split_ifs with hmem
    · rfl
    · rw [mem_insert_iff]
      exact or_iff_right_of_imp fun heq ↦ heq ▸ mem_iff_exists_getElem?.mpr ⟨pSec, hentries⟩

/-- A line with a key adds it to its section. -/
theorem hasEntry_addAValue (hcurr : strCurrSec ∈ ini.mInifile) {key value name other : Str} :
    (ini.addAValue strCurrSec key value).HasEntry name other ↔
      (strCurrSec = name ∧ key = other) ∨ ini.HasEntry name other := by
  rw [hasEntry_iff_isSome, hasEntry_iff_isSome]
  by_cases hname : strCurrSec = name
  · subst hname
    rw [entry_addAValue hcurr]
    split_ifs with hkey
    · simp [hkey]
    · simp [hkey]
  · rw [entry_addAValue_of_ne hname]
    simp [hname]

/-- What a line that is not a header does to the entries. -/
theorem hasEntry_loadLine (hclean : 0 ∉ line) (hheader : ∀ name, ¬HeaderLine line name)
    (hcurr : strCurrSec ≠ [] → strCurrSec ∈ ini.mInifile) {name other : Str} :
    (loadLine ini strCurrSec line).1.HasEntry name other ↔
      ini.HasEntry name other ∨ (strCurrSec = name ∧ name ≠ []) ∧ KeyLine name line other := by
  have hnone (hkey : ∀ key, ¬KeyLine strCurrSec line key) :
      ini.HasEntry name other ↔
        ini.HasEntry name other ∨ (strCurrSec = name ∧ name ≠ []) ∧ KeyLine name line other := by
    refine (or_iff_left ?_).symm
    rintro ⟨⟨rfl, -⟩, hline⟩
    exact hkey other hline
  by_cases hempty : line = []
  · subst hempty
    refine hnone fun key ↦ ?_
    rintro ⟨before, after, hline, -⟩
    simp at hline
  rw [loadLine_eq hclean hempty]
  by_cases hmark : '='.toUInt8 ∈ line
  · obtain ⟨before, after, rfl, hbefore⟩ := List.eq_append_cons_of_mem hmark
    have hline : ∀ key, KeyLine strCurrSec (before ++ '='.toUInt8 :: after) key ↔
        (before.all fun char ↦ char ∉ chars "#;\r[]\x27\x22") ∧
          key = storedName strCurrSec before ∧ key ≠ [] := by
      intro key
      constructor
      · rintro ⟨start, rest, heq, hstart, hmarks, hkey, hne⟩
        have hsame : before = start := by
          have hbegin : (before ++ '='.toUInt8 :: after).takeWhile (· ≠ '='.toUInt8) = before :=
            takeWhile_mark hbefore
          rw [← hbegin, heq, takeWhile_mark hstart]
        subst hsame
        exact ⟨List.all_eq_true.mpr fun char hchar ↦ decide_eq_true (hmarks char hchar), hkey, hne⟩
      · rintro ⟨hall, hkey, hne⟩
        exact ⟨before, after, rfl, hbefore,
          fun char hchar ↦ of_decide_eq_true (List.all_eq_true.mp hall char hchar), hkey, hne⟩
    rw [analyzeLine_mark hbefore, analyzeParameter]
    split_ifs with hzero
    · rw [List.length_eq_zero_iff] at hzero
      exact (or_iff_left fun hunder ↦ hunder.1.2 (hunder.1.1.symm.trans hzero)).symm
    · rw [List.length_eq_zero_iff] at hzero
      rw [parameterName_storedName]
      by_cases hall : before.all fun char ↦ char ∉ chars "#;\r[]\x27\x22"
      · rw [if_pos hall, List.nil_append]
        dsimp only
        split_ifs with hpara
        · rw [List.length_eq_zero_iff] at hpara
          exact hnone fun key hkey ↦
            ((hline key).mp hkey).2.2 (((hline key).mp hkey).2.1.trans hpara)
        · rw [List.length_eq_zero_iff] at hpara
          rw [hasEntry_addAValue (hcurr hzero), or_comm]
          refine or_congr_right ⟨?_, ?_⟩
          · rintro ⟨rfl, rfl⟩
            exact ⟨⟨rfl, hzero⟩, (hline _).mpr ⟨hall, rfl, hpara⟩⟩
          · rintro ⟨⟨rfl, -⟩, hkey⟩
            exact ⟨rfl, ((hline other).mp hkey).2.1.symm⟩
      · rw [if_neg hall]
        exact hnone fun key hkey ↦ hall ((hline key).mp hkey).1
  · rw [analyzeLine, if_neg hmark, analyzeSection]
    cases hname : sectionName false [] line with
    | none =>
      refine hnone fun key ↦ ?_
      rintro ⟨before, after, rfl, -⟩
      simp at hmark
    | some found => exact absurd ((sectionName_iff hmark).mp hname) (hheader found)

end Line

/-- The sections and the entries after some lines. -/
structure Keeps (lines : List Str) (ini : IniFile) : Prop where
  sections : ∀ name, name ∈ ini.mInifile ↔ ∃ line ∈ lines, HeaderLine line name
  entries : ∀ name key, ini.HasEntry name key ↔ KeyGiven lines name key

theorem keeps_nil : Keeps [] empty := by
  refine ⟨fun name ↦ iff_of_false Std.ExtTreeMap.not_mem_empty (by simp),
    fun name key ↦ iff_of_false (fun h ↦ Std.ExtTreeMap.not_mem_empty h.mem) ?_⟩
  rintro ⟨front, line, back, hlines, -⟩
  simp at hlines

theorem keeps_loadLines {lines : List Str} (hclean : ∀ line ∈ lines, 0 ∉ line) :
    Keeps lines (loadLines (.empty, []) lines).1 := by
  induction lines using List.reverseRecOn with
  | nil => exact keeps_nil
  | append_singleton lines line ih =>
    rw [List.forall_mem_append, List.forall_mem_singleton] at hclean
    obtain ⟨hsections, hentries⟩ := ih hclean.1
    have hreads := reads_loadLines hclean.1
    rw [loadLines_append]
    generalize loadLines (.empty, []) lines = state at *
    by_cases hheader : ∃ name, HeaderLine line name
    · obtain ⟨name, hheader⟩ := hheader
      have hnokey : ∀ other key, ¬KeyLine other line key := by
        rintro other key ⟨before, after, rfl, -⟩
        exact hheader.1 (by simp)
      have hname : ∀ other, HeaderLine line other ↔ name = other := fun other ↦
        ⟨fun hother ↦ hheader.unique hother, fun heq ↦ heq ▸ hheader⟩
      change Keeps _ (loadLine state.1 state.2 line).1
      rw [loadLine_header hclean.2 hheader]
      refine ⟨fun other ↦ ?_, fun other key ↦ ?_⟩
      · rw [mem_addASection_iff, hsections, ← hname]
        simp only [List.mem_append, List.mem_singleton, or_and_right, exists_or, exists_eq_left]
        exact or_comm
      · rw [hasEntry_iff_isSome, entry_addASection, ← hasEntry_iff_isSome, hentries, keyGiven_snoc]
        exact (or_iff_left fun hnew ↦ hnokey other key hnew.2).symm
    · rw [not_exists] at hheader
      change Keeps _ (loadLine state.1 state.2 line).1
      refine ⟨fun other ↦ ?_, fun other key ↦ ?_⟩
      · simp only [List.mem_append, List.mem_singleton, or_and_right, exists_or, exists_eq_left]
        rw [or_iff_left (hheader other), ← hsections]
        have hcases : loadLine state.1 state.2 line = state ∨
            ∃ key value, loadLine state.1 state.2 line =
              (state.1.addAValue state.2 key value, state.2) := loadLine_cases hclean.2 hheader
        obtain heq | ⟨key, value, heq⟩ := hcases
        · rw [heq]
        · rw [heq, mem_addAValue_iff]
      · rw [hasEntry_loadLine hclean.2 hheader hreads.current_mem, hentries, keyGiven_snoc,
          hreads.current]

/-- `analyzeLine` sees a line up to its first null byte. -/
theorem loadLines_map_cstring (state : IniFile × Str) (lines : List Str) :
    loadLines state (lines.map cstring) = loadLines state lines := by
  have hline : ∀ (ini : IniFile) (strCurrSec line : Str),
      loadLine ini strCurrSec (cstring line) = loadLine ini strCurrSec line := by
    intro ini strCurrSec line
    rw [loadLine, loadLine, cstring_eq_self (zero_notMem_cstring line)]
  rw [loadLines, List.foldl_map]
  simp only [hline]
  rfl

/-- What a file leaves that is read to its end. -/
theorem keeps_loadIniFile {fuel : ℕ} {content : List UInt8} {opened : Bool}
    (hload : loadIniFile fuel (some content) = some (ini, opened)) :
    Keeps (seenLines content) ini := by
  have hopened : opened = true := by
    obtain ⟨last, -, heq⟩ := Option.map_eq_some_iff.mp hload
    exact (congrArg Prod.snd heq).symm
  rw [hopened] at hload
  have hloads : Loads content ini := ⟨fuel, hload⟩
  obtain rfl := hloads.unique (loads_of_shortLines hloads.shortLines)
  rw [seenLines, ← loadLines_map_cstring]
  refine keeps_loadLines fun line hline ↦ ?_
  obtain ⟨raw, -, rfl⟩ := List.mem_map.mp hline
  exact zero_notMem_cstring raw

end IniFile

/-! ### What the calls have written -/

/-- The call replaces all sections. -/
def IniCall.IsLoad : IniCall → Prop
  | .load _ _ => True
  | _ => False

/-- The call makes a section: a setter makes the one that it is given, and a file those of its
headers. -/
def IniCall.MakesSection (name : Str) : IniCall → Prop
  | .load _ (some content) => ∃ line ∈ seenLines content, HeaderLine line name
  | .setString (some szSection) (some _) (some value) =>
    value.chars ≠ [] ∧ lowercase szSection.chars = name
  | .setInteger (some szSection) (some _) _ => lowercase szSection.chars = name
  | .setBool (some szSection) (some _) _ => lowercase szSection.chars = name
  | _ => False

/-- A section was made and not cleared since. -/
def SectionMade (calls : List IniCall) (name : Str) : Prop :=
  ∃ front call back, calls = front ++ call :: back ∧ call.MakesSection name ∧
    ∀ later ∈ back, ¬later.IsLoad

/-- The call gives a section a key, after the calls before it. `add_a_key_value` needs the section.
-/
def IniCall.Gives (earlier : List IniCall) (name key : Str) : IniCall → Prop
  | .load _ (some content) => KeyGiven (seenLines content) name key
  | .setString (some szSection) (some szKey) (some value) =>
    value.chars ≠ [] ∧ lowercase szSection.chars = name ∧ szKey.chars = key
  | .setInteger (some szSection) (some szKey) _ =>
    lowercase szSection.chars = name ∧ szKey.chars = key
  | .setBool (some szSection) (some szKey) _ =>
    lowercase szSection.chars = name ∧ szKey.chars = key
  | .addAKeyValue strSection strP _ => SectionMade earlier name ∧ strSection = name ∧ strP = key
  | _ => False

/-- The call takes the key away from the section: it deletes it, or replaces all sections. -/
def IniCall.Removes (name key : Str) : IniCall → Prop
  | .load _ _ => True
  | .deleteAKeyValue strSection strP => strSection = name ∧ strP = key
  | _ => False

/-- A call has given the section the key, and none after it has taken it away. -/
def Written (calls : List IniCall) (name key : Str) : Prop :=
  ∃ earlier call later, calls = earlier ++ call :: later ∧ call.Gives earlier name key ∧
    ∀ other ∈ later, ¬other.Removes name key

section Snoc

variable {calls : List IniCall} {call : IniCall} {name key : Str}

theorem sectionMade_snoc : SectionMade (calls ++ [call]) name ↔
    call.MakesSection name ∨ ¬call.IsLoad ∧ SectionMade calls name := by
  constructor
  · rintro ⟨front, last, back, hcalls, hmakes, hback⟩
    rcases snoc_eq_split.mp hcalls with ⟨rest, rfl, rfl⟩ | ⟨rfl, rfl, rfl⟩
    · rw [List.forall_mem_append, List.forall_mem_singleton] at hback
      exact .inr ⟨hback.2, front, last, rest, rfl, hmakes, hback.1⟩
    · exact .inl hmakes
  · rintro (hmakes | ⟨hload, front, last, back, rfl, hmakes, hback⟩)
    · exact ⟨calls, call, [], rfl, hmakes, List.forall_mem_nil _⟩
    · refine ⟨front, last, back ++ [call], by simp, hmakes, ?_⟩
      rw [List.forall_mem_append, List.forall_mem_singleton]
      exact ⟨hback, hload⟩

theorem sectionMade_same (hmakes : ¬call.MakesSection name) (hload : ¬call.IsLoad) :
    SectionMade (calls ++ [call]) name ↔ SectionMade calls name := by
  rw [sectionMade_snoc, or_iff_right hmakes, and_iff_right hload]

theorem written_snoc : Written (calls ++ [call]) name key ↔
    call.Gives calls name key ∨ ¬call.Removes name key ∧ Written calls name key := by
  constructor
  · rintro ⟨earlier, last, later, hcalls, hgives, hlater⟩
    rcases snoc_eq_split.mp hcalls with ⟨rest, rfl, rfl⟩ | ⟨rfl, rfl, rfl⟩
    · rw [List.forall_mem_append, List.forall_mem_singleton] at hlater
      exact .inr ⟨hlater.2, earlier, last, rest, rfl, hgives, hlater.1⟩
    · exact .inl hgives
  · rintro (hgives | ⟨hremoves, earlier, last, later, rfl, hgives, hlater⟩)
    · exact ⟨calls, call, [], rfl, hgives, List.forall_mem_nil _⟩
    · refine ⟨earlier, last, later ++ [call], by simp, hgives, ?_⟩
      rw [List.forall_mem_append, List.forall_mem_singleton]
      exact ⟨hlater, hremoves⟩

end Snoc

namespace IniFile

/-- The sections and entries are those that the calls have made and written. -/
structure Follows (calls : List IniCall) (ini : IniFile) : Prop where
  sections : ∀ name, name ∈ ini.mInifile ↔ SectionMade calls name
  entries : ∀ name key, ini.HasEntry name key ↔ Written calls name key

theorem follows_empty : Follows [] empty := by
  refine ⟨fun name ↦ iff_of_false Std.ExtTreeMap.not_mem_empty ?_,
    fun name key ↦ iff_of_false (fun h ↦ Std.ExtTreeMap.not_mem_empty h.mem) ?_⟩
  · rintro ⟨front, call, back, hcalls, -⟩
    simp at hcalls
  · rintro ⟨earlier, call, later, hcalls, -⟩
    simp at hcalls

variable {calls : List IniCall} {ini : IniFile} {szSection szKey : CStr}

/-- A setter of an entry. -/
theorem Follows.assign (h : Follows calls ini) {call : IniCall} (value : Str)
    (hmakes : ∀ name, call.MakesSection name ↔ lowercase szSection.chars = name)
    (hgives : ∀ name key, call.Gives calls name key ↔
      lowercase szSection.chars = name ∧ szKey.chars = key)
    (hload : ¬call.IsLoad) (hremoves : ∀ name key, ¬call.Removes name key) :
    Follows (calls ++ [call]) (ini.assign szSection szKey value) := by
  refine ⟨fun name ↦ ?_, fun name key ↦ ?_⟩
  · rw [sectionMade_snoc, hmakes, ← h.sections, and_iff_right hload]
    exact mem_insert_iff _
  · rw [written_snoc, hgives, ← h.entries, and_iff_right (hremoves name key)]
    exact hasEntry_assign value

/-- A call that changes nothing. -/
theorem Follows.same (h : Follows calls ini) {call : IniCall}
    (hmakes : ∀ name, ¬call.MakesSection name) (hgives : ∀ name key, ¬call.Gives calls name key)
    (hload : ¬call.IsLoad) (hremoves : ∀ name key, ¬call.Removes name key) :
    Follows (calls ++ [call]) ini := by
  refine ⟨fun name ↦ ?_, fun name key ↦ ?_⟩
  · rw [sectionMade_same (hmakes name) hload, h.sections]
  · rw [written_snoc, or_iff_right (hgives name key), and_iff_right (hremoves name key), h.entries]

/-- Every call keeps to what is written. -/
theorem Follows.next {call : IniCall} {after : IniFile} (h : Follows calls ini)
    (hnext : next ini call = some after) : Follows (calls ++ [call]) after := by
  cases call with
  | load fuel file =>
    obtain ⟨⟨loaded, opened⟩, hload, rfl⟩ := Option.map_eq_some_iff.mp hnext
    have hkeeps : (∀ name, name ∈ loaded.mInifile ↔ (IniCall.load fuel file).MakesSection name) ∧
        ∀ name key, loaded.HasEntry name key ↔ (IniCall.load fuel file).Gives calls name key := by
      cases file with
      | none =>
        obtain rfl : empty = loaded := congrArg Prod.fst (Option.some.inj hload)
        exact ⟨fun name ↦ iff_of_false Std.ExtTreeMap.not_mem_empty id,
          fun name key ↦ iff_of_false (fun h ↦ Std.ExtTreeMap.not_mem_empty h.mem) id⟩
      | some content =>
        exact ⟨(keeps_loadIniFile hload).sections, (keeps_loadIniFile hload).entries⟩
    refine ⟨fun name ↦ ?_, fun name key ↦ ?_⟩
    · rw [sectionMade_snoc, hkeeps.1]
      exact (or_iff_left fun hold ↦ hold.1 trivial).symm
    · rw [written_snoc, hkeeps.2]
      exact (or_iff_left fun hold ↦ hold.1 trivial).symm
  | setString szSection szKey value =>
    obtain rfl := Option.some.inj hnext
    obtain _ | szSection := szSection
    · exact h.same (fun _ ↦ id) (fun _ _ ↦ id) id fun _ _ ↦ id
    obtain _ | szKey := szKey
    · exact h.same (fun _ ↦ id) (fun _ _ ↦ id) id fun _ _ ↦ id
    obtain _ | value := value
    · exact h.same (fun _ ↦ id) (fun _ _ ↦ id) id fun _ _ ↦ id
    rw [setString]
    split_ifs with hempty
    · rw [List.length_eq_zero_iff] at hempty
      exact h.same (fun _ hmakes ↦ hmakes.1 hempty) (fun _ _ hgives ↦ hgives.1 hempty) id
        fun _ _ ↦ id
    · rw [List.length_eq_zero_iff] at hempty
      exact h.assign value.chars (fun _ ↦ and_iff_right hempty) (fun _ _ ↦ and_iff_right hempty) id
        fun _ _ ↦ id
  | setInteger szSection szKey value =>
    obtain rfl := Option.some.inj hnext
    obtain _ | szSection := szSection
    · exact h.same (fun _ ↦ id) (fun _ _ ↦ id) id fun _ _ ↦ id
    obtain _ | szKey := szKey
    · exact h.same (fun _ ↦ id) (fun _ _ ↦ id) id fun _ _ ↦ id
    exact h.assign _ (fun _ ↦ Iff.rfl) (fun _ _ ↦ Iff.rfl) id fun _ _ ↦ id
  | setBool szSection szKey bValue =>
    obtain rfl := Option.some.inj hnext
    obtain _ | szSection := szSection
    · exact h.same (fun _ ↦ id) (fun _ _ ↦ id) id fun _ _ ↦ id
    obtain _ | szKey := szKey
    · exact h.same (fun _ ↦ id) (fun _ _ ↦ id) id fun _ _ ↦ id
    exact h.assign _ (fun _ ↦ Iff.rfl) (fun _ _ ↦ Iff.rfl) id fun _ _ ↦ id
  | addAKeyValue strSection strP strV =>
    obtain rfl := Option.some.inj hnext
    refine ⟨fun name ↦ ?_, fun name key ↦ ?_⟩
    · rw [sectionMade_same id id, ← h.sections, mem_addAKeyValue_iff]
    · have hremoves : ¬(IniCall.addAKeyValue strSection strP strV).Removes name key := id
      rw [written_snoc, and_iff_right hremoves, ← h.entries, hasEntry_addAKeyValue]
      refine or_congr_left (and_congr_left ?_)
      rintro ⟨rfl, -⟩
      exact h.sections strSection
  | deleteAKeyValue strSection strP =>
    obtain rfl := Option.some.inj hnext
    refine ⟨fun name ↦ ?_, fun name key ↦ ?_⟩
    · rw [sectionMade_same id id, ← h.sections, mem_deleteAKeyValue_iff]
    · have hgives : ¬(IniCall.deleteAKeyValue strSection strP).Gives calls name key := id
      rw [written_snoc, or_iff_right hgives, ← h.entries, hasEntry_deleteAKeyValue]
      rfl

theorem follows_run (hrun : Run (stepOf next) empty calls ini) : Follows calls ini := by
  induction hrun with
  | refl => exact follows_empty
  | tail _ hnext ih => exact ih.next hnext

/-- After every run, `is_section_key_exist` agrees with `GetString` exactly if the key has no
capital letters, or if the calls have written the key into the section both as it is given and in
lower case, or neither. -/
theorem exist_agrees_iff : ∀ (calls : List IniCall) (ini : IniFile),
    Run (stepOf next) empty calls ini → ∀ szSection szKey : CStr,
      ((ini.isSectionKeyExist (some szSection) (some szKey) ↔ ini.TakesEntry szSection szKey) ↔
        lowercase szKey.chars = szKey.chars ∨
          (Written calls (lowercase szSection.chars) szKey.chars ↔
            Written calls (lowercase szSection.chars) (lowercase szKey.chars))) := by
  intro calls ini hrun szSection szKey
  have hfollows := follows_run hrun
  rw [isSectionKeyExist_iff, takesEntry_iff, hfollows.entries, hfollows.entries, iff_or_self]
  intro hlower
  rw [hlower]

/-- After a load and a `SetString`, the section `a` has the keys `k` and `K`. -/
theorem exist_agrees_iff_both :
    ∃ ini : IniFile, Run (stepOf next) empty
      [.load 3 (some (chars "[a]\nk=a\n")), .setString (some nameA) (some keyK) (some nameA)] ini ∧
      ini.isSectionKeyExist (some nameA) (some keyK) ∧
      (ini.isSectionKeyExist (some nameA) (some keyK) ↔ ini.TakesEntry nameA keyK) := by
  refine ⟨_, Run.of_eval rfl, by decide +kernel, ?_⟩
  refine (exist_agrees_iff _ _ (Run.of_eval rfl) nameA keyK).mpr (.inr (iff_of_true ?_ ?_))
  · exact ⟨[_], _, [], rfl, ⟨by decide, rfl, rfl⟩, List.forall_mem_nil _⟩
  · refine ⟨[], _, [_], rfl, ?_, by simp [IniCall.Removes]⟩
    refine ⟨[chars "[a]"], chars "k=a", [[]], by decide +kernel, ?_, ?_⟩
    · refine ⟨[], chars "[a]", [], rfl, ⟨by decide, [], chars "a", [], rfl, ?_⟩,
        List.forall_mem_nil _⟩
      exact ⟨List.forall_mem_nil _, forall_mark (by decide), by decide, by decide⟩
    · exact ⟨chars "k", chars "a", by decide, by decide, forall_mark (by decide), by decide,
        by decide⟩

/-- After a load that finds the key `k`, the key `K` does not exist and `GetString` finds it. -/
theorem exist_misses_capital_key :
    ∃ ini : IniFile, Run (stepOf next) empty [.load 3 (some (chars "[a]\nk=a\n"))] ini ∧
      ini.isSectionKeyExist (some nameA) (some keyK) = false ∧
      (∀ szDefault, ini.getString nameA keyK szDefault = chars "a") ∧
      ¬(ini.isSectionKeyExist (some nameA) (some keyK) ↔ ini.TakesEntry nameA keyK) := by
  obtain ⟨ini, hrun, hmissed, hstored⟩ : ∃ ini : IniFile,
      Run (stepOf next) empty [.load 3 (some (chars "[a]\nk=a\n"))] ini ∧
        ini.isSectionKeyExist (some nameA) (some keyK) = false ∧
        ini.stored nameA keyK = some nameA :=
    ⟨_, Run.of_eval rfl, by decide +kernel, by decide +kernel⟩
  have hfound : ∀ szDefault, ini.getString nameA keyK szDefault = chars "a" := by
    intro szDefault
    rw [getString_eq, hstored]
    rfl
  refine ⟨ini, hrun, hmissed, hfound, fun hagree ↦ ?_⟩
  have hexists := hagree.mpr ⟨_, hfound⟩
  rw [hmissed] at hexists
  cases hexists

end IniFile

end Exc.Ini
