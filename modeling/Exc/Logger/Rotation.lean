import Exc.Logger.VolumeOrder
import Mathlib.Data.Finset.Card

/-!
# Rotation

`RollingVolumes` moves the log to `base.1` and each volume `base.k` to `base.(k+1)`, from the oldest
volume on. What it should do is `KeepsVolumes`: every volume is kept, up to the oldest one, and no
other file is touched.

The files that are moved are those in whose names `getIndex` reads a number (`Moves`), and the order
is that of `LogFilenameCompare`. For the log and its volumes the two read the same number
(`fileIndex_volume`), so that no file is moved again after it has arrived (`inOrder_moves`). But
`getIndex` reads numbers in other names too: it takes `base.bak` for `base` and `base.1.gz` for
`base.1`. `rollingVolumes_keeps_iff` says for which names in the directory the rotation does what it
should.
-/

set_option autoImplicit false
set_option relaxedAutoImplicit false

namespace Exc.Logger

open Lib

/-! ### Names of volumes -/

/-- The number of a name that begins with the name of the log: what is behind one more
character. -/
def nameIndex (strFileName name : Str) : Int32 :=
  if strFileName <+: name then atoi (name.drop (strFileName.length + 1)) else -1

/-- A name of the form `base.<decimal number>`. -/
def isNumbered (strFileName name : Str) : Bool :=
  let digits := name.drop (strFileName.length + 1)
  name = strFileName ++ dot :: digits && digits ≠ [] &&
    digits.all fun byte ↦ '0'.toUInt8 ≤ byte && byte ≤ '9'.toUInt8

/-- The literal and what is behind it in memory is not in a name, since the literal ends with a null
character. -/
theorem find_dotPattern {beyond : ℕ → UInt8} {name : Str} {count pos found : ℕ}
    (hname : 0 ∉ name) (hfound : find name (dotPattern beyond count) pos = some found) :
    pos ≤ found ∧ count ≤ 1 := by
  rw [find] at hfound
  split_ifs at hfound
  obtain ⟨offset, hoffset, rfl⟩ := Option.map_eq_some_iff.mp hfound
  refine ⟨Nat.le_add_right _ _, ?_⟩
  obtain ⟨hbound, hbegins, -⟩ := List.findIdx?_eq_some_iff_getElem.mp hoffset
  rw [List.getElem_tails, List.isPrefixOf_iff_prefix] at hbegins
  match count with
  | 0 => omega
  | 1 => omega
  | count + 2 =>
    have hnull : 0 ∈ dotPattern beyond (count + 2) := by simp [dotPattern]
    exact absurd (List.mem_of_mem_drop (List.mem_of_mem_drop (hbegins.mem hnull))) hname

/-- `getIndex` reads the number of a name. -/
theorem getIndex_eq (beyond : ℕ → UInt8) {p n : Str} (hp : p ≠ []) (hn : 0 ∉ n) :
    getIndex beyond p n = nameIndex p n := by
  have hstart : p = substr n 0 (some p.length) ↔ p <+: n := List.prefix_iff_eq_take.symm
  rw [getIndex, nameIndex]
  by_cases hbegins : p <+: n
  · have hidx : substr n p.length (find n (dotPattern beyond (n.length - p.length)) p.length) =
        n.drop p.length := by
      cases hfind : find n (dotPattern beyond (n.length - p.length)) p.length with
      | none => rfl
      | some found =>
        obtain ⟨hpos, hcount⟩ := find_dotPattern hn hfind
        have hlength := List.length_pos_of_ne_nil hp
        refine List.take_of_length_le ?_
        rw [List.length_drop]
        omega
    have hrest : substr (n.drop p.length) 1 none = n.drop (p.length + 1) := List.drop_drop
    have hclean : 0 ∉ n.drop (p.length + 1) := fun hmem ↦ hn (List.mem_of_mem_drop hmem)
    rw [if_pos (hstart.mpr hbegins), if_pos hbegins, hidx]
    dsimp only
    rw [hrest, cstring_eq_self hclean]
    split_ifs with hne
    · rfl
    · rw [← hrest, not_not.mp hne]
      rfl
  · rw [if_neg (mt hstart.mp hbegins), if_neg hbegins]

/-- The number of a name is that of its last token. -/
theorem fileIndex_append (front : Str) {token : Str} (hne : token ≠ []) (hgz : token ≠ chars "gz")
    (hdot : dot ∉ token) (hnull : 0 ∉ token) (hblank : ∀ char ∈ token, ¬isBlank char) :
    fileIndex (front ++ dot :: token) = .ok (atoi token) := by
  have htokens : tokens dot (front ++ dot :: token) = tokens dot front ++ [token] := by
    rw [tokens_append_cons, tokens_eq_singleton hne hdot]
  have htoken : numberToken (front ++ dot :: token) = some token := by
    rw [numberToken, htokens, List.reverse_append]
    exact if_neg hgz
  rw [fileIndex_eq, if_neg (by rw [htokens]; simp), htoken]
  dsimp only
  rw [utilStrtrim_eq_self hblank, Except.map, cstring_eq_self hnull]

theorem drop_numbered (strFileName digits : Str) :
    (strFileName ++ dot :: digits).drop (strFileName.length + 1) = digits := by
  rw [List.append_cons, List.drop_append_of_le_length (by simp)]
  simp

theorem isNumbered_iff {strFileName name : Str} :
    isNumbered strFileName name ↔
      ∃ digits, digits ≠ [] ∧ (∀ byte ∈ digits, 48 ≤ byte.toNat ∧ byte.toNat ≤ 57) ∧
        name = strFileName ++ dot :: digits := by
  have hdigit : ∀ byte : UInt8, '0'.toUInt8 ≤ byte ∧ byte ≤ '9'.toUInt8 ↔
      48 ≤ byte.toNat ∧ byte.toNat ≤ 57 := by
    intro byte
    rw [UInt8.le_iff_toNat_le, UInt8.le_iff_toNat_le]
    rfl
  simp only [isNumbered, Bool.and_eq_true, decide_eq_true_eq, List.all_eq_true, hdigit]
  constructor
  · rintro ⟨⟨hname, hne⟩, hdigits⟩
    exact ⟨_, hne, hdigits, hname⟩
  · rintro ⟨digits, hne, hdigits, rfl⟩
    rw [drop_numbered]
    exact ⟨⟨rfl, hne⟩, hdigits⟩

/-- The number of a volume is the same for `getIndex` and for `LogFilenameCompare`. -/
theorem fileIndex_numbered {strFileName name : Str} (hnumbered : isNumbered strFileName name) :
    fileIndex name = .ok (nameIndex strFileName name) := by
  obtain ⟨digits, hne, hdigits, rfl⟩ := isNumbered_iff.mp hnumbered
  have hother : ∀ byte : UInt8, byte.toNat < 48 ∨ 57 < byte.toNat → byte ∉ digits := by
    intro byte hbyte hmem
    have hdigit := hdigits byte hmem
    omega
  have hgz : digits ≠ chars "gz" := by
    rintro rfl
    exact hother 'g'.toUInt8 (by decide) (by decide)
  have hblank : ∀ char ∈ digits, ¬isBlank char := by
    intro char hchar hblank
    rw [isBlank, Bool.or_eq_true, decide_eq_true_eq, decide_eq_true_eq] at hblank
    rcases hblank with rfl | rfl
    · exact hother ' '.toUInt8 (by decide) hchar
    · exact hother '\t'.toUInt8 (by decide) hchar
  rw [fileIndex_append strFileName hne hgz (hother dot (by decide)) (hother 0 (by decide)) hblank,
    nameIndex, if_pos (List.prefix_append _ _), drop_numbered]

theorem nameIndex_self (strFileName : Str) : nameIndex strFileName strFileName = 0 := by
  rw [nameIndex, if_pos List.prefix_rfl, List.drop_of_length_le (Nat.le_succ _)]
  rfl

theorem fileIndex_getFileName (strTag : Str) : fileIndex (getFileName strTag) = .ok 0 := by
  have hall : (chars "log").all (!isBlank ·) := by decide
  have hblank : ∀ char ∈ chars "log", ¬isBlank char := by
    intro char hchar
    simpa using List.all_eq_true.mp hall char hchar
  have hlog : fileIndex (strTag ++ dot :: chars "log") = .ok (atoi (chars "log")) :=
    fileIndex_append strTag (by decide) (by decide) (by decide) (by decide) hblank
  exact hlog

theorem volumeName_eq (strFileName : Str) (index : Int32) :
    volumeName strFileName index = strFileName ++ dot :: formatInt index := by
  rw [volumeName, List.append_assoc]
  rfl

theorem isNumbered_volumeName (strFileName : Str) {index : Int32} (hindex : 0 ≤ index.toInt) :
    isNumbered strFileName (volumeName strFileName index) := by
  have hformat : formatInt index = decimal index.toInt.natAbs := if_neg (not_lt.mpr hindex)
  rw [isNumbered_iff, volumeName_eq, hformat]
  refine ⟨_, ?_, fun byte hbyte ↦ toNat_mem_decimal hbyte, rfl⟩
  obtain ⟨char, rest, -, hcons⟩ := decimal_eq_cons index.toInt.natAbs
  rw [hcons]
  exact List.cons_ne_nil _ _

theorem nameIndex_volumeName (strFileName : Str) (index : Int32) :
    nameIndex strFileName (volumeName strFileName index) = index := by
  rw [volumeName_eq, nameIndex, if_pos (List.prefix_append _ _), drop_numbered, atoi_formatInt]

/-! ### The moves of a rotation -/

namespace LogAppenderFile

/-- The oldest volume is deleted first. -/
def Deletes (appender : LogAppenderFile) : Prop :=
  appender.nIndex > 0 ∧ appender.nIndex ≥ appender.nRollVolumes - 1

instance (appender : LogAppenderFile) : Decidable appender.Deletes :=
  inferInstanceAs (Decidable (_ ∧ _))

/-- The name of the oldest volume, `base.(N-1)`. -/
def oldest (appender : LogAppenderFile) : Str :=
  volumeName appender.strFileName (appender.nRollVolumes - 1)

/-- The files that are renamed: a number from 0 to N-2 is read in their names. -/
def Moves (appender : LogAppenderFile) (name : Str) : Prop :=
  nameIndex appender.strFileName name < appender.nRollVolumes - 1 ∧
    nameIndex appender.strFileName name ≥ 0

instance (appender : LogAppenderFile) (name : Str) : Decidable (appender.Moves name) :=
  inferInstanceAs (Decidable (_ ∧ _))

/-- The name a file gets. -/
def target (appender : LogAppenderFile) (name : Str) : Str :=
  volumeName appender.strFileName (nameIndex appender.strFileName name + 1)

/-- The moves that renaming the files in an order makes. -/
def moves (appender : LogAppenderFile) (order : List Str) : List (Str × Str) :=
  (order.filter appender.Moves).map fun name ↦ (name, appender.target name)

variable {appender : LogAppenderFile} {dir : Directory} {order : List Str} {name : Str}

theorem mem_moves {move : Str × Str} :
    move ∈ appender.moves order ↔
      ∃ name ∈ order, appender.Moves name ∧ (name, appender.target name) = move := by
  simp only [moves, List.mem_map, List.mem_filter, decide_eq_true_eq, and_assoc]

theorem renameVolume_eq (beyond : ℕ → UInt8) (dir : Directory) (hname : 0 ∉ name) :
    appender.renameVolume beyond dir name =
      if appender.Moves name then rename dir name (appender.target name) else dir := by
  rw [renameVolume, getIndex_eq beyond appender.isFileName.nonempty hname]
  rfl

theorem foldl_renameVolume (beyond : ℕ → UInt8) (dir : Directory)
    (horder : ∀ name ∈ order, 0 ∉ name) :
    order.foldl (appender.renameVolume beyond) dir = renames (appender.moves order) dir := by
  induction order generalizing dir with
  | nil => rfl
  | cons name rest ih =>
    obtain ⟨hname, hrest⟩ := List.forall_mem_cons.mp horder
    rw [List.foldl_cons, ih _ hrest, renameVolume_eq beyond dir hname]
    by_cases hmoves : appender.Moves name
    · rw [if_pos hmoves, moves, moves, List.filter_cons_of_pos (by simpa using hmoves)]
      rfl
    · rw [if_neg hmoves, moves, moves, List.filter_cons_of_neg (by simpa using hmoves)]

/-! ### The numbers of a rotation -/

section Numbers

variable (hroll : 2 ≤ appender.nRollVolumes)

include hroll

theorem toInt_nRollVolumes_sub {amount : Int32} (hpos : 0 ≤ amount.toInt)
    (hle : amount.toInt ≤ 2) :
    (appender.nRollVolumes - amount).toInt = appender.nRollVolumes.toInt - amount.toInt := by
  have hlower : 2 ≤ appender.nRollVolumes.toInt := Int32.le_iff_toInt_le.mp hroll
  have hupper := appender.nRollVolumes.toInt_lt
  rw [Int32.toInt_sub, Int.bmod_eq_of_le] <;> omega

theorem toInt_nRollVolumes_sub_one :
    (appender.nRollVolumes - 1).toInt = appender.nRollVolumes.toInt - 1 :=
  toInt_nRollVolumes_sub hroll (by decide) (by decide)

theorem moves_iff :
    appender.Moves name ↔
      0 ≤ (nameIndex appender.strFileName name).toInt ∧
        (nameIndex appender.strFileName name).toInt < appender.nRollVolumes.toInt - 1 := by
  have hzero : (0 : Int32).toInt = 0 := rfl
  rw [Moves, ge_iff_le, Int32.lt_iff_toInt_lt, Int32.le_iff_toInt_le, hzero,
    toInt_nRollVolumes_sub_one hroll, and_comm]

theorem toInt_nameIndex_add_one (hmoves : appender.Moves name) :
    (nameIndex appender.strFileName name + 1).toInt =
      (nameIndex appender.strFileName name).toInt + 1 := by
  obtain ⟨hlower, hupper⟩ := (moves_iff hroll).mp hmoves
  have hbound := appender.nRollVolumes.toInt_lt
  have hone : (1 : Int32).toInt = 1 := rfl
  rw [Int32.toInt_add, hone, Int.bmod_eq_of_le] <;> omega

/-- The name a file gets has the next number. -/
theorem isNumbered_target (hmoves : appender.Moves name) :
    isNumbered appender.strFileName (appender.target name) := by
  refine isNumbered_volumeName _ ?_
  have hlower := ((moves_iff hroll).mp hmoves).1
  rw [toInt_nameIndex_add_one hroll hmoves]
  omega

theorem toInt_nameIndex_target (hmoves : appender.Moves name) :
    (nameIndex appender.strFileName (appender.target name)).toInt =
      (nameIndex appender.strFileName name).toInt + 1 := by
  rw [target, nameIndex_volumeName, toInt_nameIndex_add_one hroll hmoves]

theorem toInt_nameIndex_oldest :
    (nameIndex appender.strFileName appender.oldest).toInt =
      appender.nRollVolumes.toInt - 1 := by
  rw [oldest, nameIndex_volumeName, toInt_nRollVolumes_sub_one hroll]

theorem isNumbered_oldest : isNumbered appender.strFileName appender.oldest := by
  have hlower : 2 ≤ appender.nRollVolumes.toInt := Int32.le_iff_toInt_le.mp hroll
  refine isNumbered_volumeName _ ?_
  rw [toInt_nRollVolumes_sub_one hroll]
  omega

theorem ne_oldest_of_moves (hmoves : appender.Moves name) : name ≠ appender.oldest := by
  rintro rfl
  have hupper := ((moves_iff hroll).mp hmoves).2
  rw [toInt_nameIndex_oldest hroll] at hupper
  exact lt_irrefl _ hupper

theorem moves_strFileName : appender.Moves appender.strFileName := by
  have hlower : 2 ≤ appender.nRollVolumes.toInt := Int32.le_iff_toInt_le.mp hroll
  have hzero : (0 : Int32).toInt = 0 := rfl
  rw [moves_iff hroll, nameIndex_self]
  omega

theorem moves_volumeName {index : Int32} (hfirst : 1 ≤ index)
    (hlast : index ≤ appender.nRollVolumes - 2) :
    appender.Moves (volumeName appender.strFileName index) := by
  have hone : (1 : Int32).toInt ≤ index.toInt := Int32.le_iff_toInt_le.mp hfirst
  have hbound : index.toInt ≤ (appender.nRollVolumes - 2).toInt := Int32.le_iff_toInt_le.mp hlast
  rw [toInt_nRollVolumes_sub hroll (by decide) (by decide)] at hbound
  have hvalueOne : (1 : Int32).toInt = 1 := rfl
  have hvalueTwo : (2 : Int32).toInt = 2 := rfl
  rw [moves_iff hroll, nameIndex_volumeName]
  omega

/-- A name that is replaced without being moved is that of the oldest volume. -/
theorem eq_oldest_of_target {other : Str} (hmoves : appender.Moves other)
    (htarget : appender.target other = name) (hkept : ¬appender.Moves name) :
    name = appender.oldest := by
  subst htarget
  have hother := (moves_iff hroll).mp hmoves
  rw [moves_iff hroll, toInt_nameIndex_target hroll hmoves] at hkept
  have hindex : nameIndex appender.strFileName other + 1 = appender.nRollVolumes - 1 := by
    rw [← Int32.toInt_inj, toInt_nameIndex_add_one hroll hmoves, toInt_nRollVolumes_sub_one hroll]
    omega
  rw [target, oldest, hindex]

/-- Files with different numbers get different names. -/
theorem nameIndex_eq_of_target_eq {first second : Str} (hfirst : appender.Moves first)
    (hsecond : appender.Moves second) (htarget : appender.target first = appender.target second) :
    nameIndex appender.strFileName first = nameIndex appender.strFileName second := by
  have hindex := toInt_nameIndex_target hroll hfirst
  rw [htarget, toInt_nameIndex_target hroll hsecond] at hindex
  rw [← Int32.toInt_inj]
  omega

end Numbers

/-! ### The order of the moves -/

/-- The names in a directory, in an order that sorting them backwards can leave them in. -/
structure Listed (dir : Directory) (order : List Str) : Prop where
  perm : order.Perm dir.keys
  sorted : order.Pairwise fun first second ↦ logFilenameCompare first second = .ok false

theorem Listed.mem_iff (hlisted : Listed dir order) : name ∈ order ↔ name ∈ dir := by
  rw [hlisted.perm.mem_iff, Std.ExtTreeMap.mem_keys]

theorem Listed.mem_of_mem_moves (hlisted : Listed dir order) :
    ∀ move ∈ appender.moves order, move.1 ∈ dir := by
  intro move hmove
  obtain ⟨source, hsource, -, rfl⟩ := mem_moves.mp hmove
  exact hlisted.mem_iff.mp hsource

theorem nodup_keys (dir : Directory) : dir.keys.Nodup := by
  refine Std.ExtTreeMap.distinct_keys.imp ?_
  rintro first second hcompare rfl
  exact hcompare Std.ReflCmp.compare_self

variable {sort : (Str → Str → Except NameFault Bool) → List Str → Except NameFault (List Str)}

/-- Names of which any two can be compared are sorted. -/
theorem exists_listed (hsort : IsSort sort) (hnames : ∀ name ∈ dir, name ≠ [])
    (hreadable : ∀ name ∈ dir, ∀ other ∈ dir, name ≠ other → readable name) :
    ∃ order, sort logFilenameCompare dir.keys.reverse = .ok order.reverse ∧ Listed dir order := by
  have hkeys : ∀ name ∈ dir.keys.reverse, name ∈ dir := fun name hname ↦
    Std.ExtTreeMap.mem_keys.mp (List.mem_reverse.mp hname)
  by_cases hlength : dir.keys.length ≤ 1
  · refine ⟨dir.keys, hsort.short _ _ (by rwa [List.length_reverse]), List.Perm.refl _, ?_⟩
    match dir.keys, hlength with
    | [], _ => exact List.Pairwise.nil
    | [name], _ => exact List.pairwise_singleton _ _
  · have hall : ∀ name ∈ dir, readable name := by
      intro name hname
      have hcard : 1 < dir.keys.toFinset.card := by
        rw [List.toFinset_card_of_nodup (nodup_keys dir)]
        exact not_le.mp hlength
      obtain ⟨other, hother, hne⟩ := Finset.exists_mem_ne hcard name
      exact hreadable name hname other
        (Std.ExtTreeMap.mem_keys.mp (List.mem_toFinset.mp hother)) hne.symm
    obtain ⟨sorted, hsorted, hperm, hpairwise⟩ := hsort.sorts logFilenameCompare _
      (safeOn_of_readable (fun name hname ↦ hnames name (hkeys name hname))
        fun name hname ↦ hall name (hkeys name hname))
    refine ⟨sorted.reverse, by rw [hsorted, List.reverse_reverse], ?_, ?_⟩
    · exact sorted.reverse_perm.trans (hperm.trans dir.keys.reverse_perm)
    · rwa [List.pairwise_reverse]

/-- A name that cannot be compared makes the sort fault, if there is another one. -/
theorem exists_fault (hsort : IsSort sort) (hnames : ∀ name ∈ dir, name ≠ []) {other : Str}
    (hname : name ∈ dir) (hother : other ∈ dir) (hne : name ≠ other) (hreadable : ¬readable name) :
    ∃ fault, sort logFilenameCompare dir.keys.reverse = .error fault := by
  have hmember : ∀ name, name ∈ dir.keys.reverse ↔ name ∈ dir := fun name ↦
    List.mem_reverse.trans Std.ExtTreeMap.mem_keys
  have htwo : 2 ≤ dir.keys.reverse.length := by
    rw [List.length_reverse, ← List.toFinset_card_of_nodup (nodup_keys dir)]
    refine Finset.one_lt_card.mpr ⟨name, ?_, other, ?_, hne⟩
    · exact List.mem_toFinset.mpr (Std.ExtTreeMap.mem_keys.mpr hname)
    · exact List.mem_toFinset.mpr (Std.ExtTreeMap.mem_keys.mpr hother)
  exact hsort.faults _ _ name ((hmember name).mpr hname) htwo
    (faultsAgainst_of_not_readable (hnames name hname)
      (fun other hother ↦ hnames other ((hmember other).mp hother)) hreadable)

/-- A volume has the same number for the comparator as for the renaming. -/
theorem fileIndex_volume (hvolume : name = appender.strFileName ∨
    isNumbered appender.strFileName name) :
    fileIndex name = .ok (nameIndex appender.strFileName name) := by
  rcases hvolume with rfl | hnumbered
  · obtain ⟨strTag, htag⟩ := appender.named
    rw [nameIndex_self, htag, fileIndex_getFileName]
  · exact fileIndex_numbered hnumbered

/-- If all files that are moved are volumes, none is moved again after it has arrived: its new
number is greater than that of the files behind it. -/
theorem inOrder_moves (hroll : 2 ≤ appender.nRollVolumes) (hlisted : Listed dir order)
    (hnames : ∀ name ∈ dir, name ≠ [])
    (hvolumes : ∀ name ∈ dir, appender.Moves name →
      name = appender.strFileName ∨ isNumbered appender.strFileName name) :
    InOrder (appender.moves order) := by
  have hmoved : ∀ name ∈ order.filter appender.Moves, name ∈ dir ∧ appender.Moves name := by
    intro name hname
    rw [List.mem_filter, decide_eq_true_eq, hlisted.mem_iff] at hname
    exact hname
  refine ⟨?_, ?_, ?_⟩
  · rw [moves, List.pairwise_map]
    refine (hlisted.sorted.filter _).imp_of_mem ?_
    intro first second hfirst hsecond hcompare htarget
    obtain ⟨hfirstDir, hfirstMoves⟩ := hmoved first hfirst
    obtain ⟨hsecondDir, hsecondMoves⟩ := hmoved second hsecond
    dsimp only at htarget
    have hnext := toInt_nameIndex_target hroll hfirstMoves
    rw [htarget] at hnext
    rw [logFilenameCompare_eq (hnames first hfirstDir) (hnames second hsecondDir),
      fileIndex_volume (hvolumes first hfirstDir hfirstMoves),
      fileIndex_volume (hvolumes second hsecondDir hsecondMoves)] at hcompare
    have hnotless := decide_eq_false_iff_not.mp (Except.ok.inj hcompare)
    omega
  · rw [moves, List.map_map]
    have hid : (Prod.fst ∘ fun name ↦ (name, appender.target name)) = id := rfl
    rw [hid, List.map_id]
    exact (hlisted.perm.nodup_iff.mpr (nodup_keys dir)).filter _
  · intro move hmove
    obtain ⟨name, -, hmoves, rfl⟩ := mem_moves.mp hmove
    intro hsame
    have hnext := toInt_nameIndex_target hroll hmoves
    dsimp only at hsame
    rw [← hsame] at hnext
    omega

/-! ### A whole rotation -/

/-- The files that are left when the oldest volume has been deleted. -/
def remaining (appender : LogAppenderFile) (dir : Directory) : Directory :=
  if appender.Deletes then dir.erase appender.oldest else dir

theorem deleteOldest_eq (appender : LogAppenderFile) (dir : Directory) :
    ∃ nIndex, appender.deleteOldest dir =
      ({ appender with nIndex := nIndex }, appender.remaining dir) := by
  by_cases hdeletes : appender.Deletes
  · refine ⟨appender.nRollVolumes - 1, ?_⟩
    rw [remaining, if_pos hdeletes]
    exact if_pos hdeletes
  · refine ⟨appender.nIndex, ?_⟩
    rw [remaining, if_neg hdeletes]
    exact if_neg hdeletes

theorem mem_remaining :
    name ∈ appender.remaining dir ↔ name ∈ dir ∧ ¬(appender.Deletes ∧ name = appender.oldest) := by
  rw [remaining]
  split_ifs with hdeletes
  · rw [Std.ExtTreeMap.mem_erase, ne_eq, Std.LawfulEqCmp.compare_eq_iff_eq]
    constructor
    · exact fun ⟨hne, hmem⟩ ↦ ⟨hmem, fun hboth ↦ hne hboth.2.symm⟩
    · exact fun ⟨hmem, hkept⟩ ↦ ⟨fun heq ↦ hkept ⟨hdeletes, heq.symm⟩, hmem⟩
  · exact ⟨fun hmem ↦ ⟨hmem, fun hboth ↦ hdeletes hboth.1⟩, And.left⟩

theorem getElem?_remaining (hname : name ≠ appender.oldest) :
    (appender.remaining dir)[name]? = dir[name]? := by
  rw [remaining]
  split_ifs
  · rw [Std.ExtTreeMap.getElem?_erase,
      if_neg fun heq ↦ hname (Std.LawfulEqCmp.eq_of_compare heq).symm]
  · rfl

/-- Opening the log keeps all files and makes no other than the log. -/
theorem getElem?_openAppend_of_ne (hname : name ≠ appender.strFileName) :
    (appender.openAppend dir)[name]? = dir[name]? := by
  rw [openAppend]
  split_ifs
  · rfl
  · rw [getElem?_insert_of_ne _ hname.symm]

theorem getElem?_openAppend_of_some {contents : Str} (hcontents : dir[name]? = some contents) :
    (appender.openAppend dir)[name]? = some contents := by
  rw [openAppend]
  split_ifs with hmem
  · exact hcontents
  · have hne : appender.strFileName ≠ name := by
      rintro rfl
      exact hmem (mem_iff_exists_getElem?.mpr ⟨contents, hcontents⟩)
    rw [getElem?_insert_of_ne _ hne, hcontents]

theorem getElem?_of_openAppend {contents : Str}
    (hcontents : (appender.openAppend dir)[name]? = some contents) (hne : contents ≠ []) :
    dir[name]? = some contents := by
  rw [openAppend] at hcontents
  split_ifs at hcontents
  · exact hcontents
  · rw [getElem?_insert_eq] at hcontents
    split_ifs at hcontents
    · exact absurd (Option.some.inj hcontents).symm hne
    · exact hcontents

/-- A rotation sorts what remains and makes the moves. -/
theorem rollingVolumes_eq (hroll : 2 ≤ appender.nRollVolumes) (beyond : ℕ → UInt8)
    (dir : Directory) :
    ∃ nIndex, appender.rollingVolumes sort beyond dir =
      (sort logFilenameCompare (appender.remaining dir).keys.reverse).map fun sorted ↦
        ({ appender with nIndex := nIndex }, appender.openAppend
          (sorted.reverse.foldl (appender.renameVolume beyond) (appender.remaining dir))) := by
  have hmany : appender.nRollVolumes > 1 := by
    have hlower : (2 : Int32).toInt ≤ appender.nRollVolumes.toInt := Int32.le_iff_toInt_le.mp hroll
    have htwo : (2 : Int32).toInt = 2 := rfl
    have hone : (1 : Int32).toInt = 1 := rfl
    rw [gt_iff_lt, Int32.lt_iff_toInt_lt]
    omega
  obtain ⟨nIndex, hdelete⟩ := deleteOldest_eq appender dir
  refine ⟨nIndex + 1, ?_⟩
  rw [rollingVolumes, if_pos hmany, hdelete]
  dsimp only
  rw [renameVolumes]
  cases sort logFilenameCompare (appender.remaining dir).keys.reverse with
  | error fault => rfl
  | ok sorted => rfl

theorem exists_rollingVolumes (hsort : IsSort sort) (hroll : 2 ≤ appender.nRollVolumes)
    (beyond : ℕ → UInt8) (hnames : ∀ name ∈ dir, IsFileName name)
    (hreadable : ∀ name ∈ appender.remaining dir, ∀ other ∈ appender.remaining dir,
      name ≠ other → readable name) :
    ∃ final order, appender.rollingVolumes sort beyond dir = .ok final ∧
      Listed (appender.remaining dir) order ∧
      final.2 = appender.openAppend
        (renames (appender.moves order) (appender.remaining dir)) := by
  have hrest : ∀ name ∈ appender.remaining dir, IsFileName name := fun name hname ↦
    hnames name (mem_remaining.mp hname).1
  obtain ⟨order, hsorted, hlisted⟩ :=
    exists_listed hsort (fun name hname ↦ (hrest name hname).nonempty) hreadable
  obtain ⟨nIndex, hrun⟩ : ∃ nIndex, appender.rollingVolumes sort beyond dir = _ :=
    rollingVolumes_eq hroll beyond dir
  rw [hsorted] at hrun
  refine ⟨_, order, hrun, hlisted, ?_⟩
  dsimp only
  rw [List.reverse_reverse, foldl_renameVolume beyond _ fun name hname ↦
    (hrest name (hlisted.mem_iff.mp hname)).noNull]

/-- Rotation keeps every volume: what is in the files before and after it. -/
structure KeepsVolumes (appender : LogAppenderFile) (before after : Directory) : Prop where
  current : ∀ contents, before[appender.strFileName]? = some contents →
    after[volumeName appender.strFileName 1]? = some contents
  shifted : ∀ k : Int32, 1 ≤ k → k ≤ appender.nRollVolumes - 2 → ∀ contents,
    before[volumeName appender.strFileName k]? = some contents →
      after[volumeName appender.strFileName (k + 1)]? = some contents
  kept : ∀ name contents, before[name]? = some contents → name ≠ appender.oldest →
    ∃ place : Str, after[place]? = some contents
  untouched : ∀ name contents, before[name]? = some contents → name ≠ appender.strFileName →
    ¬isNumbered appender.strFileName name → after[name]? = some contents

/-- A file that is neither moved nor replaced stays. -/
theorem getElem?_of_not_moves (dir : Directory) (order : List Str) (hkept : ¬appender.Moves name)
    (htarget : ∀ other, appender.Moves other → appender.target other ≠ name) :
    (renames (appender.moves order) dir)[name]? = dir[name]? := by
  have hnot : ∀ move ∈ appender.moves order, move.2 ≠ name := by
    intro move hmove
    obtain ⟨other, -, hmoves, rfl⟩ := mem_moves.mp hmove
    exact htarget other hmoves
  have hsource : name ∉ (appender.moves order).map Prod.fst := by
    intro hmem
    obtain ⟨move, hmove, rfl⟩ := List.mem_map.mp hmem
    obtain ⟨other, -, hmoves, rfl⟩ := mem_moves.mp hmove
    exact hkept hmoves
  rw [getElem?_renames_of_not_target hnot, if_neg hsource]

section Kept

variable (hroll : 2 ≤ appender.nRollVolumes) (hnames : ∀ name ∈ dir, IsFileName name)
  (hlisted : Listed (appender.remaining dir) order)
  (hvolumes : ∀ name ∈ dir, appender.Moves name →
    name = appender.strFileName ∨ isNumbered appender.strFileName name)
  (hapart : ∀ first ∈ dir, ∀ second ∈ dir, appender.Moves first → appender.Moves second →
    nameIndex appender.strFileName first = nameIndex appender.strFileName second → first = second)

include hroll hnames hlisted hvolumes hapart

/-- Each file that is moved arrives, since no two files have the same number. -/
theorem getElem?_target {contents : Str} (hcontents : dir[name]? = some contents)
    (hmoves : appender.Moves name) :
    (appender.openAppend (renames (appender.moves order) (appender.remaining dir)))[
      appender.target name]? = some contents := by
  have hdir : ∀ name ∈ appender.remaining dir, name ∈ dir := fun name hname ↦
    (mem_remaining.mp hname).1
  have horder : InOrder (appender.moves order) := inOrder_moves hroll hlisted
    (fun name hname ↦ (hnames name (hdir name hname)).nonempty)
    fun name hname ↦ hvolumes name (hdir name hname)
  have hremains : (appender.remaining dir)[name]? = some contents := by
    rw [getElem?_remaining (ne_oldest_of_moves hroll hmoves), hcontents]
  have hname : name ∈ appender.remaining dir := mem_iff_exists_getElem?.mpr ⟨contents, hremains⟩
  have hmove : (name, appender.target name) ∈ appender.moves order :=
    mem_moves.mpr ⟨name, hlisted.mem_iff.mpr hname, hmoves, rfl⟩
  have halone : ∀ move ∈ appender.moves order, move.2 = appender.target name →
      move = (name, appender.target name) := by
    intro move hmember htarget
    obtain ⟨source, hsource, hsourceMoves, rfl⟩ := mem_moves.mp hmember
    have hsame := hapart source (hdir source (hlisted.mem_iff.mp hsource)) name (hdir name hname)
      hsourceMoves hmoves (nameIndex_eq_of_target_eq hroll hsourceMoves hmoves htarget)
    rw [hsame]
  refine getElem?_openAppend_of_some ?_
  rw [← hremains]
  exact getElem?_renames_target horder (hlisted.mem_of_mem_moves) hmove halone

theorem keepsVolumes_renames :
    appender.KeepsVolumes dir
      (appender.openAppend (renames (appender.moves order) (appender.remaining dir))) := by
  refine ⟨?_, ?_, ?_, ?_⟩
  · intro contents hcontents
    have htarget := getElem?_target hroll hnames hlisted hvolumes hapart hcontents
      (moves_strFileName hroll)
    rw [target, nameIndex_self] at htarget
    exact htarget
  · intro k hfirst hlast contents hcontents
    have htarget := getElem?_target hroll hnames hlisted hvolumes hapart hcontents
      (moves_volumeName hroll hfirst hlast)
    rw [target, nameIndex_volumeName] at htarget
    exact htarget
  · intro name contents hcontents holdest
    by_cases hmoves : appender.Moves name
    · exact ⟨_, getElem?_target hroll hnames hlisted hvolumes hapart hcontents hmoves⟩
    · refine ⟨name, getElem?_openAppend_of_some ?_⟩
      rw [getElem?_of_not_moves _ _ hmoves fun other hother htarget ↦
        holdest (eq_oldest_of_target hroll hother htarget hmoves), getElem?_remaining holdest,
        hcontents]
  · intro name contents hcontents hbase hnumbered
    have hname : name ∈ dir := mem_iff_exists_getElem?.mpr ⟨contents, hcontents⟩
    have hmoves : ¬appender.Moves name := fun hmoves ↦
      (hvolumes name hname hmoves).elim hbase hnumbered
    have hother : ∀ other, appender.Moves other → appender.target other ≠ name := by
      rintro other hother rfl
      exact hnumbered (isNumbered_target hroll hother)
    have holdest : name ≠ appender.oldest := by
      rintro rfl
      exact hnumbered (isNumbered_oldest hroll)
    rw [getElem?_openAppend_of_ne hbase, getElem?_of_not_moves _ _ hmoves hother,
      getElem?_remaining holdest, hcontents]

end Kept

/-! ### What a rotation that keeps every volume needs -/

/-- A file that is moved without being a volume is gone from its name. -/
theorem volumes_of_keepsVolumes (hroll : 2 ≤ appender.nRollVolumes)
    (hlisted : Listed (appender.remaining dir) order)
    (hkeeps : appender.KeepsVolumes dir
      (appender.openAppend (renames (appender.moves order) (appender.remaining dir))))
    (hname : name ∈ dir) (hmoves : appender.Moves name) :
    name = appender.strFileName ∨ isNumbered appender.strFileName name := by
  by_contra hother
  obtain ⟨hbase, hnumbered⟩ := not_or.mp hother
  obtain ⟨contents, hcontents⟩ := mem_iff_exists_getElem?.mp hname
  have hremains : name ∈ appender.remaining dir :=
    mem_remaining.mpr ⟨hname, fun hboth ↦ ne_oldest_of_moves hroll hmoves hboth.2⟩
  have htarget : ∀ move ∈ appender.moves order, move.2 ≠ name := by
    rintro move hmove rfl
    obtain ⟨source, -, hsource, rfl⟩ := mem_moves.mp hmove
    exact hnumbered (isNumbered_target hroll hsource)
  have hsource : name ∈ (appender.moves order).map Prod.fst :=
    List.mem_map.mpr ⟨(name, appender.target name),
      mem_moves.mpr ⟨name, hlisted.mem_iff.mpr hremains, hmoves, rfl⟩, rfl⟩
  have hafter := hkeeps.untouched name contents hcontents hbase hnumbered
  rw [getElem?_openAppend_of_ne hbase, getElem?_renames_of_not_target htarget, if_pos hsource]
    at hafter
  cases hafter

/-- A directory in which each file contains its own name. -/
def ownNames : List Str → Directory
  | [] => ∅
  | name :: rest => (ownNames rest).insert name name

theorem getElem?_ownNames (names : List Str) (name : Str) :
    (ownNames names)[name]? = if name ∈ names then some name else none := by
  induction names with
  | nil => rfl
  | cons first rest ih =>
    rw [ownNames, getElem?_insert_eq, ih]
    by_cases hfirst : first = name
    · subst hfirst
      rw [if_pos rfl, if_pos List.mem_cons_self]
    · rw [if_neg hfirst]
      simp only [List.mem_cons, Ne.symm hfirst, false_or]

theorem mem_ownNames {names : List Str} : name ∈ ownNames names ↔ name ∈ names := by
  rw [mem_iff_exists_getElem?, getElem?_ownNames]
  split_ifs with hname <;> simp [hname]

theorem eq_of_getElem?_remaining {names : List Str} {contents : Str}
    (hcontents : (appender.remaining (ownNames names))[name]? = some contents) :
    contents = name := by
  have hown : (ownNames names)[name]? = some contents := by
    rw [remaining] at hcontents
    split_ifs at hcontents
    · rw [Std.ExtTreeMap.getElem?_erase] at hcontents
      split_ifs at hcontents
      exact hcontents
    · exact hcontents
  rw [getElem?_ownNames] at hown
  split_ifs at hown
  exact (Option.some.inj hown).symm

/-- Of two files with one number, one is lost. -/
theorem apart_of_keepsVolumes {names : List Str} (hroll : 2 ≤ appender.nRollVolumes)
    (hnames : ∀ name ∈ names, IsFileName name)
    (hlisted : Listed (appender.remaining (ownNames names)) order)
    (hkeeps : appender.KeepsVolumes (ownNames names) (appender.openAppend
      (renames (appender.moves order) (appender.remaining (ownNames names)))))
    {first second : Str} (hfirst : first ∈ names) (hsecond : second ∈ names)
    (hfirstMoves : appender.Moves first) (hsecondMoves : appender.Moves second)
    (hindex : nameIndex appender.strFileName first = nameIndex appender.strFileName second) :
    first = second := by
  have hdir : ∀ name ∈ appender.remaining (ownNames names), name ∈ names := fun name hname ↦
    mem_ownNames.mp (mem_remaining.mp hname).1
  have horder : InOrder (appender.moves order) := inOrder_moves hroll hlisted
    (fun name hname ↦ (hnames name (hdir name hname)).nonempty)
    fun name hname ↦ volumes_of_keepsVolumes hroll hlisted hkeeps (mem_remaining.mp hname).1
  have hsources : ∀ move ∈ appender.moves order, move.1 ∈ appender.remaining (ownNames names) :=
    hlisted.mem_of_mem_moves
  have hmove : ∀ name ∈ names, appender.Moves name →
      (name, appender.target name) ∈ appender.moves order := by
    intro name hname hmoves
    refine mem_moves.mpr ⟨name, hlisted.mem_iff.mpr (mem_remaining.mpr ⟨?_, ?_⟩), hmoves, rfl⟩
    · exact mem_ownNames.mpr hname
    · exact fun hboth ↦ ne_oldest_of_moves hroll hmoves hboth.2
  have hcontents : ∀ name ∈ appender.remaining (ownNames names),
      (appender.remaining (ownNames names))[name]? = some name := by
    intro name hname
    obtain ⟨contents, hcontents⟩ := mem_iff_exists_getElem?.mp hname
    rw [hcontents, eq_of_getElem?_remaining hcontents]
  have hdistinct : ∀ name ∈ appender.remaining (ownNames names), ∀ other : Str,
      (appender.remaining (ownNames names))[name]? =
        (appender.remaining (ownNames names))[other]? → name = other := by
    intro name hname other hsame
    rw [hcontents name hname] at hsame
    exact eq_of_getElem?_remaining hsame.symm
  by_contra hne
  have htarget : appender.target first = appender.target second := by rw [target, target, hindex]
  obtain ⟨lost, hlost, hnowhere⟩ := exists_lost horder hsources hdistinct
    (hmove first hfirst hfirstMoves) (hmove second hsecond hsecondMoves)
    (fun heq ↦ hne (congrArg Prod.fst heq)) htarget
  obtain ⟨source, -, hmoves, rfl⟩ := mem_moves.mp hlost
  have hsource : source ∈ names := hdir source (hsources _ hlost)
  have hbefore : (ownNames names)[source]? = some source := by
    rw [getElem?_ownNames, if_pos hsource]
  obtain ⟨place, hplace⟩ :=
    hkeeps.kept source source hbefore (ne_oldest_of_moves hroll hmoves)
  have hfound := getElem?_of_openAppend hplace (hnames source hsource).nonempty
  exact hnowhere place (hfound.trans (hcontents source (hsources _ hlost)).symm)

/-! ### When a rotation keeps every volume -/

/-- The names that are left when the oldest volume has been deleted. -/
def listed (appender : LogAppenderFile) (names : List Str) : List Str :=
  names.filter fun name ↦ ¬(appender.Deletes ∧ name = appender.oldest)

/-- Any two names can be compared, only the log and its volumes are moved, and no two of them have
the same number. -/
structure RotatesCleanly (appender : LogAppenderFile) (names : List Str) : Prop where
  comparable : ∀ name ∈ appender.listed names, ∀ other ∈ appender.listed names, name ≠ other →
    readable name
  volumes : ∀ name ∈ names, appender.Moves name →
    name = appender.strFileName ∨ isNumbered appender.strFileName name
  apart : ∀ first ∈ names, ∀ second ∈ names, appender.Moves first → appender.Moves second →
    nameIndex appender.strFileName first = nameIndex appender.strFileName second → first = second

theorem mem_listed_iff {names : List Str} (hfiles : ∀ name, name ∈ dir ↔ name ∈ names) :
    name ∈ appender.listed names ↔ name ∈ appender.remaining dir := by
  rw [listed, List.mem_filter, mem_remaining, hfiles, decide_eq_true_eq]

/-- Rotation keeps every volume, whatever the files contain, exactly if the names allow it. -/
theorem rollingVolumes_keeps_iff (hsort : IsSort sort) (beyond : ℕ → UInt8)
    (hroll : 2 ≤ appender.nRollVolumes) {names : List Str}
    (hnames : ∀ name ∈ names, IsFileName name) :
    (∀ dir : Directory, (∀ name, name ∈ dir ↔ name ∈ names) →
      ∃ final, appender.rollingVolumes sort beyond dir = .ok final ∧
        appender.KeepsVolumes dir final.2) ↔ appender.RotatesCleanly names := by
  constructor
  · intro hkeeps
    have hfiles : ∀ name, name ∈ ownNames names ↔ name ∈ names := fun name ↦ mem_ownNames
    have hvalid : ∀ name ∈ ownNames names, IsFileName name := fun name hname ↦
      hnames name (mem_ownNames.mp hname)
    obtain ⟨final, hrun, hfinal⟩ := hkeeps (ownNames names) hfiles
    -- A fault of the comparator would be one of the rotation.
    have hcomparable : ∀ name ∈ appender.remaining (ownNames names),
        ∀ other ∈ appender.remaining (ownNames names), name ≠ other → readable name := by
      intro name hname other hother hne
      by_contra hreadable
      obtain ⟨fault, hfault⟩ := exists_fault hsort
        (fun name hname ↦ (hvalid name (mem_remaining.mp hname).1).nonempty) hname hother hne
        hreadable
      obtain ⟨nIndex, heq⟩ : ∃ nIndex,
          appender.rollingVolumes sort beyond (ownNames names) = _ :=
        rollingVolumes_eq hroll beyond (ownNames names)
      rw [hfault, hrun] at heq
      cases heq
    obtain ⟨final', order, hrun', hlisted, hdir⟩ :=
      exists_rollingVolumes hsort hroll beyond hvalid hcomparable
    obtain rfl : final = final' := Except.ok.inj (hrun.symm.trans hrun')
    rw [hdir] at hfinal
    refine ⟨?_, ?_, ?_⟩
    · intro name hname other hother
      exact hcomparable name ((mem_listed_iff hfiles).mp hname) other
        ((mem_listed_iff hfiles).mp hother)
    · exact fun name hname ↦
        volumes_of_keepsVolumes hroll hlisted hfinal ((hfiles name).mpr hname)
    · exact fun first hfirst second hsecond ↦
        apart_of_keepsVolumes hroll hnames hlisted hfinal hfirst hsecond
  · intro hclean dir hfiles
    have hvalid : ∀ name ∈ dir, IsFileName name := fun name hname ↦
      hnames name ((hfiles name).mp hname)
    have hcomparable : ∀ name ∈ appender.remaining dir, ∀ other ∈ appender.remaining dir,
        name ≠ other → readable name := fun name hname other hother ↦
      hclean.comparable name ((mem_listed_iff hfiles).mpr hname) other
        ((mem_listed_iff hfiles).mpr hother)
    obtain ⟨final, order, hrun, hlisted, hdir⟩ :=
      exists_rollingVolumes hsort hroll beyond hvalid hcomparable
    refine ⟨final, hrun, ?_⟩
    rw [hdir]
    exact keepsVolumes_renames hroll hvalid hlisted
      (fun name hname ↦ hclean.volumes name ((hfiles name).mp hname))
      fun first hfirst second hsecond ↦
        hclean.apart first ((hfiles first).mp hfirst) second ((hfiles second).mp hsecond)

/-- A log `app.log` with a number of volumes. -/
def appLog (nRollVolumes nIndex : Int32) : LogAppenderFile where
  strFileName := chars "app.log"
  nRollVolumes := nRollVolumes
  nIndex := nIndex
  named := ⟨chars "app", rfl⟩
  isFileName := by decide

/-- The files of a log with two volumes, next to another file. -/
def twoVolumes : List Str :=
  [chars "app.log", chars "app.log.1", chars "app.log.2", chars "readme.txt"]

theorem rollingVolumes_keeps_two :
    (appLog 3 2).RotatesCleanly twoVolumes ∧
      ∃ final, (appLog 3 2).rollingVolumes insertionSort (fun _ ↦ 0) (ownNames twoVolumes) =
          .ok final ∧ (appLog 3 2).KeepsVolumes (ownNames twoVolumes) final.2 := by
  have hclean : (appLog 3 2).RotatesCleanly twoVolumes := ⟨by decide, by decide, by decide⟩
  refine ⟨hclean, ?_⟩
  exact (rollingVolumes_keeps_iff insertionSort_isSort (fun _ ↦ 0) (by decide) (by decide)).mpr
    hclean (ownNames twoVolumes) fun name ↦ mem_ownNames

/-- A file `app.log.bak` is taken for the log: it is moved to `app.log.1` and replaced there. -/
theorem rollingVolumes_loses_file :
    (∀ name ∈ [chars "app.log", chars "app.log.bak"], IsFileName name) ∧
      ∃ final, (appLog 3 0).rollingVolumes insertionSort (fun _ ↦ 0)
          (ownNames [chars "app.log", chars "app.log.bak"]) = .ok final ∧
        final.2.toList = [(chars "app.log", []), (chars "app.log.1", chars "app.log")] ∧
        ¬(appLog 3 0).KeepsVolumes (ownNames [chars "app.log", chars "app.log.bak"]) final.2 := by
  refine ⟨by decide, _, rfl, by decide +kernel, fun hkeeps ↦ ?_⟩
  have hlost := hkeeps.untouched (chars "app.log.bak") (chars "app.log.bak") (by decide +kernel)
    (by decide) (by decide)
  exact absurd hlost (by decide +kernel)

end LogAppenderFile

end Exc.Logger
