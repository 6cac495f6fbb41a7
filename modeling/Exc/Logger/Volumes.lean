import Exc.Lib.CString
import Exc.Lib.Decimal
import Exc.Lib.Rename
import Exc.Lib.Tokens

/-!
# The volumes of a log

`comLib/Logger_impl.cpp`: `GetFileName`, `RollingVolumes`, `getIndex` and `LogFilenameCompare` of
`LogAppenderFile`, with what they use of `comLib/SysUtil.cpp`: `util_strsplit`, `util_strtrim`,
`util_itoa`, `util_list_dir`, `util_delete_file` and `util_rename`.

A file is its contents and a directory a map from names to files (`Directory`). `std::sort` is a
parameter. The names are sorted before they are looked at, so that the order in which `readdir`
lists them is left to it too.

An index outside of a vector and an iterator outside of a string are a `NameFault`. `getIndex` calls
`n.find(".", pos, count)`, where `count` is the length of what to look for and can be more than the
literal has: what is in memory behind it is the parameter `beyond`. It makes no difference, since a
file name has no null character (`getIndex_eq`).

Scope. Each rename and each delete succeeds, the locale is `"C"` and `Close` is left out. File names
are those of one directory (`IsFileName`), and the file that `Open(true)` opens is in it too.
-/

set_option autoImplicit false
set_option relaxedAutoImplicit false

namespace Exc.Logger

open Lib

/-- `std::string`. -/
abbrev Str := List UInt8

/-- An index outside of a vector, or an iterator outside of a string. -/
inductive NameFault
  | vector
  | iterator
  deriving DecidableEq

/-! ### Strings -/

/-- The loop of `util_strsplit`, with the characters from `lastPos` on. -/
def utilStrsplitLoop (c : UInt8) : ℕ → Str → List Str
  | 0, _ => []
  | fuel + 1, rest =>
    if rest = [] then []
    else rest.takeWhile (· ≠ c) ::
      utilStrsplitLoop c fuel ((rest.dropWhile (· ≠ c)).dropWhile (· = c))

/-- `util_strsplit`. -/
def utilStrsplit (str : Str) (c : UInt8) : List Str :=
  utilStrsplitLoop c str.length (str.dropWhile (· = c))

/-- The characters that `util_strtrim` removes. -/
def isBlank (char : UInt8) : Bool := char = ' '.toUInt8 || char = '\t'.toUInt8

/-- The second loop of `util_strtrim`, which goes back to the last character that is not blank. -/
def lastMark (s : Str) : ℕ → ℕ
  | 0 => 0
  | iter + 1 => if isBlank (s.getD (iter + 1) 0) then lastMark s iter else iter + 1

/-- `util_strtrim`. -/
def utilStrtrim (str : Str) : Except NameFault Str :=
  if str = [] then .ok str
  else
    let s := str.dropWhile isBlank
    -- `s.end() - 1` of an empty string
    if s = [] then .error .iterator
    else
      let iter := lastMark s (s.length - 1) + 1
      .ok (s.take iter ++ (s.drop iter).dropWhile isBlank)

/-- An element of a vector, if it is there. -/
def inVector : Option Str → Except NameFault Str
  | some token => .ok token
  | none => .error .vector

/-- `v[v.size() - back]`, whose index wraps around if it is negative. -/
def tokenAt (v : List Str) (back : ℕ) : Except NameFault Str :=
  if back ≤ v.length then inVector v[v.length - back]? else .error .vector

/-- What `LogFilenameCompare` does with a name to find its index. -/
def fileIndex (s : Str) : Except NameFault Int32 := do
  let v := utilStrsplit s '.'.toUInt8
  if v.length = 0 then pure 0
  else
    let last ← tokenAt v 1
    let token ← if last = chars "gz" then tokenAt v 2 else tokenAt v 1
    let trimmed ← utilStrtrim token
    pure (atoi (cstring trimmed))

/-- `LogFilenameCompare`. -/
def logFilenameCompare (s1 s2 : Str) : Except NameFault Bool := do
  if s1 = [] ∨ s2 = [] then pure false
  else
    let index1 ← fileIndex s1
    let index2 ← fileIndex s2
    if index2 ≤ index1 then pure false else pure true

/-- The first `count` characters at the literal `"."`. -/
def dotPattern (beyond : ℕ → UInt8) (count : ℕ) : Str :=
  ('.'.toUInt8 :: 0 :: (List.range count).map beyond).take count

/-- `text.find(pattern, pos, pattern.size())`, with no value for `npos`. -/
def find (text pattern : Str) (pos : ℕ) : Option ℕ :=
  if pos ≤ text.length then
    ((text.drop pos).tails.findIdx? pattern.isPrefixOf).map (pos + ·)
  else none

/-- `text.substr(pos, count)`, with no value for `npos`. -/
def substr (text : Str) (pos : ℕ) (count : Option ℕ) : Str :=
  match count with
  | some count => (text.drop pos).take count
  | none => text.drop pos

/-- `getIndex`. -/
def getIndex (beyond : ℕ → UInt8) (p n : Str) : Int32 :=
  if p = substr n 0 (some p.length) then
    let idx := substr n p.length (find n (dotPattern beyond (n.length - p.length)) p.length)
    if idx ≠ [] then atoi (cstring (substr idx 1 none)) else 0
  else -1

/-! ### Rotation -/

/-- `GetFileName`. -/
def getFileName (strTag : Str) : Str := strTag ++ chars ".log"

/-- The name of an entry of a directory, without `.` and `..`. -/
structure IsFileName (name : Str) : Prop where
  nonempty : name ≠ []
  noNull : 0 ∉ name
  noSlash : '/'.toUInt8 ∉ name
  notSpecial : name ≠ chars "." ∧ name ≠ chars ".."

instance (name : Str) : Decidable (IsFileName name) :=
  decidable_of_iff
    (name ≠ [] ∧ 0 ∉ name ∧ '/'.toUInt8 ∉ name ∧ name ≠ chars "." ∧ name ≠ chars "..")
    ⟨fun ⟨hne, hnull, hslash, hspecial⟩ ↦ ⟨hne, hnull, hslash, hspecial⟩,
      fun ⟨hne, hnull, hslash, hspecial⟩ ↦ ⟨hne, hnull, hslash, hspecial⟩⟩

/-- The fields of `LogAppenderFile` that the rotation uses. `doOpen` makes the name of the log from
a tag. -/
structure LogAppenderFile where
  strFileName : Str
  nRollVolumes : Int32
  nIndex : Int32
  named : ∃ strTag : Str, strFileName = getFileName strTag
  isFileName : IsFileName strFileName

/-- The files of `m_strDir`. -/
abbrev Directory := Std.ExtTreeMap Str Str

/-- The name of a volume, `m_strFileName` with `"."` and `util_itoa(index)` behind it. -/
def volumeName (strFileName : Str) (index : Int32) : Str :=
  strFileName ++ chars "." ++ formatInt index

namespace LogAppenderFile

/-- The part of `RollingVolumes` that deletes the last volume. -/
def deleteOldest (appender : LogAppenderFile) (dir : Directory) : LogAppenderFile × Directory :=
  if appender.nIndex > 0 ∧ appender.nIndex ≥ appender.nRollVolumes - 1 then
    let nIndex := appender.nRollVolumes - 1
    ({ appender with nIndex := nIndex }, dir.erase (volumeName appender.strFileName nIndex))
  else (appender, dir)

/-- A turn of the loop of `RollingVolumes`. -/
def renameVolume (beyond : ℕ → UInt8) (appender : LogAppenderFile) (dir : Directory) (name : Str) :
    Directory :=
  let k := getIndex beyond appender.strFileName name
  if k < appender.nRollVolumes - 1 ∧ k ≥ 0 then
    rename dir name (volumeName appender.strFileName (k + 1))
  else dir

/-- The part of `RollingVolumes` that renames the volumes, in the order that sorting the names
backwards leaves them in. -/
def renameVolumes
    (sort : (Str → Str → Except NameFault Bool) → List Str → Except NameFault (List Str))
    (beyond : ℕ → UInt8) (appender : LogAppenderFile) (dir : Directory) :
    Except NameFault Directory := do
  let sorted ← sort logFilenameCompare dir.keys.reverse
  pure (sorted.reverse.foldl (appender.renameVolume beyond) dir)

/-- `Open(true)`, which makes a file if there is none. -/
def openAppend (appender : LogAppenderFile) (dir : Directory) : Directory :=
  if appender.strFileName ∈ dir then dir else dir.insert appender.strFileName []

/-- `RollingVolumes`. -/
def rollingVolumes
    (sort : (Str → Str → Except NameFault Bool) → List Str → Except NameFault (List Str))
    (beyond : ℕ → UInt8) (appender : LogAppenderFile) (dir : Directory) :
    Except NameFault (LogAppenderFile × Directory) := do
  let (appender, dir) ←
    if appender.nRollVolumes > 1 then do
      let (appender, dir) := appender.deleteOldest dir
      let dir ← appender.renameVolumes sort beyond dir
      pure (appender, dir)
    else pure (appender, dir)
  pure ({ appender with nIndex := appender.nIndex + 1 }, appender.openAppend dir)

end LogAppenderFile

end Exc.Logger
