import Exc.Lib.CString
import Exc.Lib.Lines
import Mathlib.Data.List.Infix

/-!
# Configuration items in a text file

`util/filesystem/cfg_op.c`: `GetCfgItem` looks for the first line with an `=` that contains the key,
and `WriteCfgItem` replaces every line that contains the key, or appends one if there is none.

Both read the file with `fgets` into `lineBuf`, 2048 characters large, so a longer line comes in
pieces (`fgetsLines`). What they see of a piece ends at a null byte. `WriteCfgItem` collects the new
contents in `filebuf`, 8192 characters large.

Undefined behaviour is a `Fault`: writing behind the end of one of the two buffers, and a search for
the end of a value that leaves `lineBuf`, because neither a blank nor a newline follows the value.

Scope. A file is its contents, or nothing if it cannot be opened; in that case it can be created,
and a file that was read can be written. Its length, which `WriteCfgItem` takes from `ftell` as an
`int`, is below 2^31. The file name and the places for the results of `GetCfgItem` are not null.
`ValueLen` is never read.
-/

set_option autoImplicit false
set_option relaxedAutoImplicit false

namespace Exc.Cfg

open Lib

/-- `LineMaxLen`. -/
def lineMaxLen : ℕ := 2048

/-- The size of `filebuf`, which is also the limit for the size of a file. -/
def fileMaxLen : ℕ := 1024 * 8

/-- Undefined behaviour. -/
inductive Fault
  | overrun
  | lineBufOverflow
  | filebufOverflow
  deriving DecidableEq, Repr

/-- What `while (!feof(fp))` with `fgets(lineBuf, LineMaxLen, fp)` reads, one piece after the
other. -/
def fgetsLines (content : List UInt8) : List (List UInt8) :=
  readLines '\n'.toUInt8 (lineMaxLen - 1) content

/-! ### Reading an item -/

/-- The two loops behind the `=`: the first word, or nothing if there is a newline instead. -/
def firstWord (pTmp : List UInt8) : Except Fault (Option (List UInt8)) :=
  let pBegin := pTmp.dropWhile fun char ↦ char = ' '.toUInt8
  if pBegin.head? = some '\n'.toUInt8 then .ok none
  else
    let value := pBegin.takeWhile fun char ↦ ¬(char = ' '.toUInt8 ∨ char = '\n'.toUInt8)
    if value.length < pBegin.length then .ok (some value) else .error .overrun

/-- What is behind the first `=` of a line. -/
def afterEq (line : List UInt8) : List UInt8 := (line.dropWhile fun char ↦ char ≠ '='.toUInt8).tail

/-- The loop of `GetCfgItem`: the value that it stores, if any. -/
def getLoop (pKey : List UInt8) : List (List UInt8) → Except Fault (Option (List UInt8))
  | [] => .ok none
  | lineBuf :: rest =>
    if '='.toUInt8 ∉ cstring lineBuf then getLoop pKey rest
    else if ¬pKey <:+: cstring lineBuf then getLoop pKey rest
    else firstWord (afterEq (cstring lineBuf))

/-- `GetCfgItem`: what it returns, and the value that it stores, if any. `*pValueLen` is the number
of its characters. -/
def getCfgItem (file : Option (List UInt8)) (pKey : Option CStr) :
    Except Fault (ℤ × Option (List UInt8)) :=
  match pKey with
  | none => .ok (-1, none)
  | some pKey =>
    match file with
    | none => .ok (-2, none)
    | some content => do
      let value ← getLoop pKey.chars (fgetsLines content)
      pure (0, value)

/-! ### Writing an item -/

/-- `"%s = %s\n"`. -/
def itemLine (pKey pValue : List UInt8) : List UInt8 := pKey ++ chars " = " ++ pValue ++ chars "\n"

/-- `strcat(filebuf, lineBuf)`. -/
def strcat (filebuf lineBuf : List UInt8) : Except Fault (List UInt8) :=
  if filebuf.length + lineBuf.length < fileMaxLen then .ok (filebuf ++ lineBuf)
  else .error .filebufOverflow

/-- The loop of `WriteCfgItem`: `filebuf` and `iTag` after it. -/
def writeLoop (pKey pValue : List UInt8) :
    List (List UInt8) → List UInt8 → Bool → Except Fault (List UInt8 × Bool)
  | [], filebuf, iTag => .ok (filebuf, iTag)
  | lineBuf :: rest, filebuf, iTag =>
    if ¬pKey <:+: cstring lineBuf then do
      let filebuf ← strcat filebuf (cstring lineBuf)
      writeLoop pKey pValue rest filebuf iTag
    else if (itemLine pKey pValue).length < lineMaxLen then do
      let filebuf ← strcat filebuf (itemLine pKey pValue)
      writeLoop pKey pValue rest filebuf true
    else .error .lineBufOverflow

/-- `WriteCfgItem`: what it returns, and the contents of the file afterwards. -/
def writeCfgItem (file : Option (List UInt8)) (pKey pValue : Option CStr) :
    Except Fault (ℤ × Option (List UInt8)) :=
  match pKey, pValue with
  | some pKey, some pValue => do
    let rv : ℤ := if file.isSome then 0 else -2
    let content := file.getD []
    if content.length > fileMaxLen then pure (-3, some content)
    else
      let (filebuf, iTag) ← writeLoop pKey.chars pValue.chars (fgetsLines content) [] false
      if iTag then pure (rv, some filebuf)
      else pure (rv, some (content ++ itemLine pKey.chars pValue.chars))
  | _, _ => pure (-1, file)

end Exc.Cfg
