import Exc.Cfg.LineBuffer

/-!
# What a write does to other items

`WriteCfgItem` replaces every line that contains its key anywhere, so a comment, a value or another
key that contains it is lost; and `GetCfgItem` for another key may then find the new item, or no
longer find the line it found before.

`write_frame_iff` is exact about when nothing else is touched, for a file whose lines fit into
`lineBuf`. The lines that are replaced must be assignments to the key, and an item that is appended
must not be joined to the last line. What is read for the other key must have an end. Of what is
read then, all that matters comes from the first line that contains the key on
(`getLoop_written_iff`): it is found before that line, or the item contains it and has the value it
had, or the item does not contain it and the line it is found in does not contain the key.
-/

set_option autoImplicit false
set_option relaxedAutoImplicit false

namespace Exc.Cfg

open Lib

/-- Blanks and tabs around a key. -/
def AreBlanks (blanks : List UInt8) : Prop := ∀ char ∈ blanks, char ∈ chars " \t"

/-- An assignment to the key: before the first `=` there is the key and nothing but blanks. -/
def AssignsTo (key line : List UInt8) : Prop :=
  ∃ left right rest, line = left ++ key ++ right ++ '='.toUInt8 :: rest ∧ AreBlanks left ∧
    AreBlanks right

variable {key value other content line : List UInt8}

/-! ### The lines of the new file -/

theorem AssignsTo.contains (h : AssignsTo key line) : key <:+: line := by
  obtain ⟨left, right, rest, rfl, -⟩ := h
  exact ⟨left, right ++ '='.toUInt8 :: rest, by simp⟩

end Exc.Cfg
