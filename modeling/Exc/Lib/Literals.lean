import Mathlib.Data.Nat.Cast.Basic

/-!
# Literals

A literal of `Fin n` or of a field carries a proof about its numeral. These are the proofs, each
under a name of its own. A module that makes them local instances has the same literals in its
definitions whatever else it imports.
-/

set_option autoImplicit false
set_option relaxedAutoImplicit false

namespace Exc.Lib

theorem atLeastTwo_two : Nat.AtLeastTwo 2 := ⟨le_rfl⟩

theorem neZero_four : NeZero 4 := ⟨by decide⟩

theorem neZero_five : NeZero 5 := ⟨by decide⟩

theorem neZero_eight : NeZero 8 := ⟨by decide⟩

theorem neZero_sixteen : NeZero 16 := ⟨by decide⟩

end Exc.Lib
