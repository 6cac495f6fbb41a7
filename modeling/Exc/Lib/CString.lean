import Mathlib.Data.List.TakeWhile
import Mathlib.Data.UInt

/-!
# Null-terminated strings

What a function that takes a `char *` sees of the memory it points to (`cstring`), such arguments
(`CStr`), and `strncpy`.
-/

set_option autoImplicit false
set_option relaxedAutoImplicit false

namespace Exc.Lib

/-- The characters before the first null byte. -/
def cstring (bytes : List UInt8) : List UInt8 := bytes.takeWhile fun byte ↦ byte ≠ 0

/-- `strncpy(dest + offset, src + start, count)` with the contents of `dest` afterwards: it stops at
a null byte of the source and fills up with null bytes. `src` is a null-terminated string. No value
means that the memory of `dest` or of `src` is left. -/
def strncpy (dest : List UInt8) (offset : ℕ) (src : List UInt8) (start count : ℕ) :
    Option (List UInt8) :=
  if start ≤ src.length ∧ offset + count ≤ dest.length then
    let copied := cstring ((src.drop start).take count)
    some (dest.take offset ++ copied ++ List.replicate (count - copied.length) 0 ++
      dest.drop (offset + count))
  else none

variable {bytes : List UInt8}

theorem ne_zero_of_clean (hclean : 0 ∉ bytes) : ∀ byte ∈ bytes, decide (byte ≠ 0) = true := by
  intro byte hbyte
  have hne : byte ≠ 0 := fun hzero ↦ hclean (hzero ▸ hbyte)
  simpa using hne

theorem cstring_eq_self (hclean : 0 ∉ bytes) : cstring bytes = bytes := by
  rw [cstring, List.takeWhile_eq_self_iff]
  exact ne_zero_of_clean hclean

theorem zero_notMem_cstring (bytes : List UInt8) : 0 ∉ cstring bytes := by
  intro hmem
  simpa using List.mem_takeWhile_imp hmem

theorem length_cstring_le (bytes : List UInt8) : (cstring bytes).length ≤ bytes.length :=
  (List.takeWhile_sublist _).length_le

/-- Null bytes behind a string are not seen. -/
theorem cstring_append_replicate (bytes : List UInt8) (count : ℕ) :
    cstring (bytes ++ List.replicate count 0) = cstring bytes := by
  have hzeros : cstring (List.replicate count 0) = [] := by
    cases count with
    | zero => rfl
    | succ count => simp [cstring, List.replicate_succ]
  rw [cstring] at hzeros
  rw [cstring, List.takeWhile_append, hzeros, List.append_nil]
  split_ifs with hall
  · exact ((List.takeWhile_prefix _).eq_of_length hall).symm
  · rfl

theorem cstring_cstring (bytes : List UInt8) : cstring (cstring bytes) = cstring bytes :=
  cstring_eq_self (zero_notMem_cstring bytes)

/-! ### Copying -/

/-- What `strncpy` makes of bytes: those before a null byte, and null bytes for the rest. -/
def padded (bytes : List UInt8) : List UInt8 :=
  cstring bytes ++ List.replicate (bytes.length - (cstring bytes).length) 0

@[simp] theorem length_padded (bytes : List UInt8) : (padded bytes).length = bytes.length := by
  have hle := length_cstring_le bytes
  rw [padded, List.length_append, List.length_replicate]
  omega

theorem cstring_padded (bytes : List UInt8) : cstring (padded bytes) = cstring bytes := by
  rw [padded, cstring_append_replicate, cstring_cstring]

theorem padded_eq_self (hclean : 0 ∉ bytes) : padded bytes = bytes := by
  rw [padded, cstring_eq_self hclean, Nat.sub_self, List.replicate_zero, List.append_nil]

/-- A copy of bytes that are all there. -/
theorem strncpy_eq {dest src : List UInt8} {offset start count : ℕ}
    (hsrc : start + count ≤ src.length) (hdest : offset + count ≤ dest.length) :
    strncpy dest offset src start count =
      some (dest.take offset ++ padded ((src.drop start).take count) ++
        dest.drop (offset + count)) := by
  have hlength : ((src.drop start).take count).length = count := by
    rw [List.length_take, List.length_drop]
    omega
  rw [strncpy, if_pos ⟨by omega, hdest⟩, padded, hlength]
  simp only [List.append_assoc]

/-- A copy does not change the amount of memory. -/
theorem length_strncpy {dest src result : List UInt8} {offset start count : ℕ}
    (hcopy : strncpy dest offset src start count = some result) :
    result.length = dest.length := by
  rw [strncpy] at hcopy
  split_ifs at hcopy with hinside
  obtain rfl := Option.some.inj hcopy
  have hcopied := length_cstring_le ((src.drop start).take count)
  rw [List.length_take] at hcopied
  simp only [List.length_append, List.length_take, List.length_replicate, List.length_drop]
  omega

/-! ### Strings as arguments -/

/-- The characters of a string literal. -/
def chars (literal : String) : List UInt8 := literal.toList.map Char.toUInt8

/-- A `const char *` that points to a string: its characters, none of them null. -/
structure CStr where
  chars : List UInt8
  clean : 0 ∉ chars
  deriving DecidableEq

namespace CStr

/-- `c_str()` of a string, as a reader of it sees it. -/
def ofString (bytes : List UInt8) : CStr := ⟨cstring bytes, zero_notMem_cstring bytes⟩

theorem chars_injective : Function.Injective chars := by
  rintro ⟨first, _⟩ ⟨second, _⟩ hchars
  subst hchars
  rfl

theorem ofString_eq (hclean : 0 ∉ bytes) : ofString bytes = ⟨bytes, hclean⟩ :=
  chars_injective (cstring_eq_self hclean)

theorem ofString_chars (text : CStr) : ofString text.chars = text := ofString_eq text.clean

instance : Nontrivial CStr := ⟨⟨[], by decide⟩, ⟨[1], by decide⟩, by decide⟩

end CStr

end Exc.Lib
