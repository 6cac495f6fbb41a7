import Exc.Cfg.WriteRead
import Exc.Lib.Refinement

/-!
# What the return code of `WriteCfgItem` says

`WriteCfgItem` opens the file up to three times: with `"r+"`, with `"w+t"` if that fails, and with
`"w+t"` again to replace the contents. `Opens` says which of these succeed. The second one makes the
file empty, or creates it, and then the function goes on as with any other file. But the return code
is -2 already, so the item is stored and the call reports a failure. In all other cases zero is
returned exactly if the item was stored, and the file is untouched otherwise (`truthful_iff`).

`writeItem_eq` connects this to `writeCfgItem`, where all files can be opened.

Scope. The length of the file, which the function takes from `ftell` as an `int`, is below 2^31.
-/

set_option autoImplicit false
set_option relaxedAutoImplicit false

namespace Exc.Cfg

open Lib

/-- Which calls of `fopen` succeed. With `"r+"` only an existing file can be opened. -/
structure Opens where
  readWrite : Bool
  create : Bool
  rewrite : Bool
  deriving DecidableEq, Repr

/-- What a call does: its return code, the file afterwards, and whether the item was written. -/
structure Outcome where
  rv : ℤ
  file : Option (List UInt8)
  stored : Bool
  deriving DecidableEq, Repr

/-- The end of `WriteCfgItem`, from `filebuf` and `iTag` on. -/
def storeItem (opens : Opens) (rv : ℤ) (content item : List UInt8) : List UInt8 × Bool → Outcome
  | (_, false) => ⟨rv, some (content ++ item), true⟩
  | (filebuf, true) =>
    if opens.rewrite then ⟨rv, some filebuf, true⟩ else ⟨-4, some content, false⟩

/-- `WriteCfgItem` from the test of the length on, with the value that `rv` has there. -/
def writeOpened (opens : Opens) (rv : ℤ) (content pKey pValue : List UInt8) :
    Except Fault Outcome :=
  if content.length > fileMaxLen then .ok ⟨-3, some content, false⟩
  else
    (writeLoop pKey pValue (fgetsLines content) [] false).map
      (storeItem opens rv content (itemLine pKey pValue))

/-- `WriteCfgItem`, with every outcome of its calls of `fopen`. -/
def writeItem (opens : Opens) (file : Option (List UInt8)) (pKey pValue : Option CStr) :
    Except Fault Outcome :=
  match pKey, pValue with
  | some pKey, some pValue =>
    if file.isSome ∧ opens.readWrite then
      writeOpened opens 0 (file.getD []) pKey.chars pValue.chars
    else if opens.create then
      -- the file is empty now, and `rv` stays at -2
      writeOpened opens (-2) [] pKey.chars pValue.chars
    else .ok ⟨-3, file, false⟩
  | _, _ => .ok ⟨-1, file, false⟩

/-- All files can be opened and created. -/
def Opens.all : Opens := ⟨true, true, true⟩

variable {key value content : List UInt8} {opens : Opens} {outcome : Outcome}

/-- Where all files can be opened, this is `writeCfgItem`. -/
theorem writeItem_eq (file : Option (List UInt8)) (pKey pValue : Option CStr) :
    writeCfgItem file pKey pValue =
      (writeItem .all file pKey pValue).map fun outcome ↦ (outcome.rv, outcome.file) := by
  cases pKey with
  | none => rfl
  | some pKey =>
    cases pValue with
    | none => rfl
    | some pValue =>
      cases file with
      | none => rfl
      | some content =>
        simp only [writeItem, writeCfgItem, writeOpened, Option.getD_some]
        by_cases hsize : content.length > fileMaxLen
        · rw [if_pos hsize, if_pos hsize]
          rfl
        · rw [if_neg hsize, if_neg hsize]
          cases writeLoop pKey.chars pValue.chars (fgetsLines content) [] false with
          | error fault => rfl
          | ok result =>
            obtain ⟨filebuf, iTag⟩ := result
            cases iTag <;> rfl

/-! ### What was stored -/

theorem strcat_eq_ok {filebuf line text : List UInt8} (hstrcat : strcat filebuf line = .ok text) :
    text = filebuf ++ line := by
  unfold strcat at hstrcat
  split_ifs at hstrcat
  cases hstrcat
  rfl

/-- Once the tag is set, the item is in `filebuf`. -/
theorem infix_of_writeLoop {pieces : List (List UInt8)} {filebuf text : List UInt8} {iTag : Bool}
    (htag : iTag = true → itemLine key value <:+: filebuf)
    (hloop : writeLoop key value pieces filebuf iTag = .ok (text, true)) :
    itemLine key value <:+: text := by
  induction pieces generalizing filebuf iTag with
  | nil =>
    cases hloop
    exact htag rfl
  | cons line rest ih =>
    rw [writeLoop] at hloop
    split_ifs at hloop with hcontains hitem
    · obtain ⟨longer, hstrcat, hloop⟩ := bind_eq_ok hloop
      obtain rfl := strcat_eq_ok hstrcat
      exact ih (fun _ ↦ (List.suffix_append _ _).isInfix) hloop
    · obtain ⟨longer, hstrcat, hloop⟩ := bind_eq_ok hloop
      obtain rfl := strcat_eq_ok hstrcat
      exact ih (fun hset ↦ (htag hset).trans (List.prefix_append _ _).isInfix) hloop

/-- Behind the first two calls of `fopen`: the item is stored with the return code that was set
before, or nothing happens and the code is not zero. -/
theorem writeOpened_cases {rv : ℤ} (hcall : writeOpened opens rv content key value = .ok outcome) :
    (∃ text, outcome = ⟨rv, some text, true⟩ ∧ itemLine key value <:+: text) ∨
      ∃ code, outcome = ⟨code, some content, false⟩ ∧ code ≠ 0 := by
  unfold writeOpened at hcall
  split_ifs at hcall with hsize
  · cases hcall
    exact .inr ⟨-3, rfl, by decide⟩
  · cases hloop : writeLoop key value (fgetsLines content) [] false with
    | error fault =>
      rw [hloop] at hcall
      cases hcall
    | ok result =>
      obtain ⟨filebuf, iTag⟩ := result
      rw [hloop] at hcall
      obtain rfl := Except.ok.inj hcall
      cases iTag with
      | false => exact .inl ⟨_, rfl, (List.suffix_append _ _).isInfix⟩
      | true =>
        have hinfix : itemLine key value <:+: filebuf :=
          infix_of_writeLoop (fun hset ↦ absurd hset Bool.false_ne_true) hloop
        simp only [storeItem]
        split_ifs
        · exact .inl ⟨filebuf, rfl, hinfix⟩
        · exact .inr ⟨-4, rfl, by decide⟩

theorem infix_of_writeOpened {rv : ℤ}
    (hcall : writeOpened opens rv content key value = .ok outcome)
    (hstored : outcome.stored = true) :
    ∃ text, outcome.file = some text ∧ itemLine key value <:+: text := by
  rcases writeOpened_cases hcall with ⟨text, rfl, hinfix⟩ | ⟨code, rfl, -⟩
  · exact ⟨text, rfl, hinfix⟩
  · cases hstored

/-- Where the item was stored, the file contains its line. -/
theorem infix_of_stored {file : Option (List UInt8)} {pKey pValue : CStr}
    (hcall : writeItem opens file (some pKey) (some pValue) = .ok outcome)
    (hstored : outcome.stored = true) :
    ∃ text, outcome.file = some text ∧ itemLine pKey.chars pValue.chars <:+: text := by
  simp only [writeItem] at hcall
  split_ifs at hcall with hread hcreate
  · exact infix_of_writeOpened hcall hstored
  · exact infix_of_writeOpened hcall hstored
  · cases hcall
    cases hstored

/-- The return code tells the truth: zero if and only if the item was stored, and the file is as
before otherwise. -/
structure Truthful (file : Option (List UInt8)) (outcome : Outcome) : Prop where
  zero_iff : outcome.rv = 0 ↔ outcome.stored = true
  unchanged : outcome.rv ≠ 0 → outcome.file = file

/-- The return code tells the truth if and only if the file could be opened with `"r+"` or could not
be created either. -/
theorem truthful_iff {file : Option (List UInt8)} {pKey pValue : CStr}
    (hcall : writeItem opens file (some pKey) (some pValue) = .ok outcome) :
    Truthful file outcome ↔ (file.isSome ∧ opens.readWrite = true) ∨ opens.create = false := by
  simp only [writeItem] at hcall
  split_ifs at hcall with hread hcreate
  · refine iff_of_true ?_ (.inl hread)
    obtain ⟨content, rfl⟩ := Option.isSome_iff_exists.mp hread.1
    rcases writeOpened_cases hcall with ⟨text, rfl, -⟩ | ⟨code, rfl, hcode⟩
    · exact ⟨iff_of_true rfl rfl, fun hne ↦ absurd rfl hne⟩
    · exact ⟨iff_of_false hcode Bool.false_ne_true, fun _ ↦ rfl⟩
  · refine iff_of_false (fun htruthful ↦ ?_) ?_
    · -- a new file has no piece to replace, so the item is appended
      cases hcall
      have hcode : (-2 : ℤ) = 0 := htruthful.zero_iff.mpr rfl
      exact absurd hcode (by decide)
    · rw [hcreate]
      exact fun hor ↦ hor.elim hread fun heq ↦ nomatch heq
  · refine iff_of_true ?_ (.inr (Bool.eq_false_of_not_eq_true hcreate))
    cases hcall
    have hcode : (-3 : ℤ) ≠ 0 := by decide
    exact ⟨iff_of_false hcode Bool.false_ne_true, fun _ ↦ rfl⟩

/-- A value is replaced in a file that can be opened. -/
theorem truthful_replaced :
    Truthful (some (chars "k = 1\n")) ⟨0, some (chars "k = v\n"), true⟩ := by
  have hcall : writeItem .all (some (chars "k = 1\n")) (some keyK) (some valueV) =
      .ok ⟨0, some (chars "k = v\n"), true⟩ := by decide
  exact (truthful_iff hcall).mpr (.inl ⟨rfl, rfl⟩)

/-- An item is stored in a new file, and the call returns -2. -/
theorem not_truthful_created :
    writeItem .all none (some keyK) (some valueV) = .ok ⟨-2, some (chars "k = v\n"), true⟩ ∧
      ¬∀ (opens : Opens) (file : Option (List UInt8)) (pKey pValue : CStr) (outcome : Outcome),
        writeItem opens file (some pKey) (some pValue) = .ok outcome → Truthful file outcome := by
  have hcreated : writeItem .all none (some keyK) (some valueV) =
      .ok ⟨-2, some (chars "k = v\n"), true⟩ := by decide
  refine ⟨hcreated, fun hall ↦ ?_⟩
  have htruthful := hall .all none keyK valueV _ hcreated
  exact absurd (htruthful.zero_iff.mpr rfl) (by decide)

end Exc.Cfg
