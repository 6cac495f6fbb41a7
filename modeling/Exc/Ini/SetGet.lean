import Exc.Ini.IniFile
import Exc.Lib.OrderedMap
import Exc.Lib.Run

/-!
# Setting and getting

The getters look for the section and the key in lower case. The setters store the section in lower
case and the key as it is given, so an entry that is set under a key with a capital letter is not
found again, and what was found under the key before is still found (`setString_loses_capital_key`).

All getters read the same text, `IniFile.stored`, and all setters change it in the same way
(`stored_assign`). From that `set_get_iff` gets exactly when a value that is set is got back: if the
key has no capital letter, or if the value was there already. No other name is affected.
-/

set_option autoImplicit false
set_option relaxedAutoImplicit false

namespace Exc.Ini

open Lib

/-! ### Calls -/

/-- The calls that change an `IniFile`. A load has the number of rounds that its loop may take. -/
inductive IniCall
  | load (fuel : ℕ) (file : Option (List UInt8))
  | setString (szSection szKey value : Option CStr)
  | setInteger (szSection szKey : Option CStr) (value : Int32)
  | setBool (szSection szKey : Option CStr) (bValue : Bool)
  | addAKeyValue (strSection strP strV : Str)
  | deleteAKeyValue (strSection strP : Str)

namespace IniFile

/-- What a call does. A load that does not end has no result. -/
def next (ini : IniFile) : IniCall → Option IniFile
  | .load fuel file => (loadIniFile fuel file).map Prod.fst
  | .setString szSection szKey value => some (ini.setString szSection szKey value)
  | .setInteger szSection szKey value => some (ini.setInteger szSection szKey value)
  | .setBool szSection szKey bValue => some (ini.setBool szSection szKey bValue)
  | .addAKeyValue strSection strP strV => some (ini.addAKeyValue strSection strP strV).1
  | .deleteAKeyValue strSection strP => some (ini.deleteAKeyValue strSection strP).1

/-! ### What the getters read -/

/-- The text that is stored under the two names in lower case. -/
def stored (ini : IniFile) (szSection szKey : CStr) : Option CStr :=
  (ini.mInifile[lowercase szSection.chars]?.bind fun entries ↦
    entries[lowercase szKey.chars]?).map CStr.ofString

/-- What `GetBool` makes of the text of a value. -/
def toBool (szValue : CStr) : Bool :=
  lowercase szValue.chars = chars "yes" || lowercase szValue.chars = chars "true"

variable {ini : IniFile} {szSection szKey : CStr}

/-- The getters, with what they make of the text and what they return without it. -/
theorem getter_eq {α : Type*} (read : CStr → α) (fallback : α) :
    (match ini.getSection szSection with
      | none => fallback
      | some p =>
        match getValue p szKey with
        | none => fallback
        | some szValue => read szValue) =
      ((ini.stored szSection szKey).map read).getD fallback := by
  rw [stored, getSection]
  cases ini.mInifile[lowercase szSection.chars]? with
  | none => rfl
  | some entries =>
    simp only [getValue, Option.bind_some]
    cases entries[lowercase szKey.chars]? <;> rfl

theorem getString_eq (szDefault : CStr) :
    ini.getString szSection szKey szDefault =
      ((ini.stored szSection szKey).getD szDefault).chars := by
  have hgetter : ini.getString szSection szKey szDefault =
      ((ini.stored szSection szKey).map CStr.chars).getD szDefault.chars := getter_eq _ _
  rw [hgetter]
  cases ini.stored szSection szKey <;> rfl

theorem getInteger_eq (nDefault : Int32) :
    ini.getInteger szSection szKey nDefault =
      ((ini.stored szSection szKey).map toInteger).getD nDefault :=
  getter_eq toInteger nDefault

theorem getBool_eq (bDefault : Bool) :
    ini.getBool szSection szKey bDefault =
      ((ini.stored szSection szKey).map toBool).getD bDefault := by
  have hgetter : ini.getStringLowercase szSection szKey (boolText bDefault) =
      ((ini.stored szSection szKey).map fun szValue ↦ lowercase szValue.chars).getD
        (boolText bDefault).chars := getter_eq _ _
  rw [getBool, hgetter]
  cases ini.stored szSection szKey with
  | none => cases bDefault <;> rfl
  | some szValue => rfl

/-! ### What the setters change -/

/-- An entry that is set is found under all names that are the same in lower case, if its key is in
lower case. Nothing else that is found changes. -/
theorem stored_assign (value : Str) (otherSection otherKey : CStr) :
    (ini.assign szSection szKey value).stored otherSection otherKey =
      if lowercase szSection.chars = lowercase otherSection.chars ∧
          szKey.chars = lowercase otherKey.chars then
        some (CStr.ofString value)
      else ini.stored otherSection otherKey := by
  by_cases hsection : lowercase szSection.chars = lowercase otherSection.chars
  · rw [stored, assign, hsection]
    dsimp only
    rw [Std.ExtTreeMap.getElem?_insert_self, Option.bind_some, getElem?_insert_eq]
    by_cases hkey : szKey.chars = lowercase otherKey.chars
    · rw [if_pos hkey, if_pos ⟨rfl, hkey⟩]
      rfl
    · rw [if_neg hkey, if_neg fun hboth ↦ hkey hboth.2, stored]
      cases ini.mInifile[lowercase otherSection.chars]? with
      | none => simp only [Option.getD_none, Std.ExtTreeMap.getElem?_empty, Option.bind_none]
      | some entries => rfl
  · rw [if_neg fun hboth ↦ hsection hboth.1, stored, assign]
    dsimp only
    rw [getElem?_insert_of_ne _ hsection, stored]

/-- Two names of a section and of a key are the same up to the case of letters. -/
def SameNames (szSection szKey otherSection otherKey : CStr) : Prop :=
  lowercase szSection.chars = lowercase otherSection.chars ∧
    lowercase szKey.chars = lowercase otherKey.chars

/-- The frame of all setters. -/
theorem stored_assign_of_not_same {otherSection otherKey : CStr} (value : Str)
    (hother : ¬SameNames szSection szKey otherSection otherKey) :
    (ini.assign szSection szKey value).stored otherSection otherKey =
      ini.stored otherSection otherKey := by
  rw [stored_assign, if_neg]
  rintro ⟨hsection, hkey⟩
  refine hother ⟨hsection, ?_⟩
  rw [hkey, lowercase_lowercase]

/-! ### The law -/

/-- Setting gives what getting returns under the same names, whatever the default, and does not
change what getting returns under other names. -/
structure SetGetLaw {δ ρ : Type*} (get : IniFile → CStr → CStr → δ → ρ) (before after : IniFile)
    (szSection szKey : CStr) (value : ρ) : Prop where
  same : ∀ fallback, get after szSection szKey fallback = value
  other : ∀ otherSection otherKey, ¬SameNames szSection szKey otherSection otherKey →
    ∀ fallback, get after otherSection otherKey fallback = get before otherSection otherKey fallback

/-- A value is there for every default only if it is there. -/
theorem getD_eq_iff {α : Type*} [Nontrivial α] {found : Option α} {value : α} :
    (∀ fallback, found.getD fallback = value) ↔ found = some value := by
  constructor
  · intro hfound
    cases found with
    | none =>
      obtain ⟨fallback, hne⟩ := exists_ne value
      exact absurd (hfound fallback) hne
    | some found => exact congrArg some (hfound value)
  · rintro rfl fallback
    rfl

/-- The law of a setter that stores `text` and of a getter that reads texts: it holds if the key is
in lower case or if what is read under the names was the value before. -/
theorem setGetLaw_iff {α ρ : Type*} [Nontrivial α] {read : CStr → α} {out : α → ρ}
    (hout : Function.Injective out) {get : IniFile → CStr → CStr → α → ρ}
    (hget : ∀ (ini : IniFile) (szSection szKey : CStr) (fallback : α),
      get ini szSection szKey fallback =
        out (((ini.stored szSection szKey).map read).getD fallback))
    {text : Str} {value : α} (hread : read (CStr.ofString text) = value) :
    SetGetLaw get ini (ini.assign szSection szKey text) szSection szKey (out value) ↔
      lowercase szKey.chars = szKey.chars ∨ (ini.stored szSection szKey).map read = some value := by
  have hother : ∀ otherSection otherKey, ¬SameNames szSection szKey otherSection otherKey →
      ∀ fallback, get (ini.assign szSection szKey text) otherSection otherKey fallback =
        get ini otherSection otherKey fallback := by
    intro otherSection otherKey hnames fallback
    rw [hget, hget, stored_assign_of_not_same text hnames]
  have hsame : (∀ fallback,
      get (ini.assign szSection szKey text) szSection szKey fallback = out value) ↔
      lowercase szKey.chars = szKey.chars ∨ (ini.stored szSection szKey).map read = some value := by
    simp only [hget, hout.eq_iff, getD_eq_iff, stored_assign, true_and]
    by_cases hkey : szKey.chars = lowercase szKey.chars
    · rw [if_pos hkey, Option.map_some, hread]
      exact iff_of_true rfl (.inl hkey.symm)
    · rw [if_neg hkey, or_iff_right (Ne.symm hkey)]
  exact ⟨fun hlaw ↦ hsame.mp hlaw.same, fun hcondition ↦ ⟨hsame.mpr hcondition, hother⟩⟩

theorem setString_law_iff {value : CStr} (hvalue : value.chars ≠ []) :
    SetGetLaw getString ini (ini.setString (some szSection) (some szKey) (some value))
        szSection szKey value.chars ↔
      lowercase szKey.chars = szKey.chars ∨ ini.stored szSection szKey = some value := by
  have hset : ini.setString (some szSection) (some szKey) (some value) =
      ini.assign szSection szKey value.chars :=
    if_neg (by rwa [List.length_eq_zero_iff])
  have hget : ∀ (ini : IniFile) (szSection szKey fallback : CStr),
      ini.getString szSection szKey fallback =
        (((ini.stored szSection szKey).map id).getD fallback).chars := by
    intro ini szSection szKey fallback
    rw [getString_eq, Option.map_id_fun, id]
  have hlaw : SetGetLaw getString ini (ini.assign szSection szKey value.chars) szSection szKey
        value.chars ↔
      lowercase szKey.chars = szKey.chars ∨ (ini.stored szSection szKey).map id = some value :=
    setGetLaw_iff CStr.chars_injective hget (CStr.ofString_chars value)
  rw [hset, hlaw, Option.map_id_fun, id]

/-- The text of a number is not taken for a hexadecimal one. -/
theorem toInteger_formatInt (value : Int32) :
    toInteger (CStr.ofString (formatInt value)) = value := by
  have hmark : ∀ mark : UInt8, 57 < mark.toNat → (formatInt value)[1]? ≠ some mark := by
    intro mark hmark hindex
    exact absurd (toNat_mem_formatInt (List.mem_of_getElem? hindex)).2 (by omega)
  have hclean : 0 ∉ formatInt value := fun hzero ↦
    absurd (toNat_mem_formatInt hzero).1 (by decide)
  rw [CStr.ofString_eq hclean, toInteger, if_neg, atoi_formatInt]
  rintro ⟨-, hx | hx⟩
  · exact hmark _ (by decide) hx
  · exact hmark _ (by decide) hx

theorem setInteger_law_iff {value : Int32} :
    SetGetLaw getInteger ini (ini.setInteger (some szSection) (some szKey) value)
        szSection szKey value ↔
      lowercase szKey.chars = szKey.chars ∨
        (ini.stored szSection szKey).map toInteger = some value := by
  have hnontrivial : Nontrivial Int32 := ⟨0, 1, by decide⟩
  exact setGetLaw_iff Function.injective_id (fun _ _ _ ↦ getInteger_eq) (toInteger_formatInt value)

theorem setBool_law_iff {bValue : Bool} :
    SetGetLaw getBool ini (ini.setBool (some szSection) (some szKey) bValue)
        szSection szKey bValue ↔
      lowercase szKey.chars = szKey.chars ∨
        (ini.stored szSection szKey).map toBool = some bValue := by
  have hread : toBool (CStr.ofString (boolText bValue).chars) = bValue := by
    cases bValue <;> decide
  exact setGetLaw_iff Function.injective_id (fun _ _ _ ↦ getBool_eq) hread

/-- After every run, a value that is set is got back exactly if the key has no capital letters or if
the value was stored under the names in lower case already; other names never change. -/
theorem set_get_iff : ∀ (calls : List IniCall) (ini : IniFile),
    Run (stepOf next) empty calls ini → ∀ szSection szKey : CStr,
      (∀ value : CStr, value.chars ≠ [] →
        (SetGetLaw getString ini (ini.setString (some szSection) (some szKey) (some value))
            szSection szKey value.chars ↔
          lowercase szKey.chars = szKey.chars ∨ ini.stored szSection szKey = some value)) ∧
      (∀ value : Int32,
        (SetGetLaw getInteger ini (ini.setInteger (some szSection) (some szKey) value)
            szSection szKey value ↔
          lowercase szKey.chars = szKey.chars ∨
            (ini.stored szSection szKey).map toInteger = some value)) ∧
      ∀ bValue : Bool,
        (SetGetLaw getBool ini (ini.setBool (some szSection) (some szKey) bValue)
            szSection szKey bValue ↔
          lowercase szKey.chars = szKey.chars ∨
            (ini.stored szSection szKey).map toBool = some bValue) := by
  intro calls ini _ szSection szKey
  exact ⟨fun _ hvalue ↦ setString_law_iff hvalue, fun _ ↦ setInteger_law_iff,
    fun _ ↦ setBool_law_iff⟩

/-- A name in lower case. -/
def nameA : CStr := ⟨chars "a", by decide⟩

/-- A key with a capital letter. -/
def keyK : CStr := ⟨chars "K", by decide⟩

/-- After a load the value that is stored under `k` is got back under `K`, and any number is got
back under a key in lower case. -/
theorem set_get_iff_loaded :
    ∃ ini : IniFile, Run (stepOf next) empty
      [.load 3 (some (chars "[a]\nk=a\n"))] ini ∧
      SetGetLaw getString ini (ini.setString (some nameA) (some keyK) (some nameA)) nameA keyK
        nameA.chars ∧
      SetGetLaw getInteger ini (ini.setInteger (some nameA) (some nameA) (-5)) nameA nameA
        (-5) := by
  refine ⟨_, Run.of_eval rfl, ?_, ?_⟩
  · exact ((set_get_iff _ _ (Run.of_eval rfl) nameA keyK).1 nameA (by decide)).mpr
      (.inr (by decide +kernel))
  · exact ((set_get_iff _ _ (Run.of_eval rfl) nameA nameA).2.1 (-5)).mpr (.inl (by decide))

/-- What is set under the key `K` is not found under `K`. -/
theorem setString_loses_capital_key :
    Run (stepOf next) empty [] empty ∧ nameA.chars ≠ [] ∧
      (empty.setString (some nameA) (some keyK) (some nameA)).getString nameA keyK
        (boolText false) = chars "no" ∧
      ¬SetGetLaw getString empty (empty.setString (some nameA) (some keyK) (some nameA)) nameA keyK
        nameA.chars := by
  refine ⟨.refl, by decide, by decide +kernel, fun hlaw ↦ ?_⟩
  exact absurd (hlaw.same (boolText false)) (by decide +kernel)

end IniFile

end Exc.Ini
