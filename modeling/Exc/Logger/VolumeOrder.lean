import Exc.Lib.Sorting
import Exc.Logger.Trimming

/-!
# The order of the volumes

`LogFilenameCompare` compares the numbers in two file names. It can be sorted with as long as all
names can be read, that is as long as each has a token for the number (`numberToken`) and this token
is not blank: `logFilenameCompare_safe_iff`. The names in a directory need not be like that: a file
with the name `gz` has no token before its last one.
-/

set_option autoImplicit false
set_option relaxedAutoImplicit false

namespace Exc.Logger

open Lib

/-- The character between the tokens of a name. -/
abbrev dot : UInt8 := '.'.toUInt8

/-! ### Splitting and trimming -/

/-- The loop of `util_strsplit` finds the tokens. -/
theorem utilStrsplitLoop_eq {c : UInt8} {fuel : ℕ} {rest : Str} (hfuel : rest.length ≤ fuel)
    (hstart : rest.head? ≠ some c) : utilStrsplitLoop c fuel rest = tokens c rest := by
  induction fuel generalizing rest with
  | zero =>
    obtain rfl := List.length_eq_zero_iff.mp (Nat.le_zero.mp hfuel)
    rfl
  | succ fuel ih =>
    cases rest with
    | nil => rfl
    | cons head tail =>
      have hhead : head ≠ c := fun heq ↦ hstart (by rw [List.head?_cons, heq])
      have hshort : ((head :: tail).dropWhile (· ≠ c)).length ≤ tail.length := by
        rw [List.dropWhile_cons_of_pos (by simpa using hhead)]
        exact (List.dropWhile_sublist _).length_le
      have hrest : (((head :: tail).dropWhile (· ≠ c)).dropWhile (· = c)).length ≤ fuel := by
        have hle := (List.dropWhile_sublist (fun char ↦ decide (char = c))
          (l := (head :: tail).dropWhile (· ≠ c))).length_le
        rw [List.length_cons] at hfuel
        omega
      rw [utilStrsplitLoop, if_neg (List.cons_ne_nil _ _), ih hrest (head?_dropWhile_ne c _),
        tokens_dropWhile, ← tokens_eq_cons hhead]

theorem utilStrsplit_eq (str : Str) (c : UInt8) : utilStrsplit str c = tokens c str := by
  have hfuel : (str.dropWhile (· = c)).length ≤ str.length :=
    (List.dropWhile_sublist _).length_le
  rw [utilStrsplit, utilStrsplitLoop_eq hfuel (head?_dropWhile_ne c str), tokens_dropWhile]

/-- A string without blanks is left as it is. -/
theorem utilStrtrim_eq_self {str : Str} (hclean : ∀ char ∈ str, ¬isBlank char) :
    utilStrtrim str = .ok str := by
  by_cases hne : str = []
  · subst hne
    rfl
  · exact utilStrtrim_of_isTrim (isTrim_self hclean) hne

/-- Trimming faults if everything is blank. -/
theorem utilStrtrim_isOk_iff {str : Str} (hne : str ≠ []) :
    (∃ trimmed, utilStrtrim str = .ok trimmed) ↔ str.any (!isBlank ·) := by
  constructor
  · rintro ⟨trimmed, htrimmed⟩
    by_contra hnone
    have hblank : ∀ char ∈ str, isBlank char := by simpa using hnone
    rw [utilStrtrim_of_blank hne hblank] at htrimmed
    cases htrimmed
  · intro hany
    have hmark : ∃ char ∈ str, ¬isBlank char := by simpa using hany
    obtain ⟨kept, h⟩ := exists_isTrim isBlank str
    exact ⟨kept, (utilStrtrim_ok_iff hmark).mpr h⟩

/-! ### The number in a name -/

/-- The token with the number: the last one, or the one before if the last one is `gz`. -/
def numberToken (name : Str) : Option Str :=
  match (tokens dot name).reverse with
  | [] => none
  | last :: rest => if last = chars "gz" then rest.head? else some last

/-- A name that can be read: it has no tokens, or a token for the number that is not blank. -/
def readable (name : Str) : Bool :=
  tokens dot name = [] || (numberToken name).any fun token ↦ token.any (!isBlank ·)

/-- A token counted from the end. -/
theorem tokenAt_reverse (reversed : List Str) (back : ℕ) :
    tokenAt reversed.reverse (back + 1) = inVector reversed[back]? := by
  rw [tokenAt, List.length_reverse]
  by_cases hback : back + 1 ≤ reversed.length
  · have hindex : reversed.length - 1 - (reversed.length - (back + 1)) = back := by omega
    rw [if_pos hback, List.getElem?_reverse (by omega), hindex]
  · rw [if_neg hback, List.getElem?_eq_none (by omega), inVector]

/-- The number of a name is that of its token. -/
theorem fileIndex_eq (name : Str) :
    fileIndex name =
      if tokens dot name = [] then .ok 0
      else
        match numberToken name with
        | none => .error .vector
        | some token => (utilStrtrim token).map fun trimmed ↦ atoi (cstring trimmed) := by
  rw [fileIndex, utilStrsplit_eq, numberToken]
  obtain ⟨reversed, hreversed⟩ : ∃ reversed, (tokens dot name).reverse = reversed := ⟨_, rfl⟩
  have htokens : tokens dot name = reversed.reverse := by rw [← hreversed, List.reverse_reverse]
  rw [htokens, List.reverse_reverse]
  cases reversed with
  | nil => rfl
  | cons last rest =>
    have hlast : tokenAt (last :: rest).reverse 1 = .ok last := tokenAt_reverse _ 0
    rw [if_neg (by simp), if_neg (by simp), hlast]
    by_cases hgz : last = chars "gz"
    · subst hgz
      have hbefore : tokenAt (chars "gz" :: rest).reverse 2 = _ := tokenAt_reverse _ 1
      rw [List.getElem?_cons_succ, ← List.head?_eq_getElem?] at hbefore
      simp only [if_true, Except.bind, bind, hbefore]
      cases rest.head? with
      | none => rfl
      | some token => cases utilStrtrim token <;> rfl
    · simp only [hgz, if_false, Except.bind, bind]
      cases utilStrtrim last <;> rfl

theorem mem_tokens_of_numberToken {name token : Str} (htoken : numberToken name = some token) :
    token ∈ tokens dot name := by
  rw [numberToken] at htoken
  rw [← List.mem_reverse]
  split at htoken
  · cases htoken
  · rename_i last rest hreversed
    rw [hreversed]
    split_ifs at htoken
    · exact List.mem_cons_of_mem last (List.mem_of_head? htoken)
    · exact Option.some.inj htoken ▸ List.mem_cons_self

/-- The names that can be read are those whose number can be evaluated. -/
theorem fileIndex_isOk_iff (name : Str) :
    (∃ index, fileIndex name = .ok index) ↔ readable name := by
  rw [fileIndex_eq, readable]
  by_cases hnone : tokens dot name = []
  · simp [hnone]
  · rw [if_neg hnone]
    cases htoken : numberToken name with
    | none => simp [hnone]
    | some token =>
      have hne := ne_nil_of_mem_tokens (mem_tokens_of_numberToken htoken)
      simp only [hnone, decide_false, Bool.false_or, Option.any_some]
      rw [← utilStrtrim_isOk_iff hne]
      cases utilStrtrim token <;> simp [Except.map]

/-! ### Comparing -/

theorem logFilenameCompare_eq {s1 s2 : Str} (hs1 : s1 ≠ []) (hs2 : s2 ≠ []) :
    logFilenameCompare s1 s2 =
      fileIndex s1 >>= fun index1 ↦ fileIndex s2 >>= fun index2 ↦
        pure (decide (index1.toInt < index2.toInt)) := by
  rw [logFilenameCompare, if_neg (by simp [hs1, hs2])]
  cases fileIndex s1 with
  | error fault => rfl
  | ok index1 =>
    cases fileIndex s2 with
    | error fault => rfl
    | ok index2 =>
      change (if index2 ≤ index1 then pure false else pure true) =
        pure (decide (index1.toInt < index2.toInt))
      by_cases hle : index2 ≤ index1
      · rw [if_pos hle, decide_eq_false (not_lt.mpr (Int32.le_iff_toInt_le.mp hle))]
      · rw [if_neg hle, decide_eq_true (not_le.mp (mt Int32.le_iff_toInt_le.mpr hle))]

/-- Names that can be read are compared by their numbers. -/
theorem safeOn_of_readable {names : Set Str} (hnames : ∀ name ∈ names, name ≠ [])
    (hreadable : ∀ name ∈ names, readable name) : SafeOn logFilenameCompare names := by
  choose! index hindex using fun name hname ↦ (fileIndex_isOk_iff name).mpr (hreadable name hname)
  refine safeOn_of_key (fun name ↦ (index name).toInt) ?_
  intro s1 hs1 s2 hs2
  rw [logFilenameCompare_eq (hnames s1 hs1) (hnames s2 hs2), hindex s1 hs1, hindex s2 hs2]
  exact ⟨_, rfl, decide_eq_true_iff⟩

/-- A name that cannot be read cannot be compared with anything. -/
theorem faultsAgainst_of_not_readable {name : Str} {names : List Str} (hname : name ≠ [])
    (hnames : ∀ other ∈ names, other ≠ []) (hreadable : ¬readable name) :
    FaultsAgainst logFilenameCompare name names := by
  obtain ⟨fault, hfault⟩ : ∃ fault, fileIndex name = .error fault := by
    cases hindex : fileIndex name with
    | error fault => exact ⟨fault, rfl⟩
    | ok index => exact absurd ((fileIndex_isOk_iff name).mp ⟨index, hindex⟩) hreadable
  intro other hother
  rw [logFilenameCompare_eq hname (hnames other hother),
    logFilenameCompare_eq (hnames other hother) hname, hfault]
  refine ⟨⟨fault, rfl⟩, ?_⟩
  cases fileIndex other with
  | error earlier => exact ⟨earlier, rfl⟩
  | ok index => exact ⟨fault, rfl⟩

/-- The comparator is safe to sort names with exactly if all of them can be read. -/
theorem logFilenameCompare_safe_iff {names : Set Str} (hnames : ∀ name ∈ names, name ≠ []) :
    SafeOn logFilenameCompare names ↔ ∀ name ∈ names, readable name := by
  constructor
  · intro hsafe name hname
    obtain ⟨less, hless⟩ := hsafe.evaluates name hname name hname
    by_contra hreadable
    have hfaults : FaultsAgainst logFilenameCompare name [name] :=
      faultsAgainst_of_not_readable (hnames name hname) (by simpa using hnames name hname) hreadable
    obtain ⟨⟨fault, hfault⟩, -⟩ := hfaults name List.mem_cons_self
    rw [hfault] at hless
    cases hless
  · exact safeOn_of_readable hnames

/-- The names of the current log and of two volumes can be sorted. -/
theorem logFilenameCompare_safe_volumes :
    SafeOn logFilenameCompare {chars "app.log", chars "app.log.1", chars "app.log.2.gz"} :=
  (logFilenameCompare_safe_iff (by rintro name (rfl | rfl | rfl) <;> decide)).mpr
    (by rintro name (rfl | rfl | rfl) <;> decide)

/-- The token before `gz` is outside of the vector of the name `gz`, and a blank token cannot be
trimmed. -/
theorem logFilenameCompare_not_safe :
    IsFileName (chars "gz") ∧ IsFileName (chars "a. ") ∧
      logFilenameCompare (chars "gz") (chars "app.log") = .error .vector ∧
      logFilenameCompare (chars "app.log") (chars "a. ") = .error .iterator ∧
      ¬SafeOn logFilenameCompare {name | IsFileName name} := by
  have hgz : IsFileName (chars "gz") := by decide
  have happ : IsFileName (chars "app.log") := by decide
  have hfault : logFilenameCompare (chars "gz") (chars "app.log") = .error .vector := by decide
  refine ⟨hgz, by decide, hfault, by decide, fun hsafe ↦ ?_⟩
  obtain ⟨less, hless⟩ := hsafe.evaluates (chars "gz") hgz (chars "app.log") happ
  rw [hfault] at hless
  cases hless

end Exc.Logger
