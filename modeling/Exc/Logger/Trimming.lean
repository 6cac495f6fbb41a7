import Exc.Lib.Trim
import Exc.Logger.Volumes
import Mathlib.Data.List.GetD

/-!
# Trimming a string

`util_strtrim` erases the blanks at the beginning, goes back from the end to the last character that
is not blank, and erases what is behind it. All of this moves one iterator, which is a position in
the string here; a move out of the string or a look at its end is a fault. Each loop ends, since it
makes the string shorter or the position smaller.

The test at the beginning is for the empty string, but the string can also become empty while the
blanks are erased. Then `s.end() - 1` is in front of the string. In all other cases the string is
trimmed (`utilStrtrim_ok_iff`), so that trimming is exact and safe if the string is empty or not all
of it is blank (`trimsExactly_iff`). `utilStrtrimIter_eq` connects the iterator to `utilStrtrim`,
which the comparator of the volumes uses.
-/

set_option autoImplicit false
set_option relaxedAutoImplicit false

namespace Exc.Logger

open Lib

/-! ### The iterator -/

/-- `iter - 1`, for an iterator of a string: not in front of its beginning. -/
def stepBack : ℕ → Except NameFault ℕ
  | 0 => .error .iterator
  | iter + 1 => .ok iter

/-- `++iter`: not behind the end. -/
def stepForward (s : Str) (iter : ℕ) : Except NameFault ℕ :=
  if iter < s.length then .ok (iter + 1) else .error .iterator

/-- The first and the last loop: characters are erased at `iter`, which stays where it is. -/
def eraseBlanks (s : Str) (iter : ℕ) : Except NameFault Str :=
  if iter = s.length then .ok s
  else if h : iter < s.length then
    if isBlank s[iter] then eraseBlanks (s.eraseIdx iter) iter else .ok s
  else .error .iterator
termination_by s.length
decreasing_by
  rw [List.length_eraseIdx_of_lt h]
  omega

/-- The loop between them, which goes back until `s.begin()` or to a character that is not blank. -/
def scanBack (s : Str) : ℕ → Except NameFault ℕ
  | 0 => .ok 0
  | iter + 1 =>
    if h : iter + 1 < s.length then
      if ¬isBlank s[iter + 1] then .ok (iter + 1) else scanBack s iter
    else .error .iterator

/-- `util_strtrim`, with its iterator. -/
def utilStrtrimIter (str : Str) : Except NameFault Str :=
  if str = [] then .ok str
  else do
    let s ← eraseBlanks str 0
    let iter ← stepBack s.length
    let iter ← scanBack s iter
    let iter ← stepForward s iter
    eraseBlanks s iter

/-! ### The loops -/

/-- The blanks from a position on are erased. By induction over what is behind it. -/
theorem eraseBlanks_append (front rest : Str) :
    eraseBlanks (front ++ rest) front.length = .ok (front ++ rest.dropWhile isBlank) := by
  induction rest with
  | nil =>
    rw [List.append_nil, eraseBlanks, if_pos rfl]
    simp
  | cons char rest ih =>
    have hlength : front.length < (front ++ char :: rest).length := by simp
    have hchar : (front ++ char :: rest)[front.length] = char := by simp
    have herase : (front ++ char :: rest).eraseIdx front.length = front ++ rest := by
      rw [List.eraseIdx_append_of_length_le le_rfl, Nat.sub_self, List.eraseIdx_cons_zero]
    rw [eraseBlanks, if_neg hlength.ne, dif_pos hlength, hchar, herase, ih]
    by_cases hblank : isBlank char
    · rw [if_pos hblank, List.dropWhile_cons_of_pos hblank]
    · rw [if_neg hblank, List.dropWhile_cons_of_neg hblank]

theorem eraseBlanks_zero (s : Str) : eraseBlanks s 0 = .ok (s.dropWhile isBlank) :=
  eraseBlanks_append [] s

theorem eraseBlanks_of_le {s : Str} {iter : ℕ} (hiter : iter ≤ s.length) :
    eraseBlanks s iter = .ok (s.take iter ++ (s.drop iter).dropWhile isBlank) := by
  have hloop := eraseBlanks_append (s.take iter) (s.drop iter)
  rwa [List.take_append_drop, List.length_take_of_le hiter] at hloop

/-- From inside the string the scan stays in it. -/
theorem scanBack_eq {s : Str} {iter : ℕ} (hiter : iter < s.length) :
    scanBack s iter = .ok (lastMark s iter) := by
  induction iter with
  | zero => rfl
  | succ iter ih =>
    rw [scanBack, dif_pos hiter, lastMark, List.getD_eq_getElem _ _ hiter, ih (by omega)]
    by_cases hblank : isBlank s[iter + 1]
    · rw [if_neg (not_not.mpr hblank), if_pos hblank]
    · rw [if_pos hblank, if_neg hblank]

theorem lastMark_le (s : Str) (iter : ℕ) : lastMark s iter ≤ iter := by
  induction iter with
  | zero => exact le_rfl
  | succ iter ih =>
    rw [lastMark]
    split_ifs
    · exact Nat.le_succ_of_le ih
    · exact le_rfl

/-- The iterator computes what `utilStrtrim` says. -/
theorem utilStrtrimIter_eq (str : Str) : utilStrtrimIter str = utilStrtrim str := by
  rw [utilStrtrimIter, utilStrtrim]
  by_cases hstr : str = []
  · rw [if_pos hstr, if_pos hstr]
  rw [if_neg hstr, if_neg hstr, eraseBlanks_zero]
  simp only [bind, Except.bind]
  cases hs : str.dropWhile isBlank with
  | nil => rfl
  | cons char rest =>
    have hend : (char :: rest).length - 1 < (char :: rest).length :=
      Nat.sub_lt (Nat.succ_pos _) Nat.one_pos
    have hmark : lastMark (char :: rest) ((char :: rest).length - 1) < (char :: rest).length :=
      (lastMark_le _ _).trans_lt hend
    have hback : stepBack (char :: rest).length = .ok ((char :: rest).length - 1) := rfl
    rw [if_neg (List.cons_ne_nil _ _), hback]
    dsimp only
    rw [scanBack_eq hend]
    dsimp only
    rw [stepForward, if_pos hmark]
    exact eraseBlanks_of_le hmark

/-! ### What is left -/

variable {str kept : Str}

/-- Behind the last character that is not blank, the scan goes back to it. -/
theorem lastMark_append {front back : Str} {char : UInt8} {iter : ℕ} (hchar : ¬isBlank char)
    (hback : ∀ blank ∈ back, isBlank blank) (hfront : front.length ≤ iter)
    (hiter : iter ≤ front.length + back.length) :
    lastMark (front ++ char :: back) iter = front.length := by
  induction iter with
  | zero => exact (Nat.le_zero.mp hfront).symm
  | succ iter ih =>
    rw [lastMark, List.getD_eq_getElem?_getD, List.getElem?_append_right hfront]
    obtain heq | hlt := hfront.eq_or_lt
    · rw [← heq, Nat.sub_self, List.getElem?_cons_zero, Option.getD_some, if_neg hchar]
    · obtain ⟨offset, hoffset⟩ : ∃ offset, iter + 1 - front.length = offset + 1 :=
        ⟨iter - front.length, by omega⟩
      have hinside : offset < back.length := by omega
      rw [hoffset, List.getElem?_cons_succ, List.getElem?_eq_getElem hinside, Option.getD_some,
        if_pos (hback _ (List.getElem_mem hinside)), ih (by omega) (by omega)]

/-- A string that is not all blank is trimmed. -/
theorem utilStrtrim_of_isTrim (h : IsTrim isBlank str kept) (hkept : kept ≠ []) :
    utilStrtrim str = .ok kept := by
  obtain ⟨⟨front, back, rfl, hfront, hback⟩, hhead, hlast⟩ := h
  have hdrop : (front ++ kept ++ back).dropWhile isBlank = kept ++ back := by
    obtain ⟨char, rest, rfl⟩ := List.exists_cons_of_ne_nil hkept
    rw [List.append_assoc, List.dropWhile_append_of_pos hfront, List.cons_append,
      List.dropWhile_cons_of_neg (hhead char rfl)]
  have hmark : lastMark (kept ++ back) ((kept ++ back).length - 1) + 1 = kept.length := by
    obtain ⟨init, char, rfl⟩ := (List.eq_nil_or_concat' kept).resolve_left hkept
    have hchar : ¬isBlank char := hlast char (by simp)
    rw [List.append_assoc, List.singleton_append,
      lastMark_append hchar hback (by simp) (by simp), List.length_append]
    rfl
  rw [utilStrtrim, if_neg (by simp [hkept]), hdrop]
  dsimp only
  rw [if_neg (by simp [hkept]), hmark, List.take_left, List.drop_left,
    List.dropWhile_eq_nil_iff.mpr hback, List.append_nil]

theorem utilStrtrim_of_blank (hne : str ≠ []) (hblank : ∀ char ∈ str, isBlank char) :
    utilStrtrim str = .error .iterator := by
  rw [utilStrtrim, if_neg hne, List.dropWhile_eq_nil_iff.mpr hblank]
  rfl

/-- What is returned for a string that is not all blank is its trim, and nothing else is one. -/
theorem utilStrtrim_ok_iff (hmark : ∃ char ∈ str, ¬isBlank char) :
    utilStrtrim str = .ok kept ↔ IsTrim isBlank str kept := by
  have hne {other : Str} (h : IsTrim isBlank str other) : other ≠ [] := by
    obtain ⟨char, hchar, hnot⟩ := hmark
    exact fun hnil ↦ hnot (h.eq_nil_iff.mp hnil char hchar)
  constructor
  · intro hok
    obtain ⟨other, h⟩ := exists_isTrim isBlank str
    rw [utilStrtrim_of_isTrim h (hne h)] at hok
    exact Except.ok.inj hok ▸ h
  · intro h
    exact utilStrtrim_of_isTrim h (hne h)

/-- The iterator stays in the string, and the result is the string without the blanks and tabs at
its two ends. -/
def TrimsExactly (str : Str) : Prop :=
  ∃ result, utilStrtrimIter str = .ok result ∧ IsTrim isBlank str result

/-- Trimming is exact and safe if and only if the string is empty or not all of it is blank. -/
theorem trimsExactly_iff (str : Str) :
    TrimsExactly str ↔ str = [] ∨ ∃ char ∈ str, ¬isBlank char := by
  unfold TrimsExactly
  rw [utilStrtrimIter_eq]
  constructor
  · rintro ⟨result, hok, -⟩
    by_contra hnot
    obtain ⟨hne, hblank⟩ := not_or.mp hnot
    push Not at hblank
    rw [utilStrtrim_of_blank hne hblank] at hok
    cases hok
  · rintro (rfl | hmark)
    · exact ⟨[], rfl, isTrim_self (by simp)⟩
    · obtain ⟨kept, h⟩ := exists_isTrim isBlank str
      exact ⟨kept, (utilStrtrim_ok_iff hmark).mpr h, h⟩

/-- One blank: the iterator is moved in front of the string that is empty by then. -/
theorem not_trimsExactly_blank :
    utilStrtrimIter [' '.toUInt8] = .error .iterator ∧ ¬∀ str, TrimsExactly str := by
  have hblank : ∀ char ∈ [' '.toUInt8], isBlank char := List.forall_mem_singleton.mpr rfl
  have hmoved : utilStrtrimIter [' '.toUInt8] = .error .iterator := by
    rw [utilStrtrimIter_eq, utilStrtrim_of_blank (List.cons_ne_nil _ _) hblank]
  refine ⟨hmoved, fun hall ↦ ?_⟩
  obtain ⟨result, hok, -⟩ := hall [' '.toUInt8]
  rw [hmoved] at hok
  cases hok

end Exc.Logger
