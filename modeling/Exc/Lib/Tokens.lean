import Mathlib.Data.List.TakeWhile
import Mathlib.Logic.Basic

/-!
# Tokens

The pieces of a list between delimiters, without the empty ones. `tokens` says what they are;
`tokens_eq_cons` reads them off from the front, as a loop does.
-/

set_option autoImplicit false
set_option relaxedAutoImplicit false

namespace Exc.Lib

variable {α : Type*} [DecidableEq α] {delimiter : α}

/-- The pieces between delimiters that are not empty. -/
def tokens (delimiter : α) (list : List α) : List (List α) :=
  (list.splitOn delimiter).filter fun token ↦ token ≠ []

@[simp] theorem tokens_nil (delimiter : α) : tokens delimiter [] = [] := rfl

theorem ne_nil_of_mem_tokens {list token : List α} (htoken : token ∈ tokens delimiter list) :
    token ≠ [] := by
  simpa using (List.mem_filter.mp htoken).2

theorem tokens_append_cons (delimiter : α) (front back : List α) :
    tokens delimiter (front ++ delimiter :: back) =
      tokens delimiter front ++ tokens delimiter back := by
  rw [tokens, List.splitOn_append_cons_self, List.filter_append]
  rfl

theorem tokens_delimiter_cons (delimiter : α) (list : List α) :
    tokens delimiter (delimiter :: list) = tokens delimiter list := by
  simpa using tokens_append_cons delimiter [] list

/-- What has no delimiter is one token. -/
theorem tokens_eq_singleton {token : List α} (hne : token ≠ []) (hclean : delimiter ∉ token) :
    tokens delimiter token = [token] := by
  rw [tokens, List.splitOn_eq_singleton hclean, List.filter_cons_of_pos (by simpa using hne),
    List.filter_nil]

/-- What is left behind delimiters does not begin with one. -/
theorem head?_dropWhile_ne (delimiter : α) (list : List α) :
    (list.dropWhile (· = delimiter)).head? ≠ some delimiter := by
  intro hhead
  have hnot := List.head?_dropWhile_not (fun char ↦ decide (char = delimiter)) list
  rw [hhead] at hnot
  simp at hnot

/-- Delimiters in front do not matter. -/
theorem tokens_dropWhile (delimiter : α) (list : List α) :
    tokens delimiter (list.dropWhile (· = delimiter)) = tokens delimiter list := by
  induction list with
  | nil => rfl
  | cons head rest ih =>
    by_cases hhead : head = delimiter
    · subst hhead
      rw [List.dropWhile_cons_of_pos (by simp), tokens_delimiter_cons, ih]
    · rw [List.dropWhile_cons_of_neg (by simpa using hhead)]

/-- The first token ends at the first delimiter. -/
theorem tokens_eq_cons {head : α} (hhead : head ≠ delimiter) (rest : List α) :
    tokens delimiter (head :: rest) =
      (head :: rest).takeWhile (· ≠ delimiter) ::
        tokens delimiter ((head :: rest).dropWhile (· ≠ delimiter)) := by
  have hclean : delimiter ∉ (head :: rest).takeWhile (· ≠ delimiter) := by
    intro hmem
    simpa using List.mem_takeWhile_imp hmem
  have hne : (head :: rest).takeWhile (· ≠ delimiter) ≠ [] := by
    rw [List.takeWhile_cons_of_pos (by simpa using hhead)]
    exact List.cons_ne_nil _ _
  have hsplit : (head :: rest).takeWhile (· ≠ delimiter) ++
      (head :: rest).dropWhile (· ≠ delimiter) = head :: rest := List.takeWhile_append_dropWhile
  cases hback : (head :: rest).dropWhile (· ≠ delimiter) with
  | nil =>
    rw [hback, List.append_nil] at hsplit
    rw [tokens_nil, hsplit, ← hsplit, tokens_eq_singleton hne hclean]
  | cons stop back =>
    have hstop : stop = delimiter := by
      have hnot := List.head_dropWhile_not (fun char ↦ decide (char ≠ delimiter))
        (List.ne_nil_of_mem (hback ▸ List.mem_cons_self))
      simp only [hback, List.head_cons, decide_eq_false_iff_not, not_not] at hnot
      exact hnot
    subst hstop
    rw [hback] at hsplit
    calc tokens stop (head :: rest)
        = tokens stop ((head :: rest).takeWhile (· ≠ stop) ++ stop :: back) := by rw [hsplit]
      _ = (head :: rest).takeWhile (· ≠ stop) :: tokens stop back := by
          rw [tokens_append_cons, tokens_eq_singleton hne hclean, List.singleton_append]
      _ = (head :: rest).takeWhile (· ≠ stop) :: tokens stop (stop :: back) := by
          rw [tokens_delimiter_cons]

end Exc.Lib
