import Exc.Lib.OrderedMap
import Mathlib.Data.List.Basic

/-!
# Renaming files

The files of a directory are a map from names to contents, and `rename` moves a file to a name and
replaces the file of that name. `renames` makes moves one after the other.

Moves are in order (`InOrder`) if no file is moved again after it has arrived. Then each file that
is moved arrives with the contents it had in the beginning, at a name that holds what was moved
there last: `getElem?_renames`. So all files are kept if no two of them are moved to one name, and
otherwise one is lost: `exists_lost`.
-/

set_option autoImplicit false
set_option relaxedAutoImplicit false

namespace Exc.Lib

open Std

variable {α β : Type*} {cmp : α → α → Ordering} [TransCmp cmp]

/-- `rename`, with the directory as it is if there is no such file. -/
def rename (files : ExtTreeMap α β cmp) (source target : α) : ExtTreeMap α β cmp :=
  match files[source]? with
  | some contents => (files.erase source).insert target contents
  | none => files

/-- Moves from a name to a name, one after the other. -/
def renames (moves : List (α × α)) (files : ExtTreeMap α β cmp) : ExtTreeMap α β cmp :=
  moves.foldl (fun files move ↦ rename files move.1 move.2) files

/-- No move goes to the source of a later one, no source is moved twice, and none stays. -/
structure InOrder (moves : List (α × α)) : Prop where
  forward : moves.Pairwise fun earlier later ↦ earlier.2 ≠ later.1
  sources : (moves.map Prod.fst).Nodup
  apart : ∀ move ∈ moves, move.1 ≠ move.2

theorem InOrder.init {moves : List (α × α)} {move : α × α} (horder : InOrder (moves ++ [move])) :
    InOrder moves ∧ (∀ earlier ∈ moves, earlier.2 ≠ move.1) ∧ move.1 ∉ moves.map Prod.fst ∧
      move.1 ≠ move.2 := by
  obtain ⟨hforward, hsources, hapart⟩ := horder
  obtain ⟨hmoves, -, hlast⟩ := List.pairwise_append.mp hforward
  rw [List.map_append, List.map_singleton] at hsources
  obtain ⟨hnodup, -, hdisjoint⟩ := List.nodup_append.mp hsources
  have hmember : move ∈ moves ++ [move] := List.mem_append_right _ (List.mem_singleton_self move)
  refine ⟨⟨hmoves, hnodup, fun other hother ↦ hapart other (List.mem_append_left _ hother)⟩,
    fun earlier hearlier ↦ hlast earlier hearlier move (List.mem_singleton_self move),
    fun hsource ↦ ?_, hapart move hmember⟩
  exact hdisjoint move.1 hsource move.1 (List.mem_singleton_self _) rfl

theorem renames_snoc (moves : List (α × α)) (move : α × α) (files : ExtTreeMap α β cmp) :
    renames (moves ++ [move]) files = rename (renames moves files) move.1 move.2 := by
  rw [renames, List.foldl_append]
  rfl

variable [LawfulEqCmp cmp] [DecidableEq α]

theorem getElem?_rename {files : ExtTreeMap α β cmp} {source : α} {contents : β}
    (hsource : files[source]? = some contents) (target name : α) :
    (rename files source target)[name]? =
      if target = name then some contents else if source = name then none else files[name]? := by
  rw [rename, hsource]
  dsimp only
  rw [getElem?_insert_eq]
  by_cases htarget : target = name
  · rw [if_pos htarget, if_pos htarget]
  · rw [if_neg htarget, if_neg htarget, ExtTreeMap.getElem?_erase]
    by_cases hname : source = name
    · rw [if_pos hname, if_pos (LawfulEqCmp.compare_eq_iff_eq.mpr hname)]
    · rw [if_neg hname, if_neg fun heq ↦ hname (LawfulEqCmp.eq_of_compare heq)]

theorem getElem?_rename_of_ne (files : ExtTreeMap α β cmp) {source target name : α}
    (htarget : target ≠ name) :
    (rename files source target)[name]? = if source = name then none else files[name]? := by
  cases hsource : files[source]? with
  | some contents => rw [getElem?_rename hsource, if_neg htarget]
  | none =>
    rw [rename, hsource]
    dsimp only
    by_cases hname : source = name
    · rw [if_pos hname, ← hname, hsource]
    · rw [if_neg hname]

/-- A name that nothing is moved to holds what it held, unless that was moved away. -/
theorem getElem?_renames_of_not_target {moves : List (α × α)} {name : α}
    (htarget : ∀ move ∈ moves, move.2 ≠ name) (files : ExtTreeMap α β cmp) :
    (renames moves files)[name]? = if name ∈ moves.map Prod.fst then none else files[name]? := by
  induction moves using List.reverseRecOn with
  | nil => rfl
  | append_singleton moves move ih =>
    rw [List.forall_mem_append, List.forall_mem_singleton] at htarget
    rw [renames_snoc, getElem?_rename_of_ne _ htarget.2, ih htarget.1, List.map_append,
      List.map_singleton]
    by_cases hname : move.1 = name
    · rw [if_pos hname, if_pos (by simp [hname])]
    · rw [if_neg hname]
      simp only [List.mem_append, List.mem_singleton, Ne.symm hname, or_false]

/-- After moves in order a name holds what was moved there last; if nothing was moved there, it
holds what it held, unless that was moved away. -/
theorem getElem?_renames {moves : List (α × α)} {files : ExtTreeMap α β cmp}
    (horder : InOrder moves) (hsources : ∀ move ∈ moves, move.1 ∈ files) (name : α) :
    (renames moves files)[name]? =
      match moves.reverse.find? fun move ↦ move.2 = name with
      | some move => files[move.1]?
      | none => if name ∈ moves.map Prod.fst then none else files[name]? := by
  cases hfind : moves.reverse.find? fun move ↦ move.2 = name with
  | none =>
    rw [List.find?_eq_none] at hfind
    exact getElem?_renames_of_not_target
      (fun move hmove ↦ by simpa using hfind move (List.mem_reverse.mpr hmove)) files
  | some last =>
    induction moves using List.reverseRecOn with
    | nil => cases hfind
    | append_singleton moves move ih =>
      obtain ⟨hmoves, hforward, hnew, hapart⟩ := horder.init
      rw [List.forall_mem_append, List.forall_mem_singleton] at hsources
      rw [List.reverse_append, List.reverse_singleton, List.singleton_append] at hfind
      rw [renames_snoc]
      by_cases htarget : move.2 = name
      · -- What is moved last is still as it was in the beginning.
        rw [List.find?_cons_of_pos (by simpa using htarget)] at hfind
        obtain rfl := Option.some.inj hfind
        obtain ⟨contents, hcontents⟩ := mem_iff_exists_getElem?.mp hsources.2
        have hsource : (renames moves files)[move.1]? = some contents := by
          rw [getElem?_renames_of_not_target hforward, if_neg hnew, hcontents]
        rw [getElem?_rename hsource, if_pos htarget]
        exact hcontents.symm
      · rw [List.find?_cons_of_neg (by simpa using htarget)] at hfind
        have hsame : move.1 ≠ name := by
          intro hname
          have hlast : last.2 = name := by simpa using List.find?_some hfind
          exact hforward last (List.mem_reverse.mp (List.mem_of_find?_eq_some hfind))
            (hlast.trans hname.symm)
        rw [getElem?_rename_of_ne _ htarget, if_neg hsame]
        exact ih hmoves hsources.1 hfind

section Moved

variable {moves : List (α × α)} {files : ExtTreeMap α β cmp} {move : α × α}

/-- What alone is moved to a name is there afterwards. -/
theorem getElem?_renames_target (horder : InOrder moves)
    (hsources : ∀ move ∈ moves, move.1 ∈ files) (hmove : move ∈ moves)
    (halone : ∀ other ∈ moves, other.2 = move.2 → other = move) :
    (renames moves files)[move.2]? = files[move.1]? := by
  rw [getElem?_renames horder hsources]
  cases hfind : moves.reverse.find? fun other ↦ other.2 = move.2 with
  | none =>
    rw [List.find?_eq_none] at hfind
    exact absurd (decide_eq_true rfl) (hfind move (List.mem_reverse.mpr hmove))
  | some other =>
    have htarget : other.2 = move.2 := by simpa using List.find?_some hfind
    rw [halone other (List.mem_reverse.mp (List.mem_of_find?_eq_some hfind)) htarget]

/-- Of two files that are moved to one name, one is lost, if no two files have the same
contents. -/
theorem exists_lost (horder : InOrder moves) (hsources : ∀ move ∈ moves, move.1 ∈ files)
    (hcontents : ∀ first ∈ files, ∀ second : α, files[first]? = files[second]? → first = second)
    {second : α × α} (hmove : move ∈ moves) (hsecond : second ∈ moves) (hne : move ≠ second)
    (htarget : move.2 = second.2) :
    ∃ lost ∈ moves, ∀ name : α, (renames moves files)[name]? ≠ files[lost.1]? := by
  -- A file whose move is not the last one to its target is nowhere afterwards.
  have hnowhere : ∀ lost ∈ moves,
      (moves.reverse.find? fun other ↦ other.2 = lost.2) ≠ some lost →
        ∀ name : α, (renames moves files)[name]? ≠ files[lost.1]? := by
    intro lost hlost hlast name hfound
    rw [getElem?_renames horder hsources] at hfound
    cases hfind : moves.reverse.find? fun other ↦ other.2 = name with
    | some last =>
      rw [hfind] at hfound
      have hmember : last ∈ moves := List.mem_reverse.mp (List.mem_of_find?_eq_some hfind)
      have hname : last.2 = name := by simpa using List.find?_some hfind
      have hsame : last = lost := List.inj_on_of_nodup_map horder.sources hmember hlost
        (hcontents last.1 (hsources last hmember) lost.1 hfound)
      subst hsame
      subst hname
      exact hlast hfind
    | none =>
      rw [hfind] at hfound
      dsimp only at hfound
      split_ifs at hfound with hsource
      · obtain ⟨contents, hlostContents⟩ := mem_iff_exists_getElem?.mp (hsources lost hlost)
        rw [hlostContents] at hfound
        cases hfound
      · have hname := hcontents lost.1 (hsources lost hlost) name hfound.symm
        exact hsource (hname ▸ List.mem_map_of_mem hlost)
  by_cases hlast : (moves.reverse.find? fun other ↦ other.2 = move.2) = some move
  · refine ⟨second, hsecond, hnowhere second hsecond ?_⟩
    rw [← htarget, hlast]
    exact fun heq ↦ hne (Option.some.inj heq)
  · exact ⟨move, hmove, hnowhere move hmove hlast⟩

end Moved

end Exc.Lib
