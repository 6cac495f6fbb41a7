import Mathlib.Data.List.Basic

/-!
# Lines

Facts about a text that is split at a separator, and reading a text piece by piece: `readLine` stops
behind a separator or when its room is used up, and `readLines` goes on to the end of the text.
`IsPieces` says which lists of pieces that gives: `readLines_flatten` reads such pieces back, and
`isPieces_readLines` says that all texts are read so. With room for the whole text the pieces are
its lines (`lines`); they are the pieces for less room too if they fit (`readLines_eq_lines`).
-/

set_option autoImplicit false
set_option relaxedAutoImplicit false

namespace Exc.Lib

variable {α : Type*} [DecidableEq α] {sep : α} {text line : List α}

/-- A part of a longer text is empty, a part of the shorter text, or one with the first character
before it. -/
theorem mem_splitOn_cons {first : α} {rest : List α} (hline : line ∈ (first :: rest).splitOn sep) :
    line = [] ∨ line ∈ rest.splitOn sep ∨
      ∃ part ∈ rest.splitOn sep, line = first :: part ∧ first ≠ sep := by
  rw [List.splitOn_cons_eq_if_modifyHead] at hline
  split_ifs at hline with hfirst
  · rcases List.mem_cons.mp hline with hempty | hrest
    · exact Or.inl hempty
    · exact Or.inr (Or.inl hrest)
  · cases hparts : rest.splitOn sep with
    | nil => exact absurd hparts (List.splitOn_ne_nil sep rest)
    | cons head tail =>
      rw [hparts, List.modifyHead_cons] at hline
      rcases List.mem_cons.mp hline with hhead | htail
      · have hne : first ≠ sep := fun heq ↦ hfirst (by simp [heq])
        exact Or.inr (Or.inr ⟨head, List.mem_cons_self, hhead, hne⟩)
      · exact Or.inr (Or.inl (List.mem_cons_of_mem _ htail))

/-- The parts of a text that is split at a separator do not have the separator. -/
theorem notMem_of_mem_splitOn (hline : line ∈ text.splitOn sep) : sep ∉ line := by
  induction text generalizing line with
  | nil =>
    rw [List.splitOn_nil, List.mem_singleton] at hline
    rw [hline]
    exact List.not_mem_nil
  | cons first rest ih =>
    rcases mem_splitOn_cons hline with rfl | hrest | ⟨part, hpart, rfl, hne⟩
    · exact List.not_mem_nil
    · exact ih hrest
    · rw [List.mem_cons, not_or]
      exact ⟨hne.symm, ih hpart⟩

/-- The parts of a text have characters of the text only. -/
theorem mem_of_mem_splitOn (hline : line ∈ text.splitOn sep) {char : α} (hchar : char ∈ line) :
    char ∈ text := by
  induction text generalizing line with
  | nil =>
    rw [List.splitOn_nil, List.mem_singleton] at hline
    exact hline ▸ hchar
  | cons first rest ih =>
    rcases mem_splitOn_cons hline with rfl | hrest | ⟨part, hpart, rfl, -⟩
    · exact absurd hchar List.not_mem_nil
    · exact List.mem_cons_of_mem _ (ih hrest hchar)
    · rcases List.mem_cons.mp hchar with rfl | hin
      · exact List.mem_cons_self
      · exact List.mem_cons_of_mem _ (ih hpart hin)

omit [DecidableEq α] in
/-- A list splits at the first element with a property. -/
theorem exists_first {property : α → Prop} (h : ∃ char ∈ text, property char) :
    ∃ front first rest, text = front ++ first :: rest ∧ property first ∧
      ∀ char ∈ front, ¬property char := by
  induction text with
  | nil =>
    obtain ⟨char, hchar, -⟩ := h
    exact absurd hchar List.not_mem_nil
  | cons char text ih =>
    by_cases hchar : property char
    · exact ⟨[], char, text, rfl, hchar, List.forall_mem_nil _⟩
    · obtain ⟨front, first, rest, rfl, hfirst, hfront⟩ := ih (by simpa [hchar] using h)
      exact ⟨char :: front, first, rest, rfl, hfirst, List.forall_mem_cons.mpr ⟨hchar, hfront⟩⟩

/-! ### Reading piece by piece -/

/-- Reads up to a separator, which is read too, and not more than there is room for: what is read,
and what is left. -/
def readLine (sep : α) : ℕ → List α → List α × List α
  | 0, text => ([], text)
  | _ + 1, [] => ([], [])
  | room + 1, char :: text =>
    if char = sep then ([char], text)
    else
      let (line, rest) := readLine sep room text
      (char :: line, rest)

/-- Reads a number of pieces, or up to the end of the text. -/
def readPieces (sep : α) (room : ℕ) : ℕ → List α → List (List α)
  | 0, _ => []
  | _ + 1, [] => []
  | count + 1, text =>
    let (line, rest) := readLine sep room text
    line :: readPieces sep room count rest

/-- Reads a text piece by piece up to its end. -/
def readLines (sep : α) (room : ℕ) (text : List α) : List (List α) :=
  readPieces sep room text.length text

/-- The lines of a text, each with its separator. -/
def lines (sep : α) (text : List α) : List (List α) := readLines sep (text.length + 1) text

/-- A piece behind which reading stops, whatever follows. -/
def IsComplete (sep : α) (room : ℕ) (piece : List α) : Prop :=
  (sep ∉ piece ∧ piece.length = room) ∨
    ∃ front, piece = front ++ [sep] ∧ sep ∉ front ∧ piece.length ≤ room

/-- A piece behind which reading stops only at the end of the text. -/
def IsPartial (sep : α) (room : ℕ) (piece : List α) : Prop :=
  sep ∉ piece ∧ piece ≠ [] ∧ piece.length < room

/-- All pieces are complete, but the last one may be partial. -/
def IsPieces (sep : α) (room : ℕ) : List (List α) → Prop
  | [] => True
  | piece :: rest =>
    (IsComplete sep room piece ∨ rest = [] ∧ IsPartial sep room piece) ∧ IsPieces sep room rest

variable {room : ℕ} {piece rest : List α} {pieces : List (List α)}

theorem readLine_of_room (hpiece : sep ∉ piece) :
    readLine sep piece.length (piece ++ rest) = (piece, rest) := by
  induction piece with
  | nil => rfl
  | cons char piece ih =>
    rw [List.mem_cons, not_or] at hpiece
    rw [List.length_cons, List.cons_append, readLine, if_neg (Ne.symm hpiece.1), ih hpiece.2]

theorem readLine_of_sep {front : List α} (hfront : sep ∉ front) (hroom : front.length < room) :
    readLine sep room (front ++ sep :: rest) = (front ++ [sep], rest) := by
  induction front generalizing room with
  | nil =>
    obtain ⟨room, rfl⟩ := Nat.exists_eq_succ_of_ne_zero (Nat.ne_zero_of_lt hroom)
    exact if_pos rfl
  | cons char front ih =>
    obtain ⟨room, rfl⟩ := Nat.exists_eq_succ_of_ne_zero (Nat.ne_zero_of_lt hroom)
    rw [List.mem_cons, not_or] at hfront
    rw [List.cons_append, readLine, if_neg (Ne.symm hfront.1),
      ih hfront.2 (Nat.lt_of_succ_lt_succ hroom)]
    rfl

theorem readLine_of_end (hpiece : sep ∉ piece) (hroom : piece.length < room) :
    readLine sep room piece = (piece, []) := by
  induction piece generalizing room with
  | nil =>
    obtain ⟨room, rfl⟩ := Nat.exists_eq_succ_of_ne_zero (Nat.ne_zero_of_lt hroom)
    rfl
  | cons char piece ih =>
    obtain ⟨room, rfl⟩ := Nat.exists_eq_succ_of_ne_zero (Nat.ne_zero_of_lt hroom)
    rw [List.mem_cons, not_or] at hpiece
    rw [readLine, if_neg (Ne.symm hpiece.1), ih hpiece.2 (Nat.lt_of_succ_lt_succ hroom)]

/-- Reading stops behind a complete piece. -/
theorem IsComplete.readLine_eq (h : IsComplete sep room piece) :
    readLine sep room (piece ++ rest) = (piece, rest) := by
  rcases h with ⟨hpiece, rfl⟩ | ⟨front, rfl, hfront, hlength⟩
  · exact readLine_of_room hpiece
  · rw [List.append_assoc, List.singleton_append]
    refine readLine_of_sep hfront ?_
    rw [List.length_append, List.length_singleton] at hlength
    omega

omit [DecidableEq α] in
theorem IsComplete.ne_nil (h : IsComplete sep room piece) (hroom : 0 < room) : piece ≠ [] := by
  rcases h with ⟨-, hlength⟩ | ⟨front, rfl, -⟩
  · rintro rfl
    exact Nat.ne_of_lt hroom hlength
  · simp

omit [DecidableEq α] in
theorem IsComplete.cons {char : α} (h : IsComplete sep room piece) (hchar : char ≠ sep) :
    IsComplete sep (room + 1) (char :: piece) := by
  rcases h with ⟨hpiece, rfl⟩ | ⟨front, rfl, hfront, hlength⟩
  · exact Or.inl ⟨by simp [hpiece, hchar.symm], rfl⟩
  · exact Or.inr ⟨char :: front, rfl, by simp [hfront, hchar.symm], Nat.succ_le_succ hlength⟩

/-- What is read is a complete piece, or the rest of the text. -/
theorem readLine_cases (sep : α) (hroom : 0 < room) (htext : text ≠ []) :
    (readLine sep room text).1 ++ (readLine sep room text).2 = text ∧
      (IsComplete sep room (readLine sep room text).1 ∨
        (readLine sep room text).2 = [] ∧ IsPartial sep room (readLine sep room text).1) := by
  induction text generalizing room with
  | nil => exact absurd rfl htext
  | cons char text ih =>
    obtain ⟨room, rfl⟩ := Nat.exists_eq_succ_of_ne_zero (Nat.ne_zero_of_lt hroom)
    rw [readLine]
    split_ifs with hchar
    · refine ⟨rfl, Or.inl (Or.inr ⟨[], by rw [hchar]; rfl, List.not_mem_nil, ?_⟩)⟩
      exact Nat.succ_le_succ (Nat.zero_le room)
    · by_cases hfull : room = 0
      · subst hfull
        exact ⟨rfl, Or.inl (Or.inl ⟨by simp [Ne.symm hchar, readLine], rfl⟩)⟩
      · have hpos : 0 < room := Nat.pos_of_ne_zero hfull
        by_cases hend : text = []
        · subst hend
          rw [readLine_of_end List.not_mem_nil hpos]
          exact ⟨rfl, Or.inr ⟨rfl, by simp [Ne.symm hchar], by simp, Nat.succ_lt_succ hpos⟩⟩
        · obtain ⟨hsplit, hpiece⟩ := ih hpos hend
          refine ⟨congrArg (char :: ·) hsplit, ?_⟩
          rcases hpiece with hcomplete | ⟨hrest, hnone, hne, hlength⟩
          · exact Or.inl (hcomplete.cons hchar)
          · refine Or.inr ⟨hrest, ?_, by simp, Nat.succ_lt_succ hlength⟩
            rw [List.mem_cons, not_or]
            exact ⟨Ne.symm hchar, hnone⟩

omit [DecidableEq α] in
theorem IsPieces.ne_nil (h : IsPieces sep room pieces) (hroom : 0 < room) :
    ∀ piece ∈ pieces, piece ≠ [] := by
  induction pieces with
  | nil => exact List.forall_mem_nil _
  | cons piece rest ih =>
    refine List.forall_mem_cons.mpr ⟨?_, ih h.2⟩
    rcases h.1 with hcomplete | ⟨-, hpartial⟩
    · exact hcomplete.ne_nil hroom
    · exact hpartial.2.1

omit [DecidableEq α] in
theorem IsPieces.length_le (h : IsPieces sep room pieces) :
    ∀ piece ∈ pieces, piece.length ≤ room := by
  induction pieces with
  | nil => exact List.forall_mem_nil _
  | cons piece rest ih =>
    refine List.forall_mem_cons.mpr ⟨?_, ih h.2⟩
    rcases h.1 with (⟨-, hlength⟩ | ⟨_, -, -, hlength⟩) | ⟨-, hpartial⟩
    · exact Nat.le_of_eq hlength
    · exact hlength
    · exact Nat.le_of_lt hpartial.2.2

theorem readPieces_flatten (h : IsPieces sep room pieces) (hroom : 0 < room) {count : ℕ}
    (hcount : pieces.flatten.length ≤ count) :
    readPieces sep room count pieces.flatten = pieces := by
  induction pieces generalizing count with
  | nil => cases count <;> rfl
  | cons piece rest ih =>
    have hne : piece ≠ [] := h.ne_nil hroom piece List.mem_cons_self
    have hpos : 0 < piece.length := List.length_pos_iff.mpr hne
    rw [List.flatten_cons, List.length_append] at hcount
    obtain ⟨count, rfl⟩ : ∃ fewer, count = fewer + 1 := ⟨count - 1, by omega⟩
    have hread : readLine sep room (piece ++ rest.flatten) = (piece, rest.flatten) := by
      rcases h.1 with hcomplete | ⟨rfl, hpartial⟩
      · exact hcomplete.readLine_eq
      · rw [List.flatten_nil, List.append_nil]
        exact readLine_of_end hpartial.1 hpartial.2.2
    obtain ⟨char, text, htext⟩ := List.exists_cons_of_ne_nil (List.append_ne_nil_of_left_ne_nil hne
      rest.flatten)
    rw [List.flatten_cons, htext, readPieces, ← htext, hread]
    · exact congrArg (piece :: ·) (ih h.2 (by omega))
    · simp

/-- Pieces are read back. -/
theorem readLines_flatten (h : IsPieces sep room pieces) (hroom : 0 < room) :
    readLines sep room pieces.flatten = pieces :=
  readPieces_flatten h hroom (Nat.le_refl _)

theorem readPieces_spec (hroom : 0 < room) {count : ℕ} (hcount : text.length ≤ count) :
    IsPieces sep room (readPieces sep room count text) ∧
      (readPieces sep room count text).flatten = text := by
  induction count generalizing text with
  | zero =>
    obtain rfl := List.length_eq_zero_iff.mp (Nat.le_zero.mp hcount)
    exact ⟨trivial, rfl⟩
  | succ count ih =>
    cases text with
    | nil => exact ⟨trivial, rfl⟩
    | cons char text =>
      obtain ⟨hsplit, hpiece⟩ := readLine_cases sep hroom (List.cons_ne_nil char text)
      have hpos : 0 < (readLine sep room (char :: text)).1.length := by
        rw [List.length_pos_iff]
        rcases hpiece with hcomplete | ⟨-, hpartial⟩
        · exact hcomplete.ne_nil hroom
        · exact hpartial.2.1
      have hlength := congrArg List.length hsplit
      rw [List.length_append] at hlength
      obtain ⟨hrest, hflatten⟩ := @ih (readLine sep room (char :: text)).2 (by omega)
      rw [readPieces]
      · refine ⟨⟨?_, hrest⟩, ?_⟩
        · rcases hpiece with hcomplete | ⟨hend, hpartial⟩
          · exact Or.inl hcomplete
          · refine Or.inr ⟨?_, hpartial⟩
            rw [hend]
            cases count <;> rfl
        · rw [List.flatten_cons, hflatten, hsplit]
      · simp

/-- Every text is read in pieces. -/
theorem isPieces_readLines (hroom : 0 < room) (text : List α) :
    IsPieces sep room (readLines sep room text) :=
  (readPieces_spec hroom (Nat.le_refl _)).1

theorem flatten_readLines (hroom : 0 < room) (text : List α) :
    (readLines sep room text).flatten = text :=
  (readPieces_spec hroom (Nat.le_refl _)).2

omit [DecidableEq α] in
theorem isPieces_snoc {front : List (List α)} {last : List α} :
    IsPieces sep room (front ++ [last]) ↔
      (∀ piece ∈ front, IsComplete sep room piece) ∧
        (IsComplete sep room last ∨ IsPartial sep room last) := by
  induction front with
  | nil => simp [IsPieces]
  | cons piece front ih =>
    rw [List.cons_append, IsPieces, ih, List.forall_mem_cons]
    simp [and_assoc]

omit [DecidableEq α] in
/-- A change of some pieces to complete ones leaves pieces. -/
theorem IsPieces.map {change : List α → List α} (h : IsPieces sep room pieces)
    (hchange : ∀ piece ∈ pieces, change piece = piece ∨ IsComplete sep room (change piece)) :
    IsPieces sep room (pieces.map change) := by
  induction pieces with
  | nil => trivial
  | cons piece rest ih =>
    obtain ⟨hpiece, hrest⟩ := List.forall_mem_cons.mp hchange
    refine ⟨?_, ih h.2 hrest⟩
    rcases hpiece with hsame | hcomplete
    · rw [hsame, List.map_eq_nil_iff]
      exact h.1
    · exact Or.inl hcomplete

end Exc.Lib
