import Exc.Cfg.CfgOp

/-!
# Writing an item and reading it back

`WriteCfgItem` works on the pieces that `fgets` gives: the pieces that contain the key become the
item (`rewriteLine`), and all others stay (`writeLoop_eq`). A piece that is replaced ends with a
newline, so the new contents are read in the same pieces (`fgetsLines_rewritten`), of which only the
item contains the key.

If no piece contains the key, the item is appended. It is read as a line of its own unless the last
line of the file has no newline: then it is joined to that line (`fgetsLines_joined`), and an `=` in
the line comes before the one of the item. `write_read_iff` is exact about when the value is read
back.
-/

set_option autoImplicit false
set_option relaxedAutoImplicit false

namespace Exc.Cfg

open Lib

/-- A key: not empty, and without `=` and newline. -/
structure IsKey (key : List UInt8) : Prop where
  ne_nil : key ≠ []
  noEq : '='.toUInt8 ∉ key
  noNewline : '\n'.toUInt8 ∉ key

/-- A value: not empty, and without blank and newline. -/
structure IsValue (value : List UInt8) : Prop where
  ne_nil : value ≠ []
  noBlank : ' '.toUInt8 ∉ value
  noNewline : '\n'.toUInt8 ∉ value

/-- What becomes of a piece. -/
def rewriteLine (key value line : List UInt8) : List UInt8 :=
  if key <:+: line then itemLine key value else line

/-- The pieces of the new contents, if one of the old ones contains the key. -/
def rewrittenLines (key value content : List UInt8) : List (List UInt8) :=
  (fgetsLines content).map (rewriteLine key value)

/-- The last line of the file has no newline, and it has not filled `lineBuf`. -/
def LastUnterminated (content last : List UInt8) : Prop :=
  (fgetsLines content).getLast? = some last ∧ IsPartial '\n'.toUInt8 (lineMaxLen - 1) last

/-- The new contents fit the buffers: the item and `filebuf`, and the item joined to the last line
of the file where this happens. -/
structure Fits (key value content : List UInt8) : Prop where
  item : (itemLine key value).length < lineMaxLen
  file : (rewrittenLines key value content).flatten.length < fileMaxLen
  joined : (∀ line ∈ fgetsLines content, ¬key <:+: line) →
    ∀ last, LastUnterminated content last → (last ++ itemLine key value).length < lineMaxLen

variable {key value content line : List UInt8}

/-! ### Pieces -/

theorem room_pos : 0 < lineMaxLen - 1 := by decide

theorem isPieces_fgetsLines (content : List UInt8) :
    IsPieces '\n'.toUInt8 (lineMaxLen - 1) (fgetsLines content) :=
  isPieces_readLines room_pos content

theorem flatten_fgetsLines (content : List UInt8) : (fgetsLines content).flatten = content :=
  flatten_readLines room_pos content

theorem fgetsLines_flatten {pieces : List (List UInt8)}
    (h : IsPieces '\n'.toUInt8 (lineMaxLen - 1) pieces) : fgetsLines pieces.flatten = pieces :=
  readLines_flatten h room_pos

theorem clean_of_mem_fgetsLines (hclean : 0 ∉ content) : ∀ line ∈ fgetsLines content, 0 ∉ line := by
  intro line hline hzero
  refine hclean ?_
  rw [← flatten_fgetsLines content]
  exact List.mem_flatten_of_mem hline hzero

/-- The item is a line, up to its length. -/
theorem isComplete_itemLine (hkey : IsKey key) (hvalue : '\n'.toUInt8 ∉ value) {front : List UInt8}
    (hfront : '\n'.toUInt8 ∉ front) {room : ℕ}
    (hlength : (front ++ itemLine key value).length ≤ room) :
    IsComplete '\n'.toUInt8 room (front ++ itemLine key value) := by
  refine Or.inr ⟨front ++ (key ++ chars " = " ++ value), ?_, ?_, hlength⟩
  · simp only [itemLine, List.append_assoc]
    rfl
  · have hmiddle : '\n'.toUInt8 ∉ chars " = " := by decide
    simp only [List.mem_append, not_or]
    exact ⟨hfront, ⟨hkey.noNewline, hmiddle⟩, hvalue⟩

theorem key_infix_itemLine (key value : List UInt8) : key <:+: itemLine key value := by
  refine ⟨[], chars " = " ++ value ++ chars "\n", ?_⟩
  simp only [itemLine, List.nil_append, List.append_assoc]

/-! ### What is read of a line -/

theorem afterEq_append {front : List UInt8} (hfront : '='.toUInt8 ∉ front) (rest : List UInt8) :
    afterEq (front ++ '='.toUInt8 :: rest) = rest := by
  have hpass : ∀ char ∈ front, decide (char ≠ '='.toUInt8) = true := by
    intro char hchar
    exact decide_eq_true fun heq ↦ hfront (heq ▸ hchar)
  rw [afterEq, List.dropWhile_append_of_pos hpass, List.dropWhile_cons_of_neg (by simp),
    List.tail_cons]

theorem afterEq_append_of_mem (hline : '='.toUInt8 ∈ line) (rest : List UInt8) :
    afterEq (line ++ rest) = afterEq line ++ rest := by
  obtain ⟨front, back, rfl, hfront⟩ := List.eq_append_cons_of_mem hline
  rw [List.append_assoc, List.cons_append, afterEq_append hfront, afterEq_append hfront]

theorem afterEq_itemLine (hkey : IsKey key) {front : List UInt8} (hfront : '='.toUInt8 ∉ front) :
    afterEq (front ++ itemLine key value) = chars " " ++ value ++ chars "\n" := by
  have hnone : '='.toUInt8 ∉ front ++ (key ++ chars " ") := by
    have hblank : '='.toUInt8 ∉ chars " " := by decide
    simp only [List.mem_append, not_or]
    exact ⟨hfront, hkey.noEq, hblank⟩
  have hitem : front ++ itemLine key value =
      (front ++ (key ++ chars " ")) ++ '='.toUInt8 :: (chars " " ++ value ++ chars "\n") := by
    simp only [itemLine, List.append_assoc]
    rfl
  rw [hitem, afterEq_append hnone]

/-- The value is the first word behind the `=` of its item. -/
theorem firstWord_value (hvalue : IsValue value) :
    firstWord (chars " " ++ value ++ chars "\n") = .ok (some value) := by
  obtain ⟨char, rest, rfl⟩ := List.exists_cons_of_ne_nil hvalue.ne_nil
  have hblank : char ≠ ' '.toUInt8 := fun heq ↦ hvalue.noBlank (heq ▸ List.mem_cons_self)
  have hnewline : char ≠ '\n'.toUInt8 := fun heq ↦ hvalue.noNewline (heq ▸ List.mem_cons_self)
  have hbegin : (chars " " ++ char :: rest ++ chars "\n").dropWhile
      (fun other ↦ other = ' '.toUInt8) = char :: rest ++ chars "\n" := by
    change (' '.toUInt8 :: char :: (rest ++ chars "\n")).dropWhile _ = _
    rw [List.dropWhile_cons_of_pos (by simp), List.dropWhile_cons_of_neg (by simpa using hblank)]
    rfl
  have hword : (char :: rest ++ chars "\n").takeWhile
      (fun other ↦ ¬(other = ' '.toUInt8 ∨ other = '\n'.toUInt8)) = char :: rest := by
    have hpass : ∀ other ∈ char :: rest,
        decide (¬(other = ' '.toUInt8 ∨ other = '\n'.toUInt8)) = true := by
      intro other hother
      refine decide_eq_true ?_
      rintro (rfl | rfl)
      · exact hvalue.noBlank hother
      · exact hvalue.noNewline hother
    rw [List.takeWhile_append_of_pos hpass]
    simp [chars]
  simp only [firstWord, hbegin, hword]
  rw [if_neg (by simpa using hnewline), if_pos (by simp [chars])]

/-! ### The loops -/

/-- A line that `GetCfgItem` takes the value from. -/
def Matches (key line : List UInt8) : Prop := '='.toUInt8 ∈ line ∧ key <:+: line

theorem getLoop_skip {front rest : List (List UInt8)} (hclean : ∀ line ∈ front, 0 ∉ line)
    (hfront : ∀ line ∈ front, ¬Matches key line) :
    getLoop key (front ++ rest) = getLoop key rest := by
  induction front with
  | nil => rfl
  | cons line front ih =>
    obtain ⟨hline, hclean⟩ := List.forall_mem_cons.mp hclean
    obtain ⟨hnone, hfront⟩ := List.forall_mem_cons.mp hfront
    rw [List.cons_append, getLoop, cstring_eq_self hline, ih hclean hfront]
    by_cases heq : '='.toUInt8 ∈ line
    · have hcontains : ¬key <:+: line := fun hcontains ↦ hnone ⟨heq, hcontains⟩
      rw [if_neg (not_not.mpr heq), if_pos hcontains]
    · rw [if_pos heq]

theorem getLoop_match {rest : List (List UInt8)} (hclean : 0 ∉ line) (hmatch : Matches key line) :
    getLoop key (line :: rest) = firstWord (afterEq line) := by
  rw [getLoop, cstring_eq_self hclean, if_neg (not_not.mpr hmatch.1),
    if_neg (not_not.mpr hmatch.2)]

/-- The loop of `WriteCfgItem`, if nothing overflows. -/
theorem writeLoop_eq {pieces : List (List UInt8)} (hclean : ∀ line ∈ pieces, 0 ∉ line)
    (hitem : (itemLine key value).length < lineMaxLen) (filebuf : List UInt8) (iTag : Bool)
    (hfile : (filebuf ++ (pieces.map (rewriteLine key value)).flatten).length < fileMaxLen) :
    writeLoop key value pieces filebuf iTag =
      .ok (filebuf ++ (pieces.map (rewriteLine key value)).flatten,
        iTag || decide (∃ line ∈ pieces, key <:+: line)) := by
  induction pieces generalizing filebuf iTag with
  | nil => simp [writeLoop]
  | cons line pieces ih =>
    obtain ⟨hline, hclean⟩ := List.forall_mem_cons.mp hclean
    rw [List.map_cons, List.flatten_cons, ← List.append_assoc] at hfile
    have hstrcat : strcat filebuf (rewriteLine key value line) =
        .ok (filebuf ++ rewriteLine key value line) := by
      rw [strcat, if_pos]
      rw [List.length_append] at hfile
      rw [← List.length_append]
      omega
    rw [writeLoop, cstring_eq_self hline, List.map_cons, List.flatten_cons, ← List.append_assoc]
    by_cases hcontains : key <:+: line
    · have hrewrite : rewriteLine key value line = itemLine key value := if_pos hcontains
      rw [hrewrite] at hstrcat hfile ⊢
      rw [if_neg (not_not.mpr hcontains), if_pos hitem, hstrcat]
      simp only [bind, Except.bind]
      rw [ih hclean _ _ hfile]
      simp [hcontains]
    · have hrewrite : rewriteLine key value line = line := if_neg hcontains
      rw [hrewrite] at hstrcat hfile ⊢
      rw [if_pos hcontains, hstrcat]
      simp only [bind, Except.bind]
      rw [ih hclean _ _ hfile]
      simp [hcontains]

/-! ### What the file is read as afterwards -/

/-- The new contents of a file. -/
def written (key value content : List UInt8) : List UInt8 :=
  if ∃ line ∈ fgetsLines content, key <:+: line then (rewrittenLines key value content).flatten
  else content ++ itemLine key value

/-- `WriteCfgItem` if nothing overflows. -/
theorem writeCfgItem_eq {pKey pValue : CStr} (hclean : 0 ∉ content)
    (hsize : content.length ≤ fileMaxLen)
    (hitem : (itemLine pKey.chars pValue.chars).length < lineMaxLen)
    (hfile : (rewrittenLines pKey.chars pValue.chars content).flatten.length < fileMaxLen) :
    writeCfgItem (some content) (some pKey) (some pValue) =
      .ok (0, some (written pKey.chars pValue.chars content)) := by
  have hloop := writeLoop_eq (clean_of_mem_fgetsLines hclean) hitem [] false hfile
  rw [List.nil_append, Bool.false_or] at hloop
  simp only [writeCfgItem, Option.getD_some, if_neg (not_lt.mpr hsize), hloop, bind, Except.bind]
  by_cases hfound : ∃ line ∈ fgetsLines content, pKey.chars <:+: line
  · simp [written, hfound, pure, Except.pure]
    rfl
  · simp [written, hfound, pure, Except.pure]

/-- Pieces that are rewritten are read as they were written. -/
theorem fgetsLines_rewritten (hkey : IsKey key) (hvalue : '\n'.toUInt8 ∉ value)
    (hitem : (itemLine key value).length < lineMaxLen) :
    fgetsLines (rewrittenLines key value content).flatten = rewrittenLines key value content := by
  refine fgetsLines_flatten ((isPieces_fgetsLines content).map fun line _ ↦ ?_)
  by_cases hcontains : key <:+: line
  · rw [rewriteLine, if_pos hcontains]
    exact Or.inr (isComplete_itemLine hkey hvalue List.not_mem_nil (Nat.le_sub_one_of_lt hitem))
  · exact Or.inl (if_neg hcontains)

/-- An item behind a complete line is a line of its own. -/
theorem fgetsLines_appended (hkey : IsKey key) (hvalue : '\n'.toUInt8 ∉ value)
    (hitem : (itemLine key value).length < lineMaxLen)
    (hlast : ∀ last, ¬LastUnterminated content last) :
    fgetsLines (content ++ itemLine key value) = fgetsLines content ++ [itemLine key value] := by
  have hcomplete : IsComplete '\n'.toUInt8 (lineMaxLen - 1) (itemLine key value) :=
    isComplete_itemLine hkey hvalue List.not_mem_nil (Nat.le_sub_one_of_lt hitem)
  have hpieces : IsPieces '\n'.toUInt8 (lineMaxLen - 1)
      (fgetsLines content ++ [itemLine key value]) := by
    refine isPieces_snoc.mpr ⟨?_, Or.inl hcomplete⟩
    rcases List.eq_nil_or_concat (fgetsLines content) with hnil | ⟨front, last, hsplit⟩
    · rw [hnil]
      exact List.forall_mem_nil _
    · rw [List.concat_eq_append] at hsplit
      obtain ⟨hfront, hend⟩ := isPieces_snoc.mp (hsplit ▸ isPieces_fgetsLines content)
      rw [hsplit, List.forall_mem_append, List.forall_mem_singleton]
      refine ⟨hfront, hend.resolve_right fun hpartial ↦ hlast last ⟨?_, hpartial⟩⟩
      rw [hsplit, List.getLast?_concat]
  have hread := fgetsLines_flatten hpieces
  rwa [List.flatten_append, flatten_fgetsLines, List.flatten_singleton] at hread

/-- An item behind a line without a newline is joined to it. -/
theorem fgetsLines_joined (hkey : IsKey key) (hvalue : '\n'.toUInt8 ∉ value)
    {last : List UInt8} (hlast : LastUnterminated content last)
    (hjoined : (last ++ itemLine key value).length < lineMaxLen) :
    ∃ front, fgetsLines content = front ++ [last] ∧
      fgetsLines (content ++ itemLine key value) = front ++ [last ++ itemLine key value] := by
  obtain ⟨front, hsplit⟩ := List.getLast?_eq_some_iff.mp hlast.1
  refine ⟨front, hsplit, ?_⟩
  obtain ⟨hfront, -⟩ := isPieces_snoc.mp (hsplit ▸ isPieces_fgetsLines content)
  have hpieces :
      IsPieces '\n'.toUInt8 (lineMaxLen - 1) (front ++ [last ++ itemLine key value]) := by
    refine isPieces_snoc.mpr ⟨hfront, Or.inl ?_⟩
    exact isComplete_itemLine hkey hvalue hlast.2.1 (Nat.le_sub_one_of_lt hjoined)
  have hread := fgetsLines_flatten hpieces
  have hcontent : content = front.flatten ++ last := by
    rw [← flatten_fgetsLines content, hsplit, List.flatten_append, List.flatten_singleton]
  rwa [List.flatten_append, List.flatten_singleton, ← List.append_assoc, ← hcontent] at hread

/-! ### The value is read back -/

theorem matches_itemLine (key value : List UInt8) : Matches key (itemLine key value) := by
  refine ⟨?_, key_infix_itemLine key value⟩
  have hmiddle : '='.toUInt8 ∈ chars " = " := by decide
  simp only [itemLine, List.mem_append]
  exact Or.inl (Or.inl (Or.inr hmiddle))

/-- A key that no piece before the item contains has the value of the item. -/
theorem getLoop_item (hkey : IsKey key) (hvalue : IsValue value) {front rest : List (List UInt8)}
    (hclean : ∀ line ∈ front, 0 ∉ line) (hitem : 0 ∉ itemLine key value)
    (hfront : ∀ line ∈ front, ¬key <:+: line) :
    getLoop key (front ++ itemLine key value :: rest) = .ok (some value) := by
  have hword : afterEq ([] ++ itemLine key value) = chars " " ++ value ++ chars "\n" :=
    afterEq_itemLine hkey List.not_mem_nil
  rw [List.nil_append] at hword
  rw [getLoop_skip hclean fun line hline hmatch ↦ hfront line hline hmatch.2,
    getLoop_match hitem (matches_itemLine key value), hword, firstWord_value hvalue]

theorem clean_itemLine (pKey pValue : CStr) : 0 ∉ itemLine pKey.chars pValue.chars := by
  have hmiddle : 0 ∉ chars " = " := by decide
  have hend : 0 ∉ chars "\n" := by decide
  simp only [itemLine, List.mem_append, not_or]
  exact ⟨⟨⟨pKey.clean, hmiddle⟩, pValue.clean⟩, hend⟩

/-- The first piece that contains the key becomes the first item. -/
theorem rewritten_split (value : List UInt8) (hfound : ∃ line ∈ fgetsLines content, key <:+: line) :
    ∃ front rest, (∀ line ∈ front, line ∈ fgetsLines content ∧ ¬key <:+: line) ∧
      rewrittenLines key value content = front ++ itemLine key value :: rest := by
  obtain ⟨front, first, rest, hsplit, hcontains, hfront⟩ := exists_first hfound
  refine ⟨front, rest.map (rewriteLine key value), fun line hline ↦ ⟨?_, hfront line hline⟩, ?_⟩
  · rw [hsplit]
    exact List.mem_append_left _ hline
  · have hkeep : front.map (rewriteLine key value) = front :=
      (List.map_congr_left fun line hline ↦ if_neg (hfront line hline)).trans (List.map_id' front)
    have hitem : rewriteLine key value first = itemLine key value := if_pos hcontains
    rw [rewrittenLines, hsplit, List.map_append, List.map_cons, hkeep, hitem]

/-- After `WriteCfgItem` the key has the value exactly if some piece of the file contains the key,
or if the last line, in case it has no newline, has no `=` or happens to give the value. -/
theorem write_read_iff {pKey pValue : CStr} (hclean : 0 ∉ content)
    (hsize : content.length ≤ fileMaxLen) (hkey : IsKey pKey.chars) (hvalue : IsValue pValue.chars)
    (hfits : Fits pKey.chars pValue.chars content) :
    ∃ after, writeCfgItem (some content) (some pKey) (some pValue) = .ok (0, some after) ∧
      (getCfgItem (some after) (some pKey) = .ok (0, some pValue.chars) ↔
        (∃ line ∈ fgetsLines content, pKey.chars <:+: line) ∨
          ∀ last, LastUnterminated content last → '='.toUInt8 ∉ last ∨
            firstWord (afterEq last ++ itemLine pKey.chars pValue.chars) =
              .ok (some pValue.chars)) := by
  refine ⟨_, writeCfgItem_eq hclean hsize hfits.item hfits.file, ?_⟩
  have hpieces := clean_of_mem_fgetsLines hclean
  have hitem := clean_itemLine pKey pValue
  have hget : ∀ after, getCfgItem (some after) (some pKey) = .ok (0, some pValue.chars) ↔
      getLoop pKey.chars (fgetsLines after) = .ok (some pValue.chars) := by
    intro after
    simp only [getCfgItem]
    cases getLoop pKey.chars (fgetsLines after) <;> simp [bind, Except.bind, pure, Except.pure]
  rw [hget, written]
  by_cases hfound : ∃ line ∈ fgetsLines content, pKey.chars <:+: line
  · rw [if_pos hfound, fgetsLines_rewritten hkey hvalue.noNewline hfits.item]
    obtain ⟨front, rest, hfront, hsplit⟩ := rewritten_split pValue.chars hfound
    refine iff_of_true ?_ (Or.inl hfound)
    rw [hsplit]
    exact getLoop_item hkey hvalue (fun line hline ↦ hpieces line (hfront line hline).1) hitem
      fun line hline ↦ (hfront line hline).2
  · have hnone : ∀ line ∈ fgetsLines content, ¬pKey.chars <:+: line := by simpa using hfound
    rw [if_neg hfound, or_iff_right hfound]
    by_cases hunterminated : ∃ last, LastUnterminated content last
    · obtain ⟨last, hlast⟩ := hunterminated
      obtain ⟨front, hsplit, hread⟩ :=
        fgetsLines_joined hkey hvalue.noNewline hlast (hfits.joined hnone last hlast)
      have hunique : ∀ other, LastUnterminated content other ↔ last = other :=
        fun other ↦
          ⟨fun hother ↦ Option.some.inj (hlast.1.symm.trans hother.1), fun heq ↦ heq ▸ hlast⟩
      have hmatch : Matches pKey.chars (last ++ itemLine pKey.chars pValue.chars) := by
        obtain ⟨heq, hcontains⟩ := matches_itemLine pKey.chars pValue.chars
        exact ⟨List.mem_append_right _ heq, hcontains.trans (List.suffix_append _ _).isInfix⟩
      rw [hsplit] at hpieces hnone
      rw [List.forall_mem_append, List.forall_mem_singleton] at hpieces hnone
      have hjoined : 0 ∉ last ++ itemLine pKey.chars pValue.chars := by
        rw [List.mem_append, not_or]
        exact ⟨hpieces.2, hitem⟩
      rw [hread, getLoop_skip hpieces.1 fun line hline hmatch ↦ hnone.1 line hline hmatch.2,
        getLoop_match hjoined hmatch]
      simp only [hunique, forall_eq']
      by_cases heq : '='.toUInt8 ∈ last
      · rw [afterEq_append_of_mem heq, or_iff_right (not_not.mpr heq)]
      · rw [afterEq_itemLine hkey heq]
        exact iff_of_true (firstWord_value hvalue) (Or.inl heq)
    · rw [not_exists] at hunterminated
      rw [fgetsLines_appended hkey hvalue.noNewline hfits.item hunterminated]
      exact iff_of_true (getLoop_item hkey hvalue hpieces hitem hnone)
        fun last hlast ↦ absurd hlast (hunterminated last)

/-- The key `k`. -/
def keyK : CStr := ⟨chars "k", by decide⟩

/-- The value `v`. -/
def valueV : CStr := ⟨chars "v", by decide⟩

theorem isKey_keyK : IsKey keyK.chars := ⟨by decide, by decide, by decide⟩

theorem isValue_valueV : IsValue valueV.chars := ⟨by decide, by decide, by decide⟩

/-- The value is read back if a line contains the key. -/
theorem write_read_replaced :
    ∃ after, writeCfgItem (some (chars "a=1\nk=0\n")) (some keyK) (some valueV) =
        .ok (0, some after) ∧
      getCfgItem (some after) (some keyK) = .ok (0, some valueV.chars) := by
  have hline : chars "k=0\n" ∈ fgetsLines (chars "a=1\nk=0\n") ∧
      keyK.chars <:+: chars "k=0\n" := by decide +kernel
  have hfits : Fits keyK.chars valueV.chars (chars "a=1\nk=0\n") :=
    ⟨by decide +kernel, by decide +kernel, fun hnone ↦ absurd hline.2 (hnone _ hline.1)⟩
  obtain ⟨after, hwrite, hread⟩ := write_read_iff (by decide) (by decide) isKey_keyK isValue_valueV
    hfits
  exact ⟨after, hwrite, hread.mpr (Or.inl ⟨_, hline⟩)⟩

/-- In a file that ends with `a=1` and no newline the item `k = v` is joined to the last line, and
`1k` is read. -/
theorem write_read_joined :
    0 ∉ chars "a=1" ∧ (chars "a=1").length ≤ fileMaxLen ∧ IsKey keyK.chars ∧
      IsValue valueV.chars ∧ Fits keyK.chars valueV.chars (chars "a=1") ∧
      writeCfgItem (some (chars "a=1")) (some keyK) (some valueV) =
        .ok (0, some (chars "a=1k = v\n")) ∧
      getCfgItem (some (chars "a=1k = v\n")) (some keyK) = .ok (0, some (chars "1k")) ∧
      chars "1k" ≠ valueV.chars := by
  refine ⟨by decide, by decide, isKey_keyK, isValue_valueV,
    ⟨by decide +kernel, by decide +kernel, ?_⟩,
    by decide +kernel, by decide +kernel, by decide⟩
  rintro - last ⟨hlast, -⟩
  have hpieces : (fgetsLines (chars "a=1")).getLast? = some (chars "a=1") := by decide +kernel
  obtain rfl : chars "a=1" = last := Option.some.inj (hpieces.symm.trans hlast)
  decide +kernel

end Exc.Cfg
