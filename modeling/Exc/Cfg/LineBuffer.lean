import Exc.Cfg.WriteRead

/-!
# The line buffer of `GetCfgItem`

The scanning loops of `GetCfgItem` on all 2048 bytes of `lineBuf`, a piece of the file with zeros
behind it. The first loop passes blanks, so it ends at the null byte at the latest. The second loop
ends at a blank or a newline only. If there is one behind the `=` and the blanks, `GetCfgItem`
copies the value. Otherwise the loop passes the null byte, and it leaves the buffer or stops at a
byte that does not belong to the line, so that the copy is too long (`copyValue_unterminated`). So
the loops do what they are for exactly on lines with such an end (`copiesValue_iff`).

`copyLoop_of_getLoop` connects this to `getLoop`, which only looks at the line.
-/

set_option autoImplicit false
set_option relaxedAutoImplicit false

namespace Exc.Cfg

open Lib

/-! ### The loops -/

/-- `lineBuf` after `memset` and `fgets`. -/
def fillBuf (piece : List UInt8) : List UInt8 :=
  piece ++ List.replicate (lineMaxLen - piece.length) 0

/-- `strchr(lineBuf, '=')`, as an offset. -/
def strchrEq (lineBuf : List UInt8) : Option ℕ :=
  if '='.toUInt8 ∈ cstring lineBuf then
    some ((cstring lineBuf).takeWhile fun char ↦ char ≠ '='.toUInt8).length
  else none

/-- Moves the offset `pTmp` on, over the bytes from it to the end of the buffer. -/
def scanWhile (goOn : UInt8 → Bool) : List UInt8 → ℕ → Except Fault ℕ
  | [], _ => .error .overrun
  | char :: rest, pTmp => if goOn char then scanWhile goOn rest (pTmp + 1) else .ok pTmp

/-- The loop that looks for the beginning of the value. -/
def findBegin (lineBuf : List UInt8) (pTmp : ℕ) : Except Fault ℕ :=
  scanWhile (fun char ↦ char = ' '.toUInt8) (lineBuf.drop pTmp) pTmp

/-- The loop that looks for the end of the value. -/
def findEnd (lineBuf : List UInt8) (pTmp : ℕ) : Except Fault ℕ :=
  scanWhile (fun char ↦ ¬(char = ' '.toUInt8 ∨ char = '\n'.toUInt8)) (lineBuf.drop pTmp) pTmp

/-- `GetCfgItem` behind the `=`: the number of bytes that are copied to `pValue`, and these bytes;
nothing is copied if there is a newline instead of a value. -/
def copyValue (lineBuf : List UInt8) (pTmp : ℕ) : Except Fault (Option (ℕ × List UInt8)) := do
  let pBegin ← findBegin lineBuf pTmp
  if lineBuf[pBegin]? = some '\n'.toUInt8 then pure none
  else
    let pEnd ← findEnd lineBuf pBegin
    pure (some (pEnd - pBegin, (lineBuf.drop pBegin).take (pEnd - pBegin)))

/-- The loop of `GetCfgItem`. -/
def copyLoop (pKey : List UInt8) : List (List UInt8) → Except Fault (Option (ℕ × List UInt8))
  | [] => .ok none
  | piece :: rest =>
    let lineBuf := fillBuf piece
    match strchrEq lineBuf with
    | none => copyLoop pKey rest
    | some pTmp =>
      if ¬pKey <:+: cstring lineBuf then copyLoop pKey rest
      else copyValue lineBuf (pTmp + 1)

/-! ### Scanning -/

variable {goOn : UInt8 → Bool} {front rest : List UInt8} {pTmp : ℕ}

theorem scanWhile_pass (hfront : ∀ char ∈ front, goOn char = true) (rest : List UInt8) (pTmp : ℕ) :
    scanWhile goOn (front ++ rest) pTmp = scanWhile goOn rest (pTmp + front.length) := by
  induction front generalizing pTmp with
  | nil => rfl
  | cons char front ih =>
    obtain ⟨hchar, hfront⟩ := List.forall_mem_cons.mp hfront
    rw [List.cons_append, scanWhile, if_pos hchar, ih hfront, List.length_cons]
    congr 1
    omega

theorem scanWhile_stop (hfront : ∀ char ∈ front, goOn char = true) {char : UInt8}
    (hchar : ¬goOn char = true) (rest : List UInt8) (pTmp : ℕ) :
    scanWhile goOn (front ++ char :: rest) pTmp = .ok (pTmp + front.length) := by
  rw [scanWhile_pass hfront, scanWhile, if_neg hchar]

theorem le_of_scanWhile {suffix : List UInt8} {pEnd : ℕ}
    (hscan : scanWhile goOn suffix pTmp = .ok pEnd) : pTmp ≤ pEnd := by
  induction suffix generalizing pTmp with
  | nil => cases hscan
  | cons char suffix ih =>
    rw [scanWhile] at hscan
    split_ifs at hscan
    · exact (Nat.le_succ pTmp).trans (ih hscan)
    · cases hscan
      exact le_rfl

/-! ### A line in the buffer -/

/-- What is behind the `=` and the blanks of a line. -/
def valueField (line : List UInt8) : List UInt8 :=
  (afterEq (cstring line)).dropWhile fun char ↦ char = ' '.toUInt8

/-- The characters of the value on a line. -/
def valueChars (line : List UInt8) : List UInt8 :=
  (valueField line).takeWhile fun char ↦ ¬(char = ' '.toUInt8 ∨ char = '\n'.toUInt8)

/-- A blank or a newline ends the value. -/
def ValueEnds (line : List UInt8) : Prop :=
  ' '.toUInt8 ∈ valueField line ∨ '\n'.toUInt8 ∈ valueField line

instance (line : List UInt8) : Decidable (ValueEnds line) := inferInstanceAs (Decidable (_ ∨ _))

variable {piece : List UInt8}

theorem cstring_fillBuf (piece : List UInt8) : cstring (fillBuf piece) = cstring piece :=
  cstring_append_replicate _ _

/-- There is a null byte behind the line. -/
theorem fillBuf_split (hlength : piece.length < lineMaxLen) :
    ∃ tail, fillBuf piece = cstring piece ++ 0 :: tail := by
  by_cases hzero : 0 ∈ piece
  · obtain ⟨front, back, rfl, hfront⟩ := List.eq_append_cons_of_mem hzero
    have hline : cstring (front ++ 0 :: back) = front := by
      rw [cstring, List.takeWhile_append_of_pos (ne_zero_of_clean hfront)]
      simp
    exact ⟨_, by rw [fillBuf, hline, List.append_assoc, List.cons_append]⟩
  · obtain ⟨count, hcount⟩ : ∃ count, lineMaxLen - piece.length = count + 1 :=
      ⟨lineMaxLen - piece.length - 1, by omega⟩
    exact ⟨List.replicate count 0, by
      rw [fillBuf, cstring_eq_self hzero, hcount, List.replicate_succ]⟩

theorem strchrEq_eq_none (heq : '='.toUInt8 ∉ cstring piece) : strchrEq (fillBuf piece) = none := by
  rw [strchrEq, cstring_fillBuf, if_neg heq]

/-- Behind the `=` there is the rest of the line and a null byte. -/
theorem strchrEq_eq_some (hlength : piece.length < lineMaxLen) (heq : '='.toUInt8 ∈ cstring piece) :
    ∃ pTmp tail, strchrEq (fillBuf piece) = some pTmp ∧
      (fillBuf piece).drop (pTmp + 1) = afterEq (cstring piece) ++ 0 :: tail := by
  obtain ⟨tail, hsplit⟩ := fillBuf_split hlength
  obtain ⟨front, back, hline, hfront⟩ := List.eq_append_cons_of_mem heq
  have hpass : ∀ char ∈ front, decide (char ≠ '='.toUInt8) = true := fun char hchar ↦
    decide_eq_true fun hsame ↦ hfront (hsame ▸ hchar)
  refine ⟨front.length, tail, ?_, ?_⟩
  · rw [strchrEq, cstring_fillBuf, if_pos heq, hline, List.takeWhile_append_of_pos hpass]
    simp
  · have hbuf : fillBuf piece = (front ++ ['='.toUInt8]) ++ (back ++ 0 :: tail) := by
      rw [hsplit, hline]
      simp only [List.append_assoc, List.cons_append, List.nil_append]
    rw [hbuf, hline, afterEq_append hfront]
    exact List.drop_left' (by rw [List.length_append, List.length_singleton])

theorem valueField_split (hends : ValueEnds piece) : ∃ char rest,
    valueField piece = valueChars piece ++ char :: rest ∧
      (char = ' '.toUInt8 ∨ char = '\n'.toUInt8) := by
  have hsplit : valueField piece = valueChars piece ++ (valueField piece).dropWhile fun char ↦
      ¬(char = ' '.toUInt8 ∨ char = '\n'.toUInt8) := List.takeWhile_append_dropWhile.symm
  cases hrest : (valueField piece).dropWhile fun char ↦
      ¬(char = ' '.toUInt8 ∨ char = '\n'.toUInt8) with
  | nil =>
    have hnone := List.dropWhile_eq_nil_iff.mp hrest
    rcases hends with hblank | hnewline
    · exact absurd (hnone _ hblank) (by decide)
    · exact absurd (hnone _ hnewline) (by decide)
  | cons char rest =>
    rw [hrest] at hsplit
    have hhead := List.head?_dropWhile_not (fun char ↦
      decide ¬(char = ' '.toUInt8 ∨ char = '\n'.toUInt8)) (valueField piece)
    rw [hrest] at hhead
    exact ⟨char, rest, hsplit, by simpa [or_iff_not_imp_left] using hhead⟩

/-- Without an end, the value is all that is left of the line. -/
theorem goOn_of_not_ends (hends : ¬ValueEnds piece) : ∀ char ∈ valueField piece,
    decide (¬(char = ' '.toUInt8 ∨ char = '\n'.toUInt8)) = true := by
  obtain ⟨hblank, hnewline⟩ := not_or.mp hends
  intro char hchar
  refine decide_eq_true ?_
  rintro (rfl | rfl)
  · exact hblank hchar
  · exact hnewline hchar

theorem valueChars_of_not_ends (hends : ¬ValueEnds piece) : valueChars piece = valueField piece :=
  List.takeWhile_eq_self_iff.mpr (goOn_of_not_ends hends)

theorem goOn_of_mem_valueChars : ∀ char ∈ valueChars piece,
    decide (¬(char = ' '.toUInt8 ∨ char = '\n'.toUInt8)) = true :=
  fun _ ↦ List.mem_takeWhile_imp

section Line

variable {lineBuf tail : List UInt8}
  (hline : lineBuf.drop pTmp = afterEq (cstring piece) ++ 0 :: tail)

include hline

/-- The first loop ends behind the blanks. -/
theorem findBegin_eq : ∃ pBegin, findBegin lineBuf pTmp = .ok pBegin ∧
    lineBuf.drop pBegin = valueField piece ++ 0 :: tail := by
  obtain ⟨blanks, hblanks, hall⟩ : ∃ blanks, afterEq (cstring piece) = blanks ++ valueField piece ∧
      ∀ char ∈ blanks, decide (char = ' '.toUInt8) = true :=
    ⟨_, List.takeWhile_append_dropWhile.symm, fun _ ↦ List.mem_takeWhile_imp⟩
  rw [hblanks, List.append_assoc] at hline
  refine ⟨pTmp + blanks.length, ?_, ?_⟩
  · rw [findBegin, hline]
    cases hfield : valueField piece with
    | nil => exact scanWhile_stop hall (by decide) tail pTmp
    | cons char field =>
      refine scanWhile_stop hall ?_ _ pTmp
      have hhead := List.head?_dropWhile_not (fun char ↦ decide (char = ' '.toUInt8))
        (afterEq (cstring piece))
      rw [← valueField, hfield] at hhead
      simpa using hhead
  · rw [← List.drop_drop, hline, List.drop_left]

/-- If the value has an end, it is copied. -/
theorem copyValue_ends (hends : ValueEnds piece) :
    copyValue lineBuf pTmp = .ok (if (valueField piece).head? = some '\n'.toUInt8 then none
      else some ((valueChars piece).length, valueChars piece)) := by
  obtain ⟨pBegin, hbegin, hfield⟩ := findBegin_eq hline
  obtain ⟨char, rest, hsplit, hchar⟩ := valueField_split hends
  have hhead : lineBuf[pBegin]? = (valueField piece).head? := by
    rw [← List.head?_drop, hfield, hsplit, List.append_assoc, List.cons_append, List.head?_append,
      List.head?_append, List.head?_cons, List.head?_cons]
  have hend : findEnd lineBuf pBegin = .ok (pBegin + (valueChars piece).length) := by
    rw [findEnd, hfield, hsplit, List.append_assoc, List.cons_append]
    exact scanWhile_stop goOn_of_mem_valueChars (fun hgoOn ↦ of_decide_eq_true hgoOn hchar) _ _
  have hcopy : (lineBuf.drop pBegin).take (valueChars piece).length = valueChars piece := by
    rw [hfield, hsplit, List.append_assoc, List.take_left]
  simp only [copyValue, hbegin, bind, Except.bind, hhead, hend, Nat.add_sub_cancel_left, hcopy]
  split_ifs <;> rfl

/-- If it has none, the second loop leaves the buffer or passes the end of the line. -/
theorem copyValue_unterminated (hends : ¬ValueEnds piece) {copied : Option (ℕ × List UInt8)}
    (hcopy : copyValue lineBuf pTmp = .ok copied) :
    ∃ count bytes, copied = some (count, bytes) ∧ (valueChars piece).length < count := by
  obtain ⟨pBegin, hbegin, hfield⟩ := findBegin_eq hline
  have hnewline : '\n'.toUInt8 ∉ valueField piece := (not_or.mp hends).2
  have hhead : lineBuf[pBegin]? ≠ some '\n'.toUInt8 := by
    rw [← List.head?_drop, hfield]
    intro hhead
    cases hcases : valueField piece with
    | nil =>
      rw [hcases] at hhead
      have hzero : (0 : UInt8) = '\n'.toUInt8 := Option.some.inj hhead
      exact absurd hzero (by decide)
    | cons char field =>
      rw [hcases] at hhead hnewline
      exact hnewline (Option.some.inj hhead ▸ List.mem_cons_self)
  simp only [copyValue, hbegin, bind, Except.bind, if_neg hhead] at hcopy
  cases hend : findEnd lineBuf pBegin with
  | error fault =>
    rw [hend] at hcopy
    cases hcopy
  | ok pEnd =>
    rw [hend] at hcopy
    obtain rfl := Except.ok.inj hcopy
    refine ⟨_, _, rfl, ?_⟩
    rw [findEnd, hfield, scanWhile_pass (goOn_of_not_ends hends), scanWhile,
      if_pos (by decide)] at hend
    have hle := le_of_scanWhile hend
    rw [valueChars_of_not_ends hends]
    omega

end Line

/-! ### The whole file -/

/-- The first line with an `=` that contains the key. -/
def matchingLine (key content : List UInt8) : Option (List UInt8) :=
  (fgetsLines content).find? fun line ↦ '='.toUInt8 ∈ cstring line ∧ key <:+: cstring line

theorem length_lt_fgetsLines (content : List UInt8) :
    ∀ piece ∈ fgetsLines content, piece.length < lineMaxLen := fun piece hpiece ↦
  Nat.lt_of_le_of_lt ((isPieces_fgetsLines content).length_le piece hpiece) (by decide)

/-- The loop stops at the first line that matches. -/
theorem copyLoop_eq (key : List UInt8) {pieces : List (List UInt8)}
    (hlength : ∀ piece ∈ pieces, piece.length < lineMaxLen) :
    (pieces.find? (fun line ↦ '='.toUInt8 ∈ cstring line ∧ key <:+: cstring line) = none ∧
        copyLoop key pieces = .ok none) ∨
      ∃ line lineBuf pTmp tail,
        pieces.find? (fun line ↦ '='.toUInt8 ∈ cstring line ∧ key <:+: cstring line) = some line ∧
        lineBuf.drop pTmp = afterEq (cstring line) ++ 0 :: tail ∧
        copyLoop key pieces = copyValue lineBuf pTmp := by
  induction pieces with
  | nil => exact .inl ⟨rfl, rfl⟩
  | cons piece rest ih =>
    obtain ⟨hpiece, hrest⟩ := List.forall_mem_cons.mp hlength
    rw [copyLoop, cstring_fillBuf]
    by_cases heq : '='.toUInt8 ∈ cstring piece
    · obtain ⟨pTmp, tail, hstrchr, hline⟩ := strchrEq_eq_some hpiece heq
      by_cases hcontains : key <:+: cstring piece
      · refine .inr ⟨piece, fillBuf piece, pTmp + 1, tail, ?_, hline, ?_⟩
        · rw [List.find?_cons_of_pos (by simpa using ⟨heq, hcontains⟩)]
        · rw [hstrchr]
          exact if_neg (not_not.mpr hcontains)
      · rw [hstrchr, List.find?_cons_of_neg (by simp [hcontains])]
        simpa only [if_pos hcontains] using ih hrest
    · rw [strchrEq_eq_none heq, List.find?_cons_of_neg (by simp [heq])]
      exact ih hrest

/-- The two loops stay inside `lineBuf`, and the number of bytes that are copied is the number of
the value's characters on the line. -/
def CopiesValue (key content : List UInt8) : Prop :=
  ∃ copied, copyLoop key (fgetsLines content) = .ok copied ∧
    ∀ count bytes, copied = some (count, bytes) →
      ∃ line, matchingLine key content = some line ∧ count = (valueChars line).length

/-- The value is copied from inside the line if and only if a blank or a newline ends it on the line
that matches, if there is one. -/
theorem copiesValue_iff (key content : List UInt8) :
    CopiesValue key content ↔ ∀ line, matchingLine key content = some line → ValueEnds line := by
  rcases copyLoop_eq key (length_lt_fgetsLines content) with
    ⟨hnone, hcopy⟩ | ⟨line, lineBuf, pTmp, tail, hsome, hline, hcopy⟩
  · refine iff_of_true ⟨none, hcopy, fun _ _ hcopied ↦ nomatch hcopied⟩ fun line hmatch ↦ ?_
    rw [matchingLine, hnone] at hmatch
    cases hmatch
  · constructor
    · rintro ⟨copied, hok, hcount⟩ other hmatch
      obtain rfl : line = other := Option.some.inj (hsome.symm.trans hmatch)
      by_contra hends
      obtain ⟨count, bytes, rfl, hlong⟩ :=
        copyValue_unterminated hline hends (hcopy.symm.trans hok)
      obtain ⟨other, hother, hequal⟩ := hcount count bytes rfl
      obtain rfl : line = other := Option.some.inj (hsome.symm.trans hother)
      omega
    · intro hends
      refine ⟨_, hcopy.trans (copyValue_ends hline (hends line hsome)), fun count bytes hsplit ↦ ?_⟩
      split_ifs at hsplit
      cases hsplit
      exact ⟨line, hsome, rfl⟩

/-- The last line of a file may end without a newline: the second loop leaves the buffer. -/
theorem not_copiesValue_last_line :
    copyLoop (chars "k") (fgetsLines (chars "k=v")) = .error .overrun ∧
      ¬∀ key content : List UInt8, CopiesValue key content := by
  have hfault : copyLoop (chars "k") (fgetsLines (chars "k=v")) = .error .overrun := by
    decide +kernel
  refine ⟨hfault, fun hall ↦ ?_⟩
  obtain ⟨copied, hok, -⟩ := hall (chars "k") (chars "k=v")
  rw [hfault] at hok
  cases hok

/-! ### The loops on the line only -/

/-- What `firstWord` returns is the value, and it has an end. -/
theorem firstWord_ok {line : List UInt8} {value : Option (List UInt8)}
    (hword : firstWord (afterEq (cstring line)) = .ok value) :
    ValueEnds line ∧ value =
      if (valueField line).head? = some '\n'.toUInt8 then none else some (valueChars line) := by
  change (if (valueField line).head? = some '\n'.toUInt8 then .ok none
    else if (valueChars line).length < (valueField line).length then .ok (some (valueChars line))
    else .error Fault.overrun) = Except.ok value at hword
  split_ifs at hword with hnewline hshort
  · cases hword
    exact ⟨.inr (List.mem_of_mem_head? hnewline), (if_pos hnewline).symm⟩
  · cases hword
    refine ⟨?_, (if_neg hnewline).symm⟩
    by_contra hends
    exact absurd hshort (valueChars_of_not_ends hends ▸ lt_irrefl _)

theorem getLoop_eq (key : List UInt8) (pieces : List (List UInt8)) :
    getLoop key pieces =
      match pieces.find? fun line ↦ '='.toUInt8 ∈ cstring line ∧ key <:+: cstring line with
      | none => .ok none
      | some line => firstWord (afterEq (cstring line)) := by
  induction pieces with
  | nil => rfl
  | cons piece rest ih =>
    rw [getLoop]
    by_cases heq : '='.toUInt8 ∈ cstring piece
    · rw [if_neg (not_not.mpr heq)]
      by_cases hcontains : key <:+: cstring piece
      · rw [if_neg (not_not.mpr hcontains), List.find?_cons_of_pos (by simp [heq, hcontains])]
      · rw [if_pos hcontains, ih, List.find?_cons_of_neg (by simp [hcontains])]
    · rw [if_pos heq, ih, List.find?_cons_of_neg (by simp [heq])]

/-- Where `getLoop` returns a value, the loops on the buffer copy it. -/
theorem copyLoop_of_getLoop {key content : List UInt8} {value : Option (List UInt8)}
    (hget : getLoop key (fgetsLines content) = .ok value) :
    copyLoop key (fgetsLines content) = .ok (value.map fun chars ↦ (chars.length, chars)) := by
  rw [getLoop_eq] at hget
  rcases copyLoop_eq key (length_lt_fgetsLines content) with
    ⟨hnone, hcopy⟩ | ⟨line, lineBuf, pTmp, tail, hsome, hline, hcopy⟩
  · rw [hnone] at hget
    cases hget
    exact hcopy
  · rw [hsome] at hget
    obtain ⟨hends, rfl⟩ := firstWord_ok hget
    rw [hcopy, copyValue_ends hline hends]
    split_ifs <;> rfl

end Exc.Cfg
