import Exc.Cfg.WriteRead

/-!
# The buffers of `WriteCfgItem`

`WriteCfgItem` tests that the file has no more than 8192 bytes and then collects the new contents in
`filebuf`, which has 8192 bytes itself, one of them for the null byte at the end. What is collected
is a text for each piece that `fgets` reads, the piece or the item in its place, and `strcat` tests
nothing. So `filebuf` overflows exactly if these texts are too long together, and `lineBuf` if there
is a piece to replace and the item is too long (`writeLoop_isOk_iff`).

A file of 8192 bytes passes the test, and it does not even fit if nothing is replaced in it
(`textLength_of_absent`).
-/

set_option autoImplicit false
set_option relaxedAutoImplicit false

namespace Exc.Cfg

open Lib

variable {key value content line filebuf : List UInt8} {pieces : List (List UInt8)}

/-- The length of `"%s = %s\n"`. -/
def itemLength (key value : List UInt8) : ℕ := key.length + value.length + 4

/-- The length of the texts that pieces give: of the item if the piece contains the key, and of the
piece up to its null byte otherwise. -/
def textLength (key value : List UInt8) (pieces : List (List UInt8)) : ℕ :=
  (pieces.map fun line ↦
    if key <:+: cstring line then itemLength key value else (cstring line).length).sum

theorem length_itemLine (key value : List UInt8) :
    (itemLine key value).length = itemLength key value := by
  simp only [itemLine, List.length_append, itemLength]
  have hmiddle : (chars " = ").length = 3 := rfl
  have hend : (chars "\n").length = 1 := rfl
  omega

theorem strcat_ok (hfits : filebuf.length + line.length < fileMaxLen) :
    strcat filebuf line = .ok (filebuf ++ line) := if_pos hfits

theorem strcat_error (hlong : ¬filebuf.length + line.length < fileMaxLen) :
    strcat filebuf line = .error .filebufOverflow := if_neg hlong

theorem not_isOk_error {result : Type} (fault : Fault) :
    ¬∃ value : result, (Except.error fault : Except Fault result) = .ok value := by
  rintro ⟨value, hok⟩
  cases hok

/-- The loop stays inside the buffers if and only if the item fits, in case there is a piece to
replace, and the texts fit together. -/
theorem writeLoop_isOk_iff (hfilebuf : filebuf.length < fileMaxLen) (iTag : Bool) :
    (∃ result, writeLoop key value pieces filebuf iTag = .ok result) ↔
      (∀ line ∈ pieces, key <:+: cstring line → itemLength key value < lineMaxLen) ∧
        filebuf.length + textLength key value pieces < fileMaxLen := by
  induction pieces generalizing filebuf iTag with
  | nil => simpa [writeLoop, textLength] using hfilebuf
  | cons line rest ih =>
    rw [writeLoop, List.forall_mem_cons, length_itemLine]
    by_cases hcontains : key <:+: cstring line
    · have htext : textLength key value (line :: rest) =
          itemLength key value + textLength key value rest := by
        simp only [textLength, List.map_cons, List.sum_cons, if_pos hcontains]
      rw [if_neg (not_not.mpr hcontains), htext]
      by_cases hitem : itemLength key value < lineMaxLen
      · rw [if_pos hitem]
        by_cases hfits : filebuf.length + (itemLine key value).length < fileMaxLen
        · have hlength : (filebuf ++ itemLine key value).length < fileMaxLen := by
            rwa [List.length_append]
          rw [strcat_ok hfits]
          simp only [bind, Except.bind]
          rw [ih hlength, List.length_append, length_itemLine, Nat.add_assoc]
          simp only [hitem, implies_true, true_and]
        · rw [strcat_error hfits]
          rw [length_itemLine] at hfits
          exact iff_of_false (not_isOk_error _) fun hboth ↦ hfits (by omega)
      · rw [if_neg hitem]
        exact iff_of_false (not_isOk_error _) fun hboth ↦ hitem (hboth.1.1 hcontains)
    · have htext : textLength key value (line :: rest) =
          (cstring line).length + textLength key value rest := by
        simp only [textLength, List.map_cons, List.sum_cons, if_neg hcontains]
      rw [if_pos hcontains, htext]
      by_cases hfits : filebuf.length + (cstring line).length < fileMaxLen
      · have hlength : (filebuf ++ cstring line).length < fileMaxLen := by
          rwa [List.length_append]
        rw [strcat_ok hfits]
        simp only [bind, Except.bind]
        rw [ih hlength, List.length_append, Nat.add_assoc]
        simp only [hcontains, false_implies, true_and]
      · rw [strcat_error hfits]
        exact iff_of_false (not_isOk_error _) fun hboth ↦ hfits (by omega)

/-- What has to fit into the buffers of `WriteCfgItem`. -/
def FitsBuffers (key value content : List UInt8) : Prop :=
  (∀ line ∈ fgetsLines content, key <:+: cstring line → itemLength key value < lineMaxLen) ∧
    textLength key value (fgetsLines content) < fileMaxLen

instance (key value content : List UInt8) : Decidable (FitsBuffers key value content) :=
  inferInstanceAs (Decidable (_ ∧ _))

theorem writeCfgItem_isOk_iff (file : Option (List UInt8)) (pKey pValue : CStr)
    (hsize : (file.getD []).length ≤ fileMaxLen) :
    (∃ result, writeCfgItem file (some pKey) (some pValue) = .ok result) ↔
      ∃ result, writeLoop pKey.chars pValue.chars (fgetsLines (file.getD [])) [] false =
        .ok result := by
  simp only [writeCfgItem, if_neg (not_lt.mpr hsize)]
  cases writeLoop pKey.chars pValue.chars (fgetsLines (file.getD [])) [] false with
  | error fault => exact iff_of_false (not_isOk_error fault) (not_isOk_error fault)
  | ok result =>
    obtain ⟨filebuf, iTag⟩ := result
    refine iff_of_true ?_ ⟨_, rfl⟩
    cases iTag
    · exact ⟨_, rfl⟩
    · exact ⟨_, rfl⟩

/-- For a file that passes the test of its size, `WriteCfgItem` stays inside its buffers if and only
if the item and the texts fit. -/
theorem writeCfgItem_inside_iff (file : Option (List UInt8)) (pKey pValue : CStr)
    (hsize : (file.getD []).length ≤ fileMaxLen) :
    (∃ result, writeCfgItem file (some pKey) (some pValue) = .ok result) ↔
      FitsBuffers pKey.chars pValue.chars (file.getD []) := by
  rw [writeCfgItem_isOk_iff file pKey pValue hsize, writeLoop_isOk_iff (by decide) false,
    List.length_nil, Nat.zero_add]
  rfl

/-- A file with one item, and a new value for it. -/
theorem writeCfgItem_inside_replaced : ∃ result,
    writeCfgItem (some (chars "k = 1\nx = 2\n")) (some keyK) (some valueV) = .ok result :=
  (writeCfgItem_inside_iff _ keyK valueV (by decide)).mpr (by decide)

/-- Without the key, all of the file goes to `filebuf`. -/
theorem textLength_of_absent (hclean : 0 ∉ content)
    (habsent : ∀ line ∈ fgetsLines content, ¬key <:+: line) :
    textLength key value (fgetsLines content) = content.length := by
  have hpieces := clean_of_mem_fgetsLines hclean
  have hlength : ∀ line ∈ fgetsLines content,
      (if key <:+: cstring line then itemLength key value else (cstring line).length) =
        line.length := by
    intro line hline
    rw [cstring_eq_self (hpieces line hline), if_neg (habsent line hline)]
  rw [textLength, List.map_congr_left hlength, ← List.length_flatten, flatten_fgetsLines]

/-- Where no line contains the key, only `filebuf` can overflow. -/
theorem writeLoop_error_of_absent {pieces : List (List UInt8)} {filebuf : List UInt8} {iTag : Bool}
    {fault : Fault} (habsent : ∀ line ∈ pieces, ¬key <:+: cstring line)
    (hloop : writeLoop key value pieces filebuf iTag = .error fault) :
    fault = .filebufOverflow := by
  induction pieces generalizing filebuf with
  | nil => cases hloop
  | cons line rest ih =>
    obtain ⟨hline, hrest⟩ := List.forall_mem_cons.mp habsent
    rw [writeLoop, if_pos hline] at hloop
    by_cases hfits : filebuf.length + (cstring line).length < fileMaxLen
    · rw [strcat_ok hfits] at hloop
      exact ih hrest hloop
    · rw [strcat_error hfits] at hloop
      exact (Except.error.inj hloop).symm

/-- A file of 8192 characters without the key passes the test and does not fit. -/
theorem not_inside_full_file :
    writeCfgItem (some (List.replicate fileMaxLen 'a'.toUInt8)) (some keyK) (some valueV) =
        .error .filebufOverflow ∧
      ¬∀ (file : Option (List UInt8)) (pKey pValue : CStr), (file.getD []).length ≤ fileMaxLen →
        ∃ result, writeCfgItem file (some pKey) (some pValue) = .ok result := by
  have hclean : 0 ∉ List.replicate fileMaxLen 'a'.toUInt8 := by
    rw [List.mem_replicate]
    exact fun hzero ↦ absurd hzero.2 (by decide)
  have habsent : ∀ line ∈ fgetsLines (List.replicate fileMaxLen 'a'.toUInt8),
      ¬keyK.chars <:+: line := by
    intro line hline hcontains
    have hmem : 'k'.toUInt8 ∈ (fgetsLines (List.replicate fileMaxLen 'a'.toUInt8)).flatten :=
      List.mem_flatten_of_mem hline (hcontains.subset (by decide))
    rw [flatten_fgetsLines, List.mem_replicate] at hmem
    exact absurd hmem.2 (by decide)
  have hsize : ((some (List.replicate fileMaxLen 'a'.toUInt8)).getD []).length ≤ fileMaxLen := by
    simp
  have hfull : ¬∃ result, writeLoop keyK.chars valueV.chars
      (fgetsLines (List.replicate fileMaxLen 'a'.toUInt8)) [] false = .ok result := by
    rw [writeLoop_isOk_iff (by decide) false, textLength_of_absent hclean habsent,
      List.length_replicate, List.length_nil, Nat.zero_add]
    exact fun hfits ↦ absurd hfits.2 (lt_irrefl _)
  refine ⟨?_, fun hall ↦ hfull ((writeCfgItem_isOk_iff _ keyK valueV hsize).mp
    (hall _ keyK valueV hsize))⟩
  have hpieces := clean_of_mem_fgetsLines hclean
  have hlength : ¬(List.replicate fileMaxLen 'a'.toUInt8).length > fileMaxLen := not_lt.mpr hsize
  simp only [writeCfgItem, Option.getD_some]
  rw [if_neg hlength]
  cases hloop : writeLoop keyK.chars valueV.chars
      (fgetsLines (List.replicate fileMaxLen 'a'.toUInt8)) [] false with
  | ok result => exact absurd ⟨result, hloop⟩ hfull
  | error fault =>
    have hmissing : ∀ line ∈ fgetsLines (List.replicate fileMaxLen 'a'.toUInt8),
        ¬keyK.chars <:+: cstring line := by
      intro line hline
      rw [cstring_eq_self (hpieces line hline)]
      exact habsent line hline
    rw [writeLoop_error_of_absent hmissing hloop]
    rfl

end Exc.Cfg
