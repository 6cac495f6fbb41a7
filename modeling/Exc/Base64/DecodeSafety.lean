import Exc.Base64.Decoding

/-!
# What the decoder reads

For a buffer of `DataByte` characters the table driven `ZBase64::Decode` reads inside of the buffer
and inside of its table exactly when the buffer is `Readable`: line breaks and groups, where each
group is whole, also when it is padded, and its characters are less than 111 (`decodeCounted_iff`).

The counter goes on by four for a group that is padded, while the pointer goes on by two or three
only, and the next group starts with the padding. `i += 4` can also be too large for an `int`; the
loop here has the counter of the source, and `decode_of_counted` says that it decodes what the loop
over the characters that are left does. A text in full groups of such characters is readable
(`readable_of_full`).
-/

set_option autoImplicit false
set_option relaxedAutoImplicit false

namespace Exc.Base64

open Lib

/-- The loop of `ZBase64::Decode` with its counter. There is no result behind a read outside of the
text or of the table, or when `i` is too large for an `int`. -/
def countedLoop (table : List ℕ) (dataByte i : ℕ) (decoder : Decoder) : Option Decoder :=
  if i < dataByte then
    match decoder.data with
    | [] => none
    | char :: data =>
      if char ≠ carriageReturn ∧ char ≠ lineFeed then
        match decoder.group table with
        | .ok decoder =>
          if i + 4 < 2 ^ 31 then countedLoop table dataByte (i + 4) decoder else none
        | .error _ => none
      else countedLoop table dataByte (i + 1) { decoder with data := data }
  else some decoder
termination_by dataByte - i

/-- `ZBase64::Decode` for a buffer of `DataByte` characters: the text, and `OutByte`. -/
def decodeCounted (data : List UInt8) (outByte : ℤ) : Option (List UInt8 × ℤ) :=
  (countedLoop decodeTable data.length 0 ⟨data, [], outByte⟩).map fun decoder ↦
    (decoder.strDecode, decoder.outByte)

/-- The characters that the table has an entry for. -/
def InTable (char : UInt8) : Prop := char.toNat < 111

/-- A group that can be read, and what the pointer is at then. A padding is not read over. -/
inductive GroupReadable : List UInt8 → List UInt8 → Prop
  | two {first second : UInt8} {rest : List UInt8} (hfirst : InTable first)
      (hsecond : InTable second) :
      GroupReadable (first :: second :: padding :: rest) (padding :: rest)
  | three {first second third : UInt8} {rest : List UInt8} (hfirst : InTable first)
      (hsecond : InTable second) (hthird : InTable third) (hpadding : third ≠ padding) :
      GroupReadable (first :: second :: third :: padding :: rest) (padding :: rest)
  | four {first second third fourth : UInt8} {rest : List UInt8} (hfirst : InTable first)
      (hsecond : InTable second) (hthird : InTable third) (hfourth : InTable fourth)
      (hpadding : third ≠ padding ∧ fourth ≠ padding) :
      GroupReadable (first :: second :: third :: fourth :: rest) rest

/-- A buffer that can be read from the counter `i` on. -/
inductive Readable (dataByte : ℕ) : ℕ → List UInt8 → Prop
  | finished {i : ℕ} {data : List UInt8} (hleft : ¬i < dataByte) : Readable dataByte i data
  | lineBreak {i : ℕ} {char : UInt8} {data : List UInt8} (hleft : i < dataByte)
      (hbreak : ¬(char ≠ carriageReturn ∧ char ≠ lineFeed))
      (hdata : Readable dataByte (i + 1) data) : Readable dataByte i (char :: data)
  | group {i : ℕ} {char : UInt8} {data rest : List UInt8} (hleft : i < dataByte)
      (hchar : char ≠ carriageReturn ∧ char ≠ lineFeed) (hgroup : GroupReadable (char :: data) rest)
      (hint : i + 4 < 2 ^ 31) (hrest : Readable dataByte (i + 4) rest) :
      Readable dataByte i (char :: data)

/-! ### One group -/

theorem inTable_iff (char : UInt8) :
    InTable char ↔ ∃ value, decodeTable[char.toNat]? = some value := by
  rw [← Option.isSome_iff_exists, isSome_getElem?]
  rfl

theorem lookup_inTable {char : UInt8} (hchar : InTable char) :
    ∃ value, ∀ data strDecode outByte, Decoder.lookup decodeTable
      ⟨char :: data, strDecode, outByte⟩ = .ok (value, ⟨data, strDecode, outByte⟩) := by
  obtain ⟨value, hvalue⟩ := (inTable_iff char).mp hchar
  refine ⟨value, fun data strDecode outByte ↦ ?_⟩
  simp only [Decoder.lookup, hvalue]

/-- A group that is decoded was read inside of the table and of the text. -/
theorem readable_of_group {decoder result : Decoder}
    (hgroup : decoder.group decodeTable = .ok result) :
    GroupReadable decoder.data result.data := by
  have hentry {char : UInt8} {value : ℕ} (hvalue : decodeTable[char.toNat]? = some value) :
      InTable char := (inTable_iff char).mpr ⟨value, hvalue⟩
  obtain ⟨char, other, first, second, data, hdata, hfirst, hsecond, -, hrest⟩ :=
    group_cases hgroup
  rw [hdata]
  rcases hrest with ⟨rest, rfl, hresult⟩ | ⟨next, third, rest, rfl, hnext, hthird, hresult⟩ |
    ⟨next, third, last, fourth, rfl, hnext, hlast, hthird, hfourth⟩
  · rw [hresult]
    exact .two (hentry hfirst) (hentry hsecond)
  · rw [hresult]
    exact .three (hentry hfirst) (hentry hsecond) (hentry hthird) hnext
  · exact .four (hentry hfirst) (hentry hsecond) (hentry hthird) (hentry hfourth) ⟨hnext, hlast⟩

/-- A group that can be read is decoded. -/
theorem group_of_readable {data rest : List UInt8} (hreadable : GroupReadable data rest)
    (strDecode : List UInt8) (outByte : ℤ) :
    ∃ written out, Decoder.group decodeTable ⟨data, strDecode, outByte⟩ =
      .ok ⟨rest, written, out⟩ := by
  cases hreadable with
  | two hfirst hsecond =>
    obtain ⟨first, hfirst⟩ := lookup_inTable hfirst
    obtain ⟨second, hsecond⟩ := lookup_inTable hsecond
    simp only [Decoder.group, bind, Except.bind, pure, Except.pure, hfirst, hsecond,
      Decoder.append, Decoder.peek, ne_eq, not_true_eq_false, if_false]
    exact ⟨_, _, rfl⟩
  | three hfirst hsecond hthird hpadding =>
    obtain ⟨first, hfirst⟩ := lookup_inTable hfirst
    obtain ⟨second, hsecond⟩ := lookup_inTable hsecond
    obtain ⟨third, hthird⟩ := lookup_inTable hthird
    simp only [Decoder.group, bind, Except.bind, pure, Except.pure, hfirst, hsecond, hthird,
      Decoder.append, Decoder.peek, ne_eq, hpadding, not_true_eq_false, not_false_eq_true, if_true,
      if_false]
    exact ⟨_, _, rfl⟩
  | four hfirst hsecond hthird hfourth hpadding =>
    obtain ⟨first, hfirst⟩ := lookup_inTable hfirst
    obtain ⟨second, hsecond⟩ := lookup_inTable hsecond
    obtain ⟨third, hthird⟩ := lookup_inTable hthird
    obtain ⟨fourth, hfourth⟩ := lookup_inTable hfourth
    simp only [Decoder.group, bind, Except.bind, pure, Except.pure, hfirst, hsecond, hthird,
      hfourth, Decoder.append, Decoder.peek, ne_eq, hpadding, not_false_eq_true, if_true]
    exact ⟨_, _, rfl⟩

/-! ### The loop -/

/-- What the loop did that has a result: it ended, or it passed a line break or decoded a group and
went on. -/
theorem countedLoop_cases {table : List ℕ} {dataByte i : ℕ} {decoder result : Decoder}
    (hloop : countedLoop table dataByte i decoder = some result) :
    (¬i < dataByte ∧ decoder = result) ∨
      ∃ char data, decoder.data = char :: data ∧ i < dataByte ∧
        (¬(char ≠ carriageReturn ∧ char ≠ lineFeed) ∧
            countedLoop table dataByte (i + 1) { decoder with data := data } = some result ∨
          ∃ next, (char ≠ carriageReturn ∧ char ≠ lineFeed) ∧ decoder.group table = .ok next ∧
            i + 4 < 2 ^ 31 ∧ countedLoop table dataByte (i + 4) next = some result) := by
  obtain ⟨data, strDecode, outByte⟩ := decoder
  rw [countedLoop] at hloop
  by_cases hleft : i < dataByte
  · rw [if_pos hleft] at hloop
    obtain _ | ⟨char, data⟩ := data
    · cases hloop
    refine .inr ⟨char, data, rfl, hleft, ?_⟩
    dsimp only at hloop
    by_cases hchar : char ≠ carriageReturn ∧ char ≠ lineFeed
    · rw [if_pos hchar] at hloop
      cases hgroup : Decoder.group table ⟨char :: data, strDecode, outByte⟩ with
      | error fault =>
        rw [hgroup] at hloop
        cases hloop
      | ok next =>
        rw [hgroup] at hloop
        dsimp only at hloop
        split_ifs at hloop with hint
        exact .inr ⟨next, hchar, rfl, hint, hloop⟩
    · rw [if_neg hchar] at hloop
      exact .inl ⟨hchar, hloop⟩
  · rw [if_neg hleft] at hloop
    exact .inl ⟨hleft, Option.some.inj hloop⟩

/-- A loop with a result has read inside of the text. By induction over what is left. -/
theorem readable_of_countedLoop {dataByte i : ℕ} {decoder result : Decoder}
    (hloop : countedLoop decodeTable dataByte i decoder = some result) :
    Readable dataByte i decoder.data := by
  rcases countedLoop_cases hloop with ⟨hdone, -⟩ | ⟨char, data, hdata, hleft, hround⟩
  · exact .finished hdone
  rcases hround with ⟨hbreak, hrest⟩ | ⟨next, hchar, hgroup, hint, hrest⟩
  · rw [hdata]
    exact .lineBreak hleft hbreak (readable_of_countedLoop hrest)
  · have hreadable := readable_of_group hgroup
    rw [hdata] at hreadable ⊢
    exact .group hleft hchar hreadable hint (readable_of_countedLoop hrest)
termination_by dataByte - i

/-- The loop has a result for a text that can be read. By induction over the groups. -/
theorem countedLoop_of_readable {dataByte i : ℕ} {data : List UInt8}
    (hreadable : Readable dataByte i data) (strDecode : List UInt8) (outByte : ℤ) :
    ∃ result, countedLoop decodeTable dataByte i ⟨data, strDecode, outByte⟩ = some result := by
  induction hreadable generalizing strDecode outByte with
  | finished hleft =>
    rw [countedLoop, if_neg hleft]
    exact ⟨_, rfl⟩
  | lineBreak hleft hbreak _ ih =>
    rw [countedLoop, if_pos hleft]
    dsimp only
    rw [if_neg hbreak]
    exact ih strDecode outByte
  | group hleft hchar hgroup hint _ ih =>
    obtain ⟨written, out, hdecoded⟩ := group_of_readable hgroup strDecode outByte
    rw [countedLoop, if_pos hleft]
    dsimp only
    rw [if_pos hchar, hdecoded]
    dsimp only
    rw [if_pos hint]
    exact ih written out

/-- With a result, the loop over the characters that are left has the same. -/
theorem loop_of_countedLoop {table : List ℕ} {dataByte i : ℕ} {decoder result : Decoder}
    (hloop : countedLoop table dataByte i decoder = some result) :
    decoder.loop table (dataByte - i) = .ok result := by
  rcases countedLoop_cases hloop with ⟨hdone, rfl⟩ | ⟨char, data, hdata, hleft, hround⟩
  · rw [Nat.sub_eq_zero_of_le (by omega), loop_zero]
  rw [Decoder.loop, if_neg (by omega)]
  rcases hround with ⟨hbreak, hrest⟩ | ⟨next, hchar, hgroup, -, hrest⟩
  · simp only [hdata, if_neg hbreak]
    rw [Nat.sub_sub]
    exact loop_of_countedLoop hrest
  · simp only [hdata, if_pos hchar, hgroup]
    rw [Nat.sub_sub]
    exact loop_of_countedLoop hrest
termination_by dataByte - i

/-- Where the counter stays an `int`, the two loops have the same results. -/
theorem decode_of_counted {data : List UInt8} {outByte : ℤ} {result : List UInt8 × ℤ}
    (hcounted : decodeCounted data outByte = some result) :
    decode data data.length outByte = .ok result := by
  obtain ⟨decoder, hloop, hresult⟩ := Option.map_eq_some_iff.mp hcounted
  rw [decode, decodeWith, Int.toNat_natCast, ← Nat.sub_zero data.length,
    loop_of_countedLoop hloop, ← hresult]

/-! ### The buffer -/

/-- A text in full groups of characters of the table, without line breaks. By induction over the
groups: what is behind a padding is longer than what the counter has left. -/
theorem readable_of_full {dataByte i : ℕ} {data : List UInt8} (hint : dataByte < 2 ^ 31)
    (hfull : 4 ∣ dataByte - i) (hleft : dataByte - i ≤ data.length)
    (hdata : ∀ char ∈ data, InTable char ∧ char ≠ carriageReturn ∧ char ≠ lineFeed) :
    Readable dataByte i data := by
  by_cases hdone : i < dataByte
  · match data with
    | first :: second :: third :: fourth :: rest =>
      simp only [List.mem_cons, forall_eq_or_imp] at hdata
      obtain ⟨hfirst, hsecond, hthird, hfourth, hrest⟩ := hdata
      simp only [List.length_cons] at hleft
      have hcounter : i + 4 < 2 ^ 31 := by omega
      have hfull : 4 ∣ dataByte - (i + 4) := by omega
      by_cases hpadding : third = padding
      · subst hpadding
        refine .group hdone hfirst.2 (.two hfirst.1 hsecond.1) hcounter
          (readable_of_full hint hfull ?_ ?_)
        · simp only [List.length_cons]
          omega
        · simp only [List.mem_cons, forall_eq_or_imp]
          exact ⟨hthird, hfourth, hrest⟩
      by_cases hlast : fourth = padding
      · subst hlast
        refine .group hdone hfirst.2 (.three hfirst.1 hsecond.1 hthird.1 hpadding) hcounter
          (readable_of_full hint hfull ?_ ?_)
        · simp only [List.length_cons]
          omega
        · simp only [List.mem_cons, forall_eq_or_imp]
          exact ⟨hfourth, hrest⟩
      exact .group hdone hfirst.2
        (.four hfirst.1 hsecond.1 hthird.1 hfourth.1 ⟨hpadding, hlast⟩) hcounter
        (readable_of_full hint hfull (by omega) hrest)
    | [] | [_] | [_, _] | [_, _, _] =>
      simp only [List.length_cons, List.length_nil] at hleft
      omega
  · exact .finished hdone
termination_by dataByte - i

/-- `ZBase64::Decode` reads inside of the buffer and of the table exactly when the buffer can be
read. -/
theorem decodeCounted_iff (data : List UInt8) (outByte : ℤ) :
    (∃ result, decodeCounted data outByte = some result) ↔ Readable data.length 0 data := by
  refine ⟨fun hresult ↦ ?_, fun hreadable ↦ ?_⟩
  · obtain ⟨result, hresult⟩ := hresult
    obtain ⟨decoder, hloop, -⟩ := Option.map_eq_some_iff.mp hresult
    exact readable_of_countedLoop hloop
  · obtain ⟨decoder, hloop⟩ := countedLoop_of_readable hreadable [] outByte
    exact ⟨_, Option.map_eq_some_iff.mpr ⟨decoder, hloop, rfl⟩⟩

/-- The text `oAAA`: the table has no entry 111. -/
theorem not_decodeCounted_letter :
    decodeCounted [111, 65, 65, 65] 0 = none ∧
      ¬∀ data outByte, ∃ result, decodeCounted data outByte = some result := by
  have houtside : decodeCounted [111, 65, 65, 65] 0 = none := by decide +kernel
  refine ⟨houtside, fun hall ↦ ?_⟩
  obtain ⟨result, hresult⟩ := hall [111, 65, 65, 65] 0
  rw [houtside] at hresult
  cases hresult

end Exc.Base64
