import Exc.Lib.Calls
import Exc.Lib.Run
import Exc.Logger.LineBuffer

/-!
# The line buffer is transparent

`asyncAppendLine` of `comLib/Logger_impl.cpp` with the `int`s that it computes with: the length of a
line is converted to `int`, its sum with the position is an `int`, and the number of bytes to copy
is converted to `size_t`. `asyncAppendLineInt_cases` says what that amounts to. As long as the
length and the position together stay below 2^31 it is `asyncAppendLine`; a longer line is cut to
the low 32 bits of its length, or `strncpy` leaves the buffer.

`transparent_iff`: the buffer hands over all that is appended, in pieces that fit, exactly if no
line is too long in this sense. `append_ends_iff`: the loop that splits a line ends for every line,
unless the buffer has one byte.

Scope. A sum of `int`s that is out of range is reduced to 32 bits; in the source it is undefined.
-/

set_option autoImplicit false
set_option relaxedAutoImplicit false

namespace Exc.Logger

open Lib

/-- The value of an integer in an `int`. -/
def intValue (number : ℤ) : ℤ := (Int32.ofInt number).toInt

/-- The value of an `int` in a `size_t`. -/
def sizeValue (number : ℤ) : ℕ := (number % 2 ^ 64).toNat

namespace LoggerImpl

/-- `asyncAppendLine` where it has a buffer, for the value of `len`. In the branch for a line that
does not fit, a negative `len` would take no turn and copy nothing, like zero. -/
def appendLen (fuel : ℕ) (msg : List UInt8) (len : ℤ) (logger : LoggerImpl) :
    Except LogFault LoggerImpl :=
  if (logger.bufferSize : ℤ) ≤ intValue (len + logger.bufferPos) then do
    let flushed ← if 0 < logger.bufferPos then
        logger.flushBuffer.map resetBuffer
      else .ok logger
    let (i, rest, split) ← splitLoop msg fuel 0 len.toNat flushed
    appendRest msg i rest split
  else do
    let copied ← logger.copy logger.bufferPos msg 0 (sizeValue len)
    pure { copied with bufferPos := (copied.bufferPos + len).toNat }

/-- `asyncAppendLine` with its `int`s. -/
def asyncAppendLineInt (fuel : ℕ) (msg : List UInt8) (logger : LoggerImpl) :
    Except LogFault LoggerImpl :=
  if logger.bufferSize = 0 then .ok (logger.flushLine msg)
  else appendLen fuel msg (intValue msg.length) logger

/-! ### Lines that are cut -/

variable {logger : LoggerImpl} {size : ℕ} {data msg : List UInt8}

theorem intValue_eq (number : ℤ) : intValue number = number.bmod 4294967296 := Int32.toInt_ofInt

theorem intValue_bounds (number : ℤ) :
    -2147483648 ≤ intValue number ∧ intValue number < 2147483648 := by
  rw [intValue_eq, Int.bmod_def]
  omega

theorem intValue_of_small {number : ℤ} (hlow : -2147483648 ≤ number) (hhigh : number < 2147483648) :
    intValue number = number := by
  rw [intValue_eq, Int.bmod_def]
  omega

theorem intValue_le (count : ℕ) : intValue count ≤ count := by
  rw [intValue_eq, Int.bmod_def]
  omega

/-- Bytes of a line are the same in the line that is cut behind them. -/
theorem copy_take {limit start count : ℕ} (offset : ℕ) (hlimit : start + count ≤ limit)
    (hmsg : limit ≤ msg.length) :
    logger.copy offset msg start count = logger.copy offset (msg.take limit) start count := by
  have hlength : (msg.take limit).length = limit := List.length_take_of_le hmsg
  have hbytes : ((msg.take limit).drop start).take count = (msg.drop start).take count := by
    rw [List.drop_take, List.take_take, min_eq_left (by omega)]
  rw [LoggerImpl.copy, LoggerImpl.copy, strncpy, strncpy, hbytes, hlength]
  by_cases hdest : offset + count ≤ logger.szBuffer.length
  · rw [if_pos ⟨by omega, hdest⟩, if_pos ⟨by omega, hdest⟩]
  · rw [if_neg fun hboth ↦ hdest hboth.2, if_neg fun hboth ↦ hdest hboth.2]

theorem bufferSize_copy {copied : LoggerImpl} {offset start count : ℕ}
    (hcopy : logger.copy offset msg start count = .ok copied) :
    copied.bufferSize = logger.bufferSize := by
  rw [LoggerImpl.copy] at hcopy
  split at hcopy
  · rename_i szBuffer hbuffer
    obtain rfl := Except.ok.inj hcopy
    exact length_strncpy hbuffer
  · cases hcopy

theorem bufferSize_flush {flushed : LoggerImpl}
    (hflush : logger.flushBuffer.map resetBuffer = .ok flushed) :
    flushed.bufferSize = logger.bufferSize := by
  rw [flushBuffer] at hflush
  split_ifs at hflush
  · obtain rfl := Except.ok.inj hflush
    exact List.length_replicate
  · cases hflush

/-- The loop takes the same turns on a line that is cut behind the bytes that it copies. -/
theorem splitLoop_take {limit i len : ℕ} (hlimit : i * (logger.bufferSize - 1) + len ≤ limit)
    (hmsg : limit ≤ msg.length) (fuel : ℕ) :
    splitLoop msg fuel i len logger = splitLoop (msg.take limit) fuel i len logger := by
  induction fuel generalizing i len logger with
  | zero => rfl
  | succ fuel ih =>
    rw [splitLoop, splitLoop]
    split_ifs with hfits
    · rfl
    · have hcount : i * (logger.bufferSize - 1) + (logger.bufferSize - 1) ≤ limit := by omega
      rw [copy_take 0 hcount hmsg]
      cases hcopy : logger.copy 0 (msg.take limit) (i * (logger.bufferSize - 1))
          (logger.bufferSize - 1) with
      | error fault => rfl
      | ok copied =>
        change (copied.flushBuffer.map resetBuffer).bind _ =
          (copied.flushBuffer.map resetBuffer).bind _
        cases hflush : copied.flushBuffer.map resetBuffer with
        | error fault => rfl
        | ok flushed =>
          refine ih ?_
          rw [bufferSize_flush hflush, bufferSize_copy hcopy, Nat.succ_mul]
          omega

theorem splitLine_take (h : logger.Keeps size []) (hsize : 0 < size) {limit : ℕ}
    (hmsg : limit ≤ msg.length) (fuel : ℕ) :
    ((splitLoop msg fuel 0 limit logger).bind fun (i, rest, split) ↦ appendRest msg i rest split) =
      splitLine fuel (msg.take limit) logger := by
  have hlength : (msg.take limit).length = limit := List.length_take_of_le hmsg
  rw [splitLine, hlength, splitLoop_take (by omega) hmsg]
  rcases splitLoop_spec h hsize (show 0 * (size - 1) + limit = (msg.take limit).length by omega)
    fuel with ⟨hfail, -⟩ | ⟨next, rest, split, hok, hsplit, -, htotal, -⟩
  · rw [hfail]
    rfl
  · rw [hok]
    change appendRest msg next rest split = appendRest (msg.take limit) next rest split
    have hcopied : next * (split.bufferSize - 1) + rest ≤ limit := by
      rw [hsplit.bufferSize, htotal, hlength]
    rw [appendRest, appendRest, copy_take 0 hcopied hmsg]

/-- A length that is an `int` together with the position: the line that is cut to it is appended. -/
theorem appendLen_eq (h : logger.Keeps size data) (hsize : 0 < size) {len : ℤ} (hnonneg : 0 ≤ len)
    (hsum : len + logger.bufferPos < 2147483648) (hlen : len ≤ msg.length) (fuel : ℕ) :
    appendLen fuel msg len logger = asyncAppendLine fuel (msg.take len.toNat) logger := by
  have hlimit : len.toNat ≤ msg.length := by omega
  have hlength := List.length_take_of_le hlimit
  have hvalue : intValue (len + logger.bufferPos) = len + logger.bufferPos :=
    intValue_of_small (by omega) hsum
  have hcast : sizeValue len = len.toNat := by
    rw [sizeValue, Int.emod_eq_of_lt hnonneg (by omega)]
  rw [appendLen, asyncAppendLine, h.bufferSize, hlength, hvalue, hcast, if_neg hsize.ne']
  by_cases hfull : size ≤ len.toNat + logger.bufferPos
  · rw [if_pos (by omega), if_pos hfull]
    by_cases hheld : 0 < logger.bufferPos
    · obtain ⟨flushed, hflush, hkeeps, -⟩ := h.flush_reset hsize
      simp only [if_pos hheld, hflush]
      exact splitLine_take hkeeps hsize hlimit fuel
    · have hnil : data = [] := List.length_eq_zero_iff.mp (by rw [← h.pos]; omega)
      subst hnil
      simp only [if_neg hheld]
      exact splitLine_take h hsize hlimit fuel
  · have hposition (copied : LoggerImpl) :
        (copied.bufferPos + len).toNat = copied.bufferPos + len.toNat := by omega
    rw [if_neg (by omega), if_neg hfull, copy_take _ (by omega) hlimit]
    simp only [hposition]

/-- With another length `strncpy` leaves the buffer: as a `size_t` it is too large. -/
theorem appendLen_outside (h : logger.Keeps size data) (hsize : 0 < size)
    (hsmall : size < 2147483648) {len : ℤ} (hlow : -2147483648 ≤ len) (hhigh : len < 2147483648)
    (hlong : len < 0 ∨ 2147483648 ≤ len + logger.bufferPos) (fuel : ℕ) :
    appendLen fuel msg len logger = .error .outside := by
  have hless : logger.bufferPos < size := by
    rw [h.pos]
    exact h.length_lt hsize
  have hbranch : intValue (len + logger.bufferPos) < size := by
    rw [intValue_eq, Int.bmod_def]
    omega
  have hcount : size < logger.bufferPos + sizeValue len := by
    rw [sizeValue]
    omega
  have hlength := h.bufferSize
  rw [LoggerImpl.bufferSize] at hlength
  have hcopy : logger.copy logger.bufferPos msg 0 (sizeValue len) = .error .outside := by
    rw [LoggerImpl.copy, strncpy, if_neg (by omega)]
  rw [appendLen, h.bufferSize, if_neg (by omega), hcopy]
  rfl

/-- The length of a line, as an `int`, and the position have a sum that is an `int`. -/
def FitsInt (logger : LoggerImpl) (msg : List UInt8) : Prop :=
  0 ≤ intValue msg.length ∧ intValue msg.length + logger.bufferPos < 2147483648

/-- What `asyncAppendLine` does with its `int`s: it appends the line, cut to a length that is an
`int`, or it leaves the buffer. -/
theorem asyncAppendLineInt_cases (h : logger.Keeps size data) (hsize : 0 < size)
    (hsmall : size < 2147483648) (msg : List UInt8) :
    (logger.FitsInt msg ∧ ∀ fuel, asyncAppendLineInt fuel msg logger =
      asyncAppendLine fuel (msg.take (intValue msg.length).toNat) logger) ∨
    (¬logger.FitsInt msg ∧ ∀ fuel, asyncAppendLineInt fuel msg logger = .error .outside) := by
  have hbounds := intValue_bounds msg.length
  have happend (fuel : ℕ) : asyncAppendLineInt fuel msg logger =
      appendLen fuel msg (intValue msg.length) logger := by
    rw [asyncAppendLineInt, h.bufferSize, if_neg hsize.ne']
  by_cases hfits : logger.FitsInt msg
  · refine Or.inl ⟨hfits, fun fuel ↦ ?_⟩
    rw [happend, appendLen_eq h hsize hfits.1 hfits.2 (intValue_le _)]
  · refine Or.inr ⟨hfits, fun fuel ↦ ?_⟩
    rw [FitsInt, not_and_or, not_le, not_lt] at hfits
    rw [happend, appendLen_outside h hsize hsmall hbounds.1 hbounds.2 hfits]

/-! ### Termination -/

/-- Calls that use the buffer, with the number of turns that the loop may take. -/
inductive BufferCall
  | append (fuel : ℕ) (msg : List UInt8)
  | flushCache

/-- One call. -/
def bufferCall (logger : LoggerImpl) : BufferCall → Except LogFault LoggerImpl
  | .append fuel msg => asyncAppendLineInt fuel msg logger
  | .flushCache => logger.flushCache

/-- A call that returns. -/
def next (logger : LoggerImpl) (call : BufferCall) : Option LoggerImpl :=
  (logger.bufferCall call).toOption

/-- Whatever the lines are, there is room for a null byte behind the bytes in the buffer. -/
theorem next_keeps (hsize : 0 < size) (hsmall : size < 2147483648) {call : BufferCall}
    {result : LoggerImpl} (h : logger.Keeps size data) (hnext : logger.next call = some result) :
    ∃ held, result.Keeps size held := by
  cases call with
  | append fuel msg =>
    rcases asyncAppendLineInt_cases h hsize hsmall msg with ⟨-, hcut⟩ | ⟨-, houtside⟩
    · rw [next, bufferCall, hcut] at hnext
      rcases asyncAppendLine_passes h (msg.take (intValue msg.length).toNat) fuel with
        ⟨hfail, -⟩ | ⟨-, appended, held, rest, hok, hkeeps, -⟩
      · rw [hfail] at hnext
        cases hnext
      · rw [hok] at hnext
        obtain rfl := Option.some.inj hnext
        exact ⟨held, hkeeps⟩
    · rw [next, bufferCall, houtside] at hnext
      cases hnext
  | flushCache =>
    obtain ⟨flushed, hflush, hkeeps, -⟩ := flushCache_passes h
    rw [next, bufferCall, hflush] at hnext
    obtain rfl := Option.some.inj hnext
    exact ⟨[], hkeeps⟩

theorem reachable_keeps {nSize : Int32} (hsize : 1 ≤ nSize.toInt) {calls : List BufferCall}
    (hrun : Run (stepOf next) (initBuffer nSize.toInt) calls logger) :
    ∃ data, logger.Keeps nSize.toInt.toNat data := by
  have hbound := nSize.toInt_lt
  refine Run.invariant (fun logger ↦ ∃ data, logger.Keeps nSize.toInt.toNat data) hrun
    ⟨[], (initBuffer_holds _).toKeeps⟩ ?_
  rintro middle call last ⟨data, h⟩ hnext
  exact next_keeps (by omega) (by omega) h hnext

/-- The loop of `asyncAppendLine` ends, in every state that the buffer can be in, exactly if the
buffer has at least two bytes, or if the length of the line, as an `int`, is not positive. -/
theorem append_ends_iff {nSize : Int32} (hsize : 1 ≤ nSize.toInt) {calls : List BufferCall}
    (hrun : Run (stepOf next) (initBuffer nSize.toInt) calls logger) (msg : List UInt8) :
    (∃ fuel, asyncAppendLineInt fuel msg logger ≠ .error .unfinished) ↔
      2 ≤ nSize.toInt ∨ intValue msg.length ≤ 0 := by
  have hbound := nSize.toInt_lt
  obtain ⟨data, h⟩ := reachable_keeps hsize hrun
  have hlength : (msg.take (intValue msg.length).toNat).length = (intValue msg.length).toNat := by
    have := intValue_le msg.length
    rw [List.length_take]
    omega
  constructor
  · rintro ⟨fuel, hended⟩
    by_contra hneither
    have hone : nSize.toInt.toNat = 1 := by omega
    rw [hone] at h
    have hempty : data.length < 1 := h.length_lt one_pos
    have hfits : logger.FitsInt msg := by
      have hvalue := intValue_bounds msg.length
      rw [FitsInt, h.pos]
      omega
    rcases asyncAppendLineInt_cases h one_pos (by decide) msg with ⟨-, hcut⟩ | ⟨hlong, -⟩
    · rcases asyncAppendLine_passes h (msg.take (intValue msg.length).toNat) fuel with
        ⟨hfail, -⟩ | ⟨hsame | hnil, -⟩
      · exact hended ((hcut fuel).trans hfail)
      · exact hsame rfl
      · rw [hnil, List.length_nil] at hlength
        omega
    · exact hlong hfits
  · intro hends
    refine ⟨msg.length, ?_⟩
    rcases asyncAppendLineInt_cases h (by omega) (by omega) msg with ⟨-, hcut⟩ | ⟨-, houtside⟩
    · rw [hcut]
      rcases asyncAppendLine_passes h (msg.take (intValue msg.length).toNat) msg.length with
        ⟨-, hne, hone | hfew⟩ | ⟨-, result, held, rest, hok, -⟩
      · refine absurd (List.length_eq_zero_iff.mp ?_) hne
        omega
      · have := List.length_take_le (intValue msg.length).toNat msg
        rw [hlength] at hfew
        have := intValue_le msg.length
        omega
      · rw [hok]
        exact fun herror ↦ by cases herror
    · rw [houtside]
      exact fun herror ↦ by cases herror

/-- A line that is longer than the buffer of three bytes, after another one. -/
theorem append_ends_iff_three :
    ∃ logger, Run (stepOf next) (initBuffer (3 : Int32).toInt) [.append 2 (chars "Hi")] logger ∧
      ∃ fuel, asyncAppendLineInt fuel (chars "Hello") logger ≠ .error .unfinished :=
  ⟨_, Run.of_eval rfl, (append_ends_iff (by decide) (Run.of_eval rfl) _).mpr (.inl (by decide))⟩

/-- With a buffer of one byte, which `init_buffer` accepts, no number of turns is enough for a line
of one character. -/
theorem append_never_ends :
    1 ≤ (1 : Int32).toInt ∧ ∀ fuel, asyncAppendLineInt fuel (chars "a")
      (initBuffer (1 : Int32).toInt) = .error .unfinished := by
  refine ⟨by decide, fun fuel ↦ ?_⟩
  have hkeeps := (initBuffer_holds (1 : Int32).toInt).toKeeps
  rcases asyncAppendLineInt_cases hkeeps (by decide) (by decide) (chars "a") with
    ⟨-, hcut⟩ | ⟨hlong, -⟩
  · rw [hcut]
    rcases asyncAppendLine_passes hkeeps _ fuel with ⟨hfail, -⟩ | ⟨hsame | hnil, -⟩
    · exact hfail
    · exact absurd rfl hsame
    · exact absurd hnil (by decide)
  · exact absurd ⟨by decide, by decide⟩ hlong

/-! ### Transparency -/

/-- Lines without null bytes, and flushes between them. -/
inductive LineCall
  | append (msg : CStr)
  | flushCache

/-- One call, with the lines that were appended so far. The loop may take as many turns as the line
is long. -/
def lineCall (state : LoggerImpl × List CStr) : LineCall → Except LogFault (LoggerImpl × List CStr)
  | .append msg => do
    let logger ← state.1.bufferCall (.append msg.chars.length msg.chars)
    pure (logger, state.2 ++ [msg])
  | .flushCache => do
    let logger ← state.1.bufferCall .flushCache
    pure (logger, state.2)

/-- All lines, one after another. -/
def allText (lines : List CStr) : List UInt8 := (lines.map CStr.chars).flatten

/-- What was handed over and what is before the position is the text; the position is inside of the
buffer and all bytes from it on are null; and all that was handed over are pieces that are not empty
and fit into the buffer with a null byte behind them. -/
structure Transparent (logger : LoggerImpl) (size : ℕ) (text : List UInt8) : Prop where
  content : logger.output.flatten ++ logger.szBuffer.take logger.bufferPos = text
  position : logger.bufferPos ≤ size - 1
  cleared : logger.szBuffer.drop logger.bufferPos = List.replicate (size - logger.bufferPos) 0
  chunks : ∀ chunk ∈ logger.output, 1 ≤ chunk.length ∧ chunk.length ≤ size - 1

/-- A call has returned, with the buffer transparent; so no `strncpy` has left the buffer or the
line. -/
def TransparentOutcome (size : ℕ) : Except LogFault (LoggerImpl × List CStr) → Prop
  | .ok (logger, lines) => logger.Transparent size (allText lines)
  | .error _ => False

/-- The line and what is in the buffer have, together, a length that is an `int`. -/
def NotTooLong (state : LoggerImpl × List CStr) : LineCall → Prop
  | .append msg => msg.chars.length + state.1.bufferPos < 2147483648
  | .flushCache => True

theorem zero_notMem_allText (lines : List CStr) : 0 ∉ allText lines := by
  rw [allText, List.mem_flatten]
  rintro ⟨line, hline, hzero⟩
  obtain ⟨msg, -, rfl⟩ := List.mem_map.mp hline
  exact msg.clean hzero

theorem Transparent.holds {text : List UInt8} (h : logger.Transparent size text)
    (hsize : 0 < size) (hclean : 0 ∉ text) :
    logger.Holds size (logger.szBuffer.take logger.bufferPos) := by
  have hposition := h.position
  have hlength : (logger.szBuffer.take logger.bufferPos).length = logger.bufferPos := by
    have hdrop := congrArg List.length h.cleared
    rw [List.length_drop, List.length_replicate] at hdrop
    rw [List.length_take]
    omega
  refine ⟨⟨⟨?_, ?_⟩, hlength.symm⟩, ?_⟩
  · rw [hlength, ← h.cleared, List.take_append_drop]
  · rw [hlength]
    exact Or.inr (by omega)
  · rw [← h.content, List.mem_append, not_or] at hclean
    exact hclean.2

theorem Holds.take_pos (h : logger.Holds size data) :
    logger.szBuffer.take logger.bufferPos = data := by
  rw [h.bytes, h.pos, List.take_left' rfl]

/-- What goes through the buffer keeps it transparent. -/
theorem Transparent.passes {text held : List UInt8} {result : LoggerImpl} {line : List UInt8}
    (h : logger.Transparent size text) (hsize : 1 < size) (hclean : 0 ∉ text ++ line)
    (hholds : result.Holds size held)
    (hpasses : Passes size logger result (logger.szBuffer.take logger.bufferPos ++ line) held) :
    result.Transparent size (text ++ line) := by
  have hdata : 0 ∉ logger.szBuffer.take logger.bufferPos ++ line := by
    rw [← h.content, List.append_assoc, List.mem_append, not_or] at hclean
    exact hclean.2
  obtain ⟨pieces, houtput, hbounds, hflatten⟩ := hpasses.exists_pieces hdata
  refine ⟨?_, ?_, ?_, ?_⟩
  · rw [hholds.take_pos, houtput, List.flatten_append, List.append_assoc, hflatten,
      ← List.append_assoc, h.content]
  · have := hholds.toKeeps.length_lt (by omega)
    rw [hholds.pos]
    omega
  · rw [hholds.bytes, hholds.pos, List.drop_left' rfl]
  · rw [houtput]
    refine List.forall_mem_append.mpr ⟨h.chunks, fun piece hpiece ↦ ?_⟩
    obtain ⟨hne, hless⟩ := hbounds hsize piece hpiece
    exact ⟨List.length_pos_of_ne_nil hne, by omega⟩

/-- A line is appended with the buffer transparent afterwards exactly if it is not too long. A line
of 2^32 bytes or more would be cut, and then some of the text is missing. -/
theorem append_transparent_iff {lines : List CStr} (hsize : 2 ≤ size) (hsmall : size < 2147483648)
    (h : logger.Transparent size (allText lines)) (msg : CStr) :
    TransparentOutcome size (lineCall (logger, lines) (.append msg)) ↔
      msg.chars.length + logger.bufferPos < 2147483648 := by
  have htext : allText (lines ++ [msg]) = allText lines ++ msg.chars := by simp [allText]
  have hholds := h.holds (by omega) (zero_notMem_allText lines)
  have hle := intValue_le msg.chars.length
  have hclean : 0 ∉ msg.chars.take (intValue msg.chars.length).toNat :=
    fun hzero ↦ msg.clean (List.mem_of_mem_take hzero)
  rcases asyncAppendLineInt_cases hholds.toKeeps (by omega) hsmall msg.chars with
    ⟨hfits, hcut⟩ | ⟨hlong, houtside⟩
  · obtain ⟨-, -, hone | hfew⟩ | ⟨-, result, held, hok, hresult, hpasses, houtput⟩ :=
      asyncAppendLine_spec hholds hclean msg.chars.length
    · omega
    · rw [List.length_take] at hfew
      omega
    · have hcall : lineCall (logger, lines) (.append msg) = .ok (result, lines ++ [msg]) := by
        rw [lineCall, bufferCall, hcut, hok]
        rfl
      rw [hcall, TransparentOutcome, htext]
      constructor
      · intro hafter
        have hsame := hafter.content
        rw [hresult.take_pos, houtput, ← h.content, List.append_cancel_left_eq] at hsame
        have hlength := congrArg List.length hsame
        rw [List.length_take] at hlength
        have hsum := hfits.2
        have hposition := h.position
        omega
      · intro hshort
        have hall : msg.chars.take (intValue msg.chars.length).toNat = msg.chars := by
          rw [intValue_of_small (by omega) (by omega), Int.toNat_natCast, List.take_length]
        rw [hall] at hpasses
        refine h.passes (by omega) ?_ hresult hpasses
        rw [← htext]
        exact zero_notMem_allText _
  · have hcall : lineCall (logger, lines) (.append msg) = .error .outside := by
      rw [lineCall, bufferCall, houtside]
      rfl
    rw [hcall]
    refine iff_of_false (fun hfalse ↦ hfalse) fun hshort ↦ hlong ?_
    rw [FitsInt, intValue_of_small (by omega) (by omega)]
    omega

theorem flush_transparent {lines : List CStr} (hsize : 2 ≤ size)
    (h : logger.Transparent size (allText lines)) :
    TransparentOutcome size (lineCall (logger, lines) .flushCache) := by
  have hclean := zero_notMem_allText lines
  have hholds := h.holds (by omega) hclean
  obtain ⟨flushed, hflush, hkeeps, hpasses⟩ := flushCache_passes hholds.toKeeps
  have hcall : lineCall (logger, lines) .flushCache = .ok (flushed, lines) := by
    rw [lineCall, bufferCall, hflush]
    rfl
  rw [hcall, TransparentOutcome, ← List.append_nil (allText lines)]
  refine h.passes (by omega) (by rwa [List.append_nil]) ⟨hkeeps, List.not_mem_nil⟩ ?_
  rwa [List.append_nil]

/-- Whatever is appended and flushed, the buffer is transparent after each call if and only if each
line is, together with what is in the buffer before it, at most 2^31 − 1 bytes long. -/
theorem transparent_iff {nSize : Int32} (hsize : 2 ≤ nSize.toInt) (calls : List LineCall) :
    AlwaysGood lineCall (initBuffer nSize.toInt, []) (TransparentOutcome nSize.toInt.toNat) calls ↔
      MeetsGuard lineCall (initBuffer nSize.toInt, []) NotTooLong calls := by
  have hbound := nSize.toInt_lt
  have hfirst : TransparentOutcome nSize.toInt.toNat (.ok (initBuffer nSize.toInt, [])) := by
    refine ⟨rfl, Nat.zero_le _, ?_, fun chunk hchunk ↦ by cases hchunk⟩
    rfl
  refine alwaysGood_iff hfirst ?_ calls
  rintro ⟨logger, lines⟩ (msg | _) h
  · exact append_transparent_iff (by omega) (by omega) h msg
  · exact iff_of_true (flush_transparent (by omega) h) trivial

/-- A line of five characters. -/
def lineHello : CStr := ⟨chars "Hello", by decide⟩

/-- A buffer of three bytes hands over two pieces and keeps the last character. -/
theorem transparent_iff_hello :
    afterCalls lineCall (initBuffer (3 : Int32).toInt, []) [.append lineHello] =
        .ok (⟨chars "o\x00\x00", 1, [chars "He", chars "ll"]⟩, [lineHello]) ∧
      AlwaysGood lineCall (initBuffer (3 : Int32).toInt, []) (TransparentOutcome 3)
        [.append lineHello] := by
  refine ⟨rfl, (transparent_iff (by decide) _).mpr ?_⟩
  intro before call after state hcalls hstate
  obtain ⟨rfl, hrest⟩ : before = [] ∧ [LineCall.append lineHello] = call :: after := by
    rcases List.append_eq_singleton_iff.mp hcalls.symm with ⟨hnil, hrest⟩ | ⟨-, hcons⟩
    · exact ⟨hnil, hrest.symm⟩
    · cases hcons
  obtain ⟨rfl, -⟩ := List.cons.inj hrest
  obtain rfl := Except.ok.inj hstate
  change (chars "Hello").length + 0 < 2147483648
  decide

/-- A line of that many letters `a`. -/
def lettersA (count : ℕ) : CStr := ⟨List.replicate count 97, by simp [List.mem_replicate]⟩

theorem length_lettersA (count : ℕ) : (lettersA count).chars.length = count :=
  List.length_replicate

theorem append_long_line {msg : CStr} (hlength : msg.chars.length = 2147483648) :
    afterCalls lineCall (initBuffer (8 : Int32).toInt, []) [.append msg] = .error .outside := by
  have hkeeps := (initBuffer_holds (8 : Int32).toInt).toKeeps
  have hvalue : intValue (msg.chars.length : ℤ) = -2147483648 := by
    rw [hlength]
    decide
  rw [← List.nil_append [LineCall.append msg], afterCalls_snoc, afterCalls_nil]
  change lineCall (initBuffer (8 : Int32).toInt, []) (.append msg) = .error .outside
  rcases asyncAppendLineInt_cases hkeeps (by decide) (by decide) msg.chars with
    ⟨hfits, -⟩ | ⟨-, houtside⟩
  · rw [FitsInt, hvalue] at hfits
    exact absurd hfits.1 (by decide)
  · rw [lineCall, bufferCall, houtside]
    rfl

theorem long_line_not_transparent {msg : CStr} (hlength : msg.chars.length = 2147483648) :
    ¬AlwaysGood lineCall (initBuffer (8 : Int32).toInt, []) (TransparentOutcome 8)
      [.append msg] := by
  intro hgood
  have houtcome := hgood [.append msg] [] rfl
  rwa [append_long_line hlength] at houtcome

/-- A line of 2^31 bytes has the `int` length −2^31, and `strncpy` leaves the buffer of 8 bytes. -/
theorem long_line_leaves_buffer :
    afterCalls lineCall (initBuffer (8 : Int32).toInt, []) [.append (lettersA 2147483648)] =
        .error .outside ∧
      ¬AlwaysGood lineCall (initBuffer (8 : Int32).toInt, []) (TransparentOutcome 8)
        [.append (lettersA 2147483648)] :=
  ⟨append_long_line (length_lettersA 2147483648),
    long_line_not_transparent (length_lettersA 2147483648)⟩

end LoggerImpl

end Exc.Logger
