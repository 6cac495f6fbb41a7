import Exc.Lib.CString
import Mathlib.Data.Int.Notation

/-!
# The line buffer of the logger

`comLib/Logger_impl.cpp`: `init_buffer`, `asyncAppendLine` and `flush_cache`. Lines are collected in
`m_szBuffer` and handed to the appenders when the next one does not fit; a line that is longer than
the buffer is handed over in pieces.

The buffer is modelled as memory, so that `strncpy` and the reader of `flush` can leave it:
`LogFault`. The loop of `asyncAppendLine` takes a bound on its turns, since it does not end with a
buffer of one byte (`asyncAppendLine_spec` says which bound is enough otherwise).

The buffer is transparent: `LoggerImpl.Holds` says that it holds certain bytes and null bytes behind
them, and `asyncAppendLine_spec` and `flushCache_spec` that what was handed over together with what
is held is all that was appended.

Scope. The appenders are what is handed to them, in `output`. Lengths are natural numbers here, as
they are for lines below 2^31 bytes; the `int`s of the source are in `Transparency`.
-/

set_option autoImplicit false
set_option relaxedAutoImplicit false

namespace Exc.Logger

open Lib

/-- The buffer, which is empty when `m_szBuffer` is null, `m_nBufferPos`, and what was handed to the
appenders. -/
structure LoggerImpl where
  szBuffer : List UInt8
  bufferPos : ℕ
  output : List (List UInt8)

/-- An access outside of memory, or a loop that takes more turns than allowed. -/
inductive LogFault
  | outside
  | unfinished
  deriving DecidableEq

namespace LoggerImpl

/-- `m_nBufferSize`. -/
def bufferSize (logger : LoggerImpl) : ℕ := logger.szBuffer.length

/-- `init_buffer` of a new logger. -/
def initBuffer (size : ℤ) : LoggerImpl := ⟨List.replicate size.toNat 0, 0, []⟩

/-- `flush(msg.c_str())`. -/
def flushLine (logger : LoggerImpl) (msg : List UInt8) : LoggerImpl :=
  { logger with output := logger.output ++ [cstring msg] }

/-- `flush(m_szBuffer)`. -/
def flushBuffer (logger : LoggerImpl) : Except LogFault LoggerImpl :=
  if 0 ∈ logger.szBuffer then
    .ok { logger with output := logger.output ++ [cstring logger.szBuffer] }
  else .error .outside

/-- `reset_buffer`. -/
def resetBuffer (logger : LoggerImpl) : LoggerImpl :=
  { logger with szBuffer := List.replicate logger.bufferSize 0, bufferPos := 0 }

/-- `strncpy` into the buffer. -/
def copy (logger : LoggerImpl) (offset : ℕ) (msg : List UInt8) (start count : ℕ) :
    Except LogFault LoggerImpl :=
  match strncpy logger.szBuffer offset msg start count with
  | some szBuffer => .ok { logger with szBuffer := szBuffer }
  | none => .error .outside

/-- The loop of `asyncAppendLine`: `i`, `len` and the logger at its end. -/
def splitLoop (msg : List UInt8) : ℕ → ℕ → ℕ → LoggerImpl → Except LogFault (ℕ × ℕ × LoggerImpl)
  | 0, i, len, logger =>
    if len < logger.bufferSize then .ok (i, len, logger) else .error .unfinished
  | fuel + 1, i, len, logger =>
    if len < logger.bufferSize then .ok (i, len, logger)
    else do
      let copied ← logger.copy 0 msg (i * (logger.bufferSize - 1)) (logger.bufferSize - 1)
      let flushed ← copied.flushBuffer.map resetBuffer
      splitLoop msg fuel (i + 1) (len - (logger.bufferSize - 1)) flushed

/-- The part of `asyncAppendLine` behind the loop. -/
def appendRest (msg : List UInt8) (i len : ℕ) (logger : LoggerImpl) : Except LogFault LoggerImpl :=
  if 0 < len then do
    let copied ← logger.copy 0 msg (i * (logger.bufferSize - 1)) len
    pure { copied with bufferPos := copied.bufferPos + len }
  else .ok logger

/-- The part of `asyncAppendLine` for a line that does not fit, when the buffer is empty. -/
def splitLine (fuel : ℕ) (msg : List UInt8) (logger : LoggerImpl) : Except LogFault LoggerImpl := do
  let (i, len, split) ← splitLoop msg fuel 0 msg.length logger
  appendRest msg i len split

/-- `asyncAppendLine`, with at most `fuel` turns of its loop. -/
def asyncAppendLine (fuel : ℕ) (msg : List UInt8) (logger : LoggerImpl) :
    Except LogFault LoggerImpl :=
  if logger.bufferSize = 0 then .ok (logger.flushLine msg)
  else if logger.bufferSize ≤ msg.length + logger.bufferPos then do
    let flushed ← if 0 < logger.bufferPos then
        logger.flushBuffer.map resetBuffer
      else .ok logger
    splitLine fuel msg flushed
  else do
    let copied ← logger.copy logger.bufferPos msg 0 msg.length
    pure { copied with bufferPos := copied.bufferPos + msg.length }

/-- `flush_cache`. -/
def flushCache (logger : LoggerImpl) : Except LogFault LoggerImpl :=
  if logger.bufferSize ≠ 0 ∧ 0 < logger.bufferPos then logger.flushBuffer.map resetBuffer
  else .ok logger

/-! ### What the buffer holds -/

/-- A buffer of a size has bytes, and null bytes behind them. -/
structure Carries (logger : LoggerImpl) (size : ℕ) (data : List UInt8) : Prop where
  bytes : logger.szBuffer = data ++ List.replicate (size - data.length) 0
  fits : data = [] ∨ data.length < size

/-- Between two calls the position is at the end of the bytes. -/
structure Keeps (logger : LoggerImpl) (size : ℕ) (data : List UInt8) : Prop
    extends logger.Carries size data where
  pos : logger.bufferPos = data.length

/-- None of the bytes is null. -/
structure Holds (logger : LoggerImpl) (size : ℕ) (data : List UInt8) : Prop
    extends logger.Keeps size data where
  clean : 0 ∉ data

/-- Bytes go through the buffer: pieces of them are handed over, each up to its first null byte, and
the rest of them stays. With a buffer of more than one byte no piece is empty, and each fits. -/
def Passes (size : ℕ) (before after : LoggerImpl) (data rest : List UInt8) : Prop :=
  ∃ pieces : List (List UInt8), after.output = before.output ++ pieces.map cstring ∧
    (1 < size → ∀ piece ∈ pieces, piece ≠ [] ∧ piece.length < size) ∧
    pieces.flatten ++ rest = data

variable {logger : LoggerImpl} {size : ℕ} {data msg : List UInt8}

theorem initBuffer_holds (size : ℤ) : (initBuffer size).Holds size.toNat [] :=
  ⟨⟨⟨rfl, Or.inl rfl⟩, rfl⟩, List.not_mem_nil⟩

theorem Carries.bufferSize (h : logger.Carries size data) : logger.bufferSize = size := by
  have hlength := congrArg List.length h.bytes
  rw [List.length_append, List.length_replicate] at hlength
  rw [LoggerImpl.bufferSize]
  rcases h.fits with hnil | hless
  · simpa [hnil] using hlength
  · omega

theorem Carries.length_lt (h : logger.Carries size data) (hsize : 0 < size) :
    data.length < size := by
  rcases h.fits with hnil | hless
  · rwa [hnil]
  · exact hless

theorem Passes.refl (size : ℕ) (logger : LoggerImpl) (data : List UInt8) :
    Passes size logger logger data data := ⟨[], by simp, by simp, rfl⟩

theorem Passes.trans {first second third : LoggerImpl} {middle rest : List UInt8}
    (hfirst : Passes size first second data middle)
    (hsecond : Passes size second third middle rest) : Passes size first third data rest := by
  obtain ⟨pieces, houtput, hbounds, hflatten⟩ := hfirst
  obtain ⟨others, hothers, hmore, hrest⟩ := hsecond
  refine ⟨pieces ++ others, ?_, fun hsize ↦ ?_, ?_⟩
  · rw [hothers, houtput, List.map_append, List.append_assoc]
  · exact List.forall_mem_append.mpr ⟨hbounds hsize, hmore hsize⟩
  · rw [List.flatten_append, List.append_assoc, hrest, hflatten]

/-- One piece is handed over. -/
theorem Passes.piece {before after : LoggerImpl} {piece : List UInt8}
    (houtput : after.output = before.output ++ [cstring piece])
    (hbounds : 1 < size → piece ≠ [] ∧ piece.length < size) (rest : List UInt8) :
    Passes size before after (piece ++ rest) rest :=
  ⟨[piece], houtput, fun hsize ↦ by simpa using hbounds hsize, by simp⟩

/-- Without null bytes the pieces are handed over as they are. -/
theorem Passes.exists_pieces {before after : LoggerImpl} {rest : List UInt8}
    (h : Passes size before after data rest) (hclean : 0 ∉ data) :
    ∃ pieces : List (List UInt8), after.output = before.output ++ pieces ∧
      (1 < size → ∀ piece ∈ pieces, piece ≠ [] ∧ piece.length < size) ∧
      pieces.flatten ++ rest = data := by
  obtain ⟨pieces, houtput, hbounds, rfl⟩ := h
  have hsame : pieces.map cstring = pieces.map id := by
    refine List.map_congr_left fun piece hpiece ↦ cstring_eq_self fun hzero ↦ hclean ?_
    exact List.mem_append_left _ (List.mem_flatten_of_mem hpiece hzero)
  rw [hsame, List.map_id] at houtput
  exact ⟨pieces, houtput, hbounds, rfl⟩

/-- Without null bytes, all that goes in is what comes out and what stays. -/
theorem Passes.flatten {before after : LoggerImpl} {rest : List UInt8}
    (h : Passes size before after data rest) (hclean : 0 ∉ data) :
    after.output.flatten ++ rest = before.output.flatten ++ data := by
  obtain ⟨pieces, houtput, -, hflatten⟩ := h.exists_pieces hclean
  rw [houtput, List.flatten_append, List.append_assoc, hflatten]

/-- The buffer is handed over and emptied. -/
theorem Carries.flush_reset (h : logger.Carries size data) (hsize : 0 < size) :
    ∃ flushed, logger.flushBuffer.map LoggerImpl.resetBuffer = .ok flushed ∧
      flushed.Keeps size [] ∧ flushed.output = logger.output ++ [cstring data] := by
  have hless := h.length_lt hsize
  have hzero : 0 ∈ logger.szBuffer := by
    rw [h.bytes]
    exact List.mem_append_right _ (List.mem_replicate.mpr ⟨by omega, rfl⟩)
  have hsame := h.bufferSize
  rw [LoggerImpl.bufferSize] at hsame
  refine ⟨⟨List.replicate size 0, 0, logger.output ++ [cstring data]⟩, ?_,
    ⟨⟨rfl, Or.inl rfl⟩, rfl⟩, rfl⟩
  rw [LoggerImpl.flushBuffer, if_pos hzero]
  simp only [Except.map, LoggerImpl.resetBuffer, LoggerImpl.bufferSize, hsame]
  rw [h.bytes, cstring_append_replicate]

/-- Bytes of a line are copied behind those that the buffer has. -/
theorem Carries.copy (h : logger.Carries size data) {start count : ℕ}
    (hsource : start + count ≤ msg.length) (hdest : data.length + count < size) :
    ∃ copied, logger.copy data.length msg start count = .ok copied ∧
      copied.Carries size (data ++ padded ((msg.drop start).take count)) ∧
      copied.output = logger.output ∧ copied.bufferPos = logger.bufferPos := by
  have hsize := h.bufferSize
  have hlength : ((msg.drop start).take count).length = count := by
    rw [List.length_take, List.length_drop]
    omega
  have hroom : data.length + count ≤ logger.szBuffer.length := by
    rw [LoggerImpl.bufferSize] at hsize
    omega
  have hrest : logger.szBuffer.drop (data.length + count) =
      List.replicate (size - (data.length + count)) 0 := by
    rw [h.bytes, List.drop_append, List.drop_of_length_le (by omega), List.nil_append,
      List.drop_replicate]
    congr 1
    omega
  refine ⟨{ logger with
    szBuffer := data ++ padded ((msg.drop start).take count) ++
      List.replicate (size - (data.length + count)) 0 }, ?_, ⟨?_, ?_⟩, rfl, rfl⟩
  · rw [LoggerImpl.copy, strncpy_eq hsource hroom, hrest, h.bytes, List.take_left' rfl]
  · dsimp only
    rw [List.length_append, length_padded, hlength]
  · exact Or.inr (by rw [List.length_append, length_padded, hlength]; exact hdest)

/-! ### Appending and flushing -/

/-- `flush_cache` hands over what is held. -/
theorem flushCache_passes (h : logger.Keeps size data) :
    ∃ flushed, logger.flushCache = .ok flushed ∧ flushed.Keeps size [] ∧
      Passes size logger flushed data [] := by
  unfold flushCache
  split_ifs with hheld
  · rw [h.bufferSize, h.pos] at hheld
    obtain ⟨flushed, hflush, hkeeps, houtput⟩ := h.flush_reset (by omega)
    have hbounds : 1 < size → data ≠ [] ∧ data.length < size :=
      fun hsize ↦ ⟨List.ne_nil_of_length_pos hheld.2, h.length_lt (by omega)⟩
    have hpasses := Passes.piece houtput hbounds []
    rw [List.append_nil] at hpasses
    exact ⟨flushed, hflush, hkeeps, hpasses⟩
  · have hnil : data = [] := by
      rw [h.bufferSize, h.pos] at hheld
      rcases h.fits with hnil | hless
      · exact hnil
      · exact List.length_eq_zero_iff.mp (by omega)
    subst hnil
    exact ⟨logger, rfl, h, Passes.refl size logger []⟩

/-- One turn of the loop hands over the next piece. -/
theorem splitLoop_turn (h : logger.Keeps size []) (hsize : 0 < size) {i len : ℕ}
    (hlen : size ≤ len) (htotal : i * (size - 1) + len = msg.length) (fuel : ℕ) :
    ∃ flushed, splitLoop msg (fuel + 1) i len logger =
        splitLoop msg fuel (i + 1) (len - (size - 1)) flushed ∧
      flushed.Keeps size [] ∧
      Passes size logger flushed (msg.drop (i * (size - 1))) (msg.drop ((i + 1) * (size - 1))) := by
  have hsource : i * (size - 1) + (size - 1) ≤ msg.length := by omega
  obtain ⟨copied, hcopy, hcarries, houtput, -⟩ := h.copy hsource (by rw [List.length_nil]; omega)
  obtain ⟨flushed, hflush, hkeeps, hflushed⟩ := hcarries.flush_reset hsize
  refine ⟨flushed, ?_, hkeeps, ?_⟩
  · rw [List.length_nil] at hcopy
    rw [splitLoop, if_neg (by rw [h.bufferSize]; omega), h.bufferSize, hcopy]
    simp only [bind, Except.bind, hflush]
  · rw [houtput, List.nil_append, cstring_padded] at hflushed
    have hlength : ((msg.drop (i * (size - 1))).take (size - 1)).length = size - 1 := by
      rw [List.length_take, List.length_drop]
      omega
    have hbounds : 1 < size → (msg.drop (i * (size - 1))).take (size - 1) ≠ [] ∧
        ((msg.drop (i * (size - 1))).take (size - 1)).length < size :=
      fun hone ↦ ⟨List.ne_nil_of_length_pos (by omega), by omega⟩
    have hpasses := Passes.piece hflushed hbounds ((msg.drop (i * (size - 1))).drop (size - 1))
    rwa [List.take_append_drop, List.drop_drop, ← Nat.succ_mul] at hpasses

/-- The loop hands over pieces until the rest of the line fits into the buffer, or its turns are
used up; with a buffer of more than one byte, as many turns as the line is long are enough. -/
theorem splitLoop_spec (h : logger.Keeps size []) (hsize : 0 < size) {i len : ℕ}
    (htotal : i * (size - 1) + len = msg.length) (fuel : ℕ) :
    (splitLoop msg fuel i len logger = .error .unfinished ∧ (size = 1 ∨ fuel < len)) ∨
    ∃ next rest split, splitLoop msg fuel i len logger = .ok (next, rest, split) ∧
      split.Keeps size [] ∧ rest < size ∧ next * (size - 1) + rest = msg.length ∧
      Passes size logger split (msg.drop (i * (size - 1))) (msg.drop (next * (size - 1))) := by
  induction fuel generalizing i len logger with
  | zero =>
    by_cases hfits : len < size
    · exact Or.inr ⟨i, len, logger, by rw [splitLoop, if_pos (by rw [h.bufferSize]; exact hfits)],
        h, hfits, htotal, Passes.refl ..⟩
    · refine Or.inl ⟨by rw [splitLoop, if_neg (by rw [h.bufferSize]; exact hfits)], Or.inr ?_⟩
      omega
  | succ fuel ih =>
    by_cases hfits : len < size
    · exact Or.inr ⟨i, len, logger, by rw [splitLoop, if_pos (by rw [h.bufferSize]; exact hfits)],
        h, hfits, htotal, Passes.refl ..⟩
    · obtain ⟨flushed, hturn, hkeeps, hflushed⟩ :=
        splitLoop_turn h hsize (Nat.le_of_not_lt hfits) htotal fuel
      have hnext : (i + 1) * (size - 1) + (len - (size - 1)) = msg.length := by
        rw [Nat.succ_mul]
        omega
      rw [hturn]
      obtain ⟨hfail, hfuel⟩ | ⟨next, rest, split, hok, hsplit, hrest, hlength, hpasses⟩ :=
        ih hkeeps hnext
      · exact Or.inl ⟨hfail, by omega⟩
      · exact Or.inr ⟨next, rest, split, hok, hsplit, hrest, hlength, hflushed.trans hpasses⟩

/-- With a buffer of one byte the loop does not get further. -/
theorem splitLoop_one (h : logger.Keeps 1 []) {i len : ℕ} (hlen : 0 < len)
    (htotal : len = msg.length) (fuel : ℕ) :
    splitLoop msg fuel i len logger = .error .unfinished := by
  induction fuel generalizing i logger with
  | zero => rw [splitLoop, if_neg (by rw [h.bufferSize]; omega)]
  | succ fuel ih =>
    obtain ⟨flushed, hturn, hkeeps, -⟩ :=
      splitLoop_turn h one_pos hlen (show i * (1 - 1) + len = msg.length by omega) fuel
    rw [hturn]
    exact ih hkeeps

/-- The rest of a line goes into the empty buffer. -/
theorem appendRest_spec (h : logger.Keeps size []) {i len : ℕ} (hlen : len < size)
    (htotal : i * (size - 1) + len = msg.length) :
    ∃ result, appendRest msg i len logger = .ok result ∧
      result.Keeps size (padded (msg.drop (i * (size - 1)))) ∧ result.output = logger.output := by
  have hdrop : (msg.drop (i * (size - 1))).take len = msg.drop (i * (size - 1)) :=
    List.take_of_length_le (by rw [List.length_drop]; omega)
  unfold appendRest
  split_ifs with hpos
  · obtain ⟨copied, hcopy, hcarries, houtput, hposition⟩ :=
      h.copy htotal.le (by rw [List.length_nil]; omega)
    rw [List.nil_append, hdrop] at hcarries
    rw [List.length_nil] at hcopy
    refine ⟨{ copied with bufferPos := copied.bufferPos + len }, ?_,
      ⟨⟨hcarries.bytes, hcarries.fits⟩, ?_⟩, houtput⟩
    · rw [h.bufferSize, hcopy]
      rfl
    · change copied.bufferPos + len = _
      rw [hposition, h.pos, List.length_nil, length_padded, List.length_drop]
      omega
  · have hnil : msg.drop (i * (size - 1)) = [] := List.drop_of_length_le (by omega)
    rw [hnil]
    exact ⟨logger, rfl, h, rfl⟩

/-- A line goes through the empty buffer. -/
theorem splitLine_spec (h : logger.Keeps size []) (hsize : 0 < size) (hne : msg ≠ []) (fuel : ℕ) :
    (splitLine fuel msg logger = .error .unfinished ∧ (size = 1 ∨ fuel < msg.length)) ∨
    (size ≠ 1 ∧ ∃ result rest, splitLine fuel msg logger = .ok result ∧
      result.Keeps size (padded rest) ∧ Passes size logger result msg rest) := by
  by_cases hone : size = 1
  · subst hone
    refine Or.inl ⟨?_, Or.inl rfl⟩
    rw [splitLine, splitLoop_one h (List.length_pos_of_ne_nil hne) rfl fuel]
    rfl
  · obtain ⟨hfail, hfuel⟩ | ⟨next, rest, split, hok, hsplit, hrest, htotal, hpasses⟩ :=
      splitLoop_spec h hsize (show 0 * (size - 1) + msg.length = msg.length by omega) fuel
    · exact Or.inl ⟨by rw [splitLine, hfail]; rfl, hfuel⟩
    · obtain ⟨result, hresult, hkeeps, hsame⟩ := appendRest_spec hsplit hrest htotal
      refine Or.inr ⟨hone, result, _, ?_, hkeeps, ?_⟩
      · rw [splitLine, hok]
        exact hresult
      · rw [Nat.zero_mul, List.drop_zero] at hpasses
        obtain ⟨pieces, houtput, hpieces⟩ := hpasses
        exact ⟨pieces, hsame.trans houtput, hpieces⟩

/-- `asyncAppendLine` makes the line part of what goes through the buffer, or the turns of its loop
are used up: the buffer has one byte, or there are fewer turns than the line is long. -/
theorem asyncAppendLine_passes (h : logger.Keeps size data) (msg : List UInt8) (fuel : ℕ) :
    (asyncAppendLine fuel msg logger = .error .unfinished ∧ msg ≠ [] ∧
      (size = 1 ∨ fuel < msg.length)) ∨
    ((size ≠ 1 ∨ msg = []) ∧ ∃ result held rest, asyncAppendLine fuel msg logger = .ok result ∧
      result.Keeps size held ∧ Passes size logger result (data ++ msg) rest ∧
      (0 ∉ rest → held = rest)) := by
  unfold asyncAppendLine
  rw [h.bufferSize, h.pos]
  split_ifs with hnull hfull hheld
  · have hnil : data = [] := h.fits.resolve_right (by omega)
    subst hnil
    have hpasses : Passes size logger (logger.flushLine msg) (msg ++ []) [] :=
      Passes.piece rfl (by omega) []
    rw [List.append_nil] at hpasses
    exact Or.inr ⟨Or.inl (by omega), _, [], [], rfl, ⟨⟨h.bytes, h.fits⟩, h.pos⟩, hpasses,
      fun _ ↦ rfl⟩
  · have hless := h.length_lt (by omega)
    have hne : msg ≠ [] := List.ne_nil_of_length_pos (by omega)
    obtain ⟨flushed, hflush, hkeeps, houtput⟩ := h.flush_reset (by omega)
    have hflushed : Passes size logger flushed (data ++ msg) msg :=
      Passes.piece houtput (fun _ ↦ ⟨List.ne_nil_of_length_pos hheld, hless⟩) msg
    rw [hflush]
    rcases splitLine_spec hkeeps (by omega) hne fuel with
      ⟨hfail, hfuel⟩ | ⟨hone, result, rest, hok, hresult, hpasses⟩
    · exact Or.inl ⟨hfail, hne, hfuel⟩
    · exact Or.inr ⟨Or.inl hone, result, _, rest, hok, hresult, hflushed.trans hpasses,
        padded_eq_self⟩
  · have hnil : data = [] := List.length_eq_zero_iff.mp (by omega)
    subst hnil
    have hne : msg ≠ [] := List.ne_nil_of_length_pos (by
      rw [List.length_nil] at hfull
      omega)
    rcases splitLine_spec h (by omega) hne fuel with
      ⟨hfail, hfuel⟩ | ⟨hone, result, rest, hok, hresult, hpasses⟩
    · exact Or.inl ⟨hfail, hne, hfuel⟩
    · exact Or.inr ⟨Or.inl hone, result, _, rest, hok, hresult, hpasses, padded_eq_self⟩
  · obtain ⟨copied, hcopy, hcarries, houtput, hposition⟩ :=
      h.copy (show 0 + msg.length ≤ msg.length by omega) (by omega)
    rw [List.drop_zero, List.take_length] at hcarries
    refine Or.inr ⟨?_, { copied with bufferPos := copied.bufferPos + msg.length },
      data ++ padded msg, data ++ msg, ?_, ⟨⟨hcarries.bytes, hcarries.fits⟩, ?_⟩, ?_, ?_⟩
    · by_cases hone : size = 1
      · exact Or.inr (List.length_eq_zero_iff.mp (by omega))
      · exact Or.inl hone
    · rw [hcopy]
      rfl
    · change copied.bufferPos + msg.length = _
      rw [hposition, h.pos, List.length_append, length_padded]
    · exact ⟨[], by simpa using houtput, by simp, rfl⟩
    · intro hclean
      rw [padded_eq_self fun hzero ↦ hclean (List.mem_append_right _ hzero)]

/-- `flush_cache` of a buffer without null bytes in its contents. -/
theorem flushCache_spec (h : logger.Holds size data) :
    ∃ flushed, logger.flushCache = .ok flushed ∧ flushed.Holds size [] ∧
      flushed.output.flatten = logger.output.flatten ++ data := by
  obtain ⟨flushed, hflush, hkeeps, hpasses⟩ := flushCache_passes h.toKeeps
  have houtput := hpasses.flatten h.clean
  rw [List.append_nil] at houtput
  exact ⟨flushed, hflush, ⟨hkeeps, List.not_mem_nil⟩, houtput⟩

/-- `asyncAppendLine` of a line without null bytes: the line becomes part of what was appended. -/
theorem asyncAppendLine_spec (h : logger.Holds size data) (hmsg : 0 ∉ msg) (fuel : ℕ) :
    (asyncAppendLine fuel msg logger = .error .unfinished ∧ msg ≠ [] ∧
      (size = 1 ∨ fuel < msg.length)) ∨
    ((size ≠ 1 ∨ msg = []) ∧ ∃ result held, asyncAppendLine fuel msg logger = .ok result ∧
      result.Holds size held ∧ Passes size logger result (data ++ msg) held ∧
      result.output.flatten ++ held = logger.output.flatten ++ data ++ msg) := by
  have hclean : 0 ∉ data ++ msg := by
    rw [List.mem_append, not_or]
    exact ⟨h.clean, hmsg⟩
  rcases asyncAppendLine_passes h.toKeeps msg fuel with
    hfail | ⟨hsize, result, held, rest, hok, hkeeps, hpasses, hheld⟩
  · exact Or.inl hfail
  · have hrest : 0 ∉ rest := by
      obtain ⟨pieces, -, -, hflatten⟩ := hpasses
      rw [← hflatten, List.mem_append, not_or] at hclean
      exact hclean.2
    obtain rfl := hheld hrest
    have houtput := hpasses.flatten hclean
    rw [← List.append_assoc] at houtput
    exact Or.inr ⟨hsize, result, held, hok, ⟨hkeeps, hrest⟩, hpasses, houtput⟩

end LoggerImpl

end Exc.Logger
