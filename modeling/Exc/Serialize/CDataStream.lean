import Exc.Lib.ByteStream

/-!
# CDataStream

The class `CDataStream`, a buffer that bytes are written to at the end and read from at a position
that moves on. Whenever the position gets to the end the buffer is cleared, and until then `Rewind`
can go back.

A `CDataStream` is a queue of bytes for every program that reads from it, as long as it holds less
than `2 ^ 31` bytes: the position is a number of 32 bits.
-/

set_option autoImplicit false
set_option relaxedAutoImplicit false

namespace Exc.Serialize

open Lib

/-- The bits of `std::ios`. -/
structure IoState where
  badbit : Bool
  failbit : Bool
  eofbit : Bool
  deriving DecidableEq, Repr

namespace IoState

def good : IoState := ⟨false, false, false⟩

def union (first second : IoState) : IoState :=
  ⟨first.badbit || second.badbit, first.failbit || second.failbit, first.eofbit || second.eofbit⟩

/-- `first & second`, as a condition. -/
def meets (first second : IoState) : Bool :=
  first.badbit && second.badbit || first.failbit && second.failbit || first.eofbit && second.eofbit

end IoState

/-- `std::ios::failbit`. -/
def failbit : IoState := ⟨false, true, false⟩

structure CDataStream where
  vch : List UInt8
  nReadPos : ℕ
  state : IoState
  exceptmask : IoState
  nReadPos_le : nReadPos ≤ vch.length

namespace CDataStream

/-- The constructors, from the bytes that are in the buffer. -/
def init (vch : List UInt8) : CDataStream :=
  ⟨vch, 0, .good, ⟨true, true, false⟩, Nat.zero_le _⟩

/-- From `begin()` to `end()`. -/
def content (stream : CDataStream) : List UInt8 := stream.vch.drop stream.nReadPos

/-- What is in front of `begin()`. -/
def past (stream : CDataStream) : List UInt8 := stream.vch.take stream.nReadPos

/-- The buffer with other contents, read from a position. -/
def withBuffer (stream : CDataStream) (past content : List UInt8) : CDataStream :=
  { stream with
    vch := past ++ content
    nReadPos := past.length
    nReadPos_le := by simp }

@[simp] theorem content_withBuffer (stream : CDataStream) (past content : List UInt8) :
    (stream.withBuffer past content).content = content := List.drop_left

theorem past_append_content (stream : CDataStream) :
    stream.past ++ stream.content = stream.vch := List.take_append_drop _ _

/-! ### The stream -/

/-- `setstate`. -/
def setstate (bits : IoState) (psz : String) : Program CDataStream PUnit := do
  let stream ← get
  set { stream with state := stream.state.union bits }
  if (stream.state.union bits).meets stream.exceptmask then throw (.exception psz)

/-- `read`; the result is the memory behind `pch`. -/
def read (nSize : ℕ) : Program CDataStream (List UInt8) := do
  let stream ← get
  let nReadPosNext := (stream.nReadPos + nSize) % 2 ^ 32
  if stream.vch.length ≤ nReadPosNext then
    if stream.vch.length < nReadPosNext then
      setstate failbit "CDataStream::read() : end of data"
    let failed ← get
    set (failed.withBuffer [] [])
    let found := stream.content.take nSize
    return found ++ List.replicate (nSize - found.length) 0
  else
    set (stream.withBuffer (stream.vch.take nReadPosNext) (stream.vch.drop nReadPosNext))
    return stream.content.take nSize

/-- `write`. -/
def write (stream : CDataStream) (pch : List UInt8) : CDataStream :=
  stream.withBuffer stream.past (stream.content ++ pch)

/-! ### A queue of bytes -/

/-- The buffer is not larger than a bound, and an error of a read is an exception. -/
structure Sound (bound : ℕ) (stream : CDataStream) : Prop where
  length_le : stream.vch.length ≤ bound
  excepts : stream.exceptmask.failbit = true

variable {bound : ℕ}

theorem length_content (stream : CDataStream) :
    stream.content.length = stream.vch.length - stream.nReadPos := List.length_drop

theorem exec_setstate {stream : CDataStream} (hexcepts : stream.exceptmask.failbit = true)
    (psz : String) :
    (setstate failbit psz).exec stream =
      (.error (.exception psz), { stream with state := stream.state.union failbit }) := by
  have hmeets : (stream.state.union failbit).meets stream.exceptmask = true := by
    simp [IoState.meets, IoState.union, failbit, hexcepts]
  rw [setstate, exec_bind, exec_get]
  simp only [exec_bind, exec_set, if_pos hmeets, exec_throw]

/-- The buffer after a number of bytes is taken: it is cleared at the end. -/
def advance (stream : CDataStream) (count : ℕ) : CDataStream :=
  if stream.content.length ≤ count then stream.withBuffer [] []
  else stream.withBuffer (stream.past ++ stream.content.take count) (stream.content.drop count)

theorem content_advance (stream : CDataStream) (count : ℕ) :
    (stream.advance count).content = stream.content.drop count := by
  rw [advance]
  split_ifs with hend
  · rw [content_withBuffer, List.drop_eq_nil_of_le hend]
  · rw [content_withBuffer]

theorem Sound.advance {stream : CDataStream} (hsound : Sound bound stream) (count : ℕ) :
    Sound bound (stream.advance count) := by
  rw [CDataStream.advance]
  split_ifs with hend
  · exact ⟨Nat.zero_le _, hsound.excepts⟩
  · refine ⟨?_, hsound.excepts⟩
    change (stream.past ++ stream.content.take count ++ stream.content.drop count).length ≤ bound
    rw [List.append_assoc, List.take_append_drop, past_append_content]
    exact hsound.length_le

/-- A position inside the buffer. -/
theorem withBuffer_take_drop (stream : CDataStream) (count : ℕ) :
    stream.withBuffer (stream.vch.take (stream.nReadPos + count))
        (stream.vch.drop (stream.nReadPos + count)) =
      stream.withBuffer (stream.past ++ stream.content.take count) (stream.content.drop count) := by
  rw [List.take_add, ← past, ← content, ← List.drop_drop, ← content]

theorem exec_read {stream : CDataStream} {count : ℕ} (hsound : Sound bound stream)
    (hbound : bound < 2 ^ 31) (hcount : count < 2 ^ 31) (hle : count ≤ stream.content.length) :
    (read count).exec stream = (.ok (stream.content.take count), stream.advance count) := by
  have hlength := hsound.length_le
  have hpos := stream.nReadPos_le
  have hcontent := stream.length_content
  have hmod : (stream.nReadPos + count) % 2 ^ 32 = stream.nReadPos + count :=
    Nat.mod_eq_of_lt (by omega)
  have hnot : ¬stream.vch.length < stream.nReadPos + count := by omega
  have hfound : (stream.content.take count).length = count := List.length_take_of_le hle
  rw [read, exec_bind, exec_get]
  simp only [hmod, if_neg hnot]
  by_cases hend : stream.vch.length ≤ stream.nReadPos + count
  · have hall : stream.content.length ≤ count := by omega
    simp only [if_pos hend, exec_bind, exec_get, exec_set, exec_pure, advance, if_pos hall, hfound,
      Nat.sub_self, List.replicate_zero, List.append_nil]
  · have hall : ¬stream.content.length ≤ count := by omega
    simp only [if_neg hend, exec_bind, exec_set, exec_pure, advance, if_neg hall,
      withBuffer_take_drop]

theorem exec_read_of_lt {stream : CDataStream} {count : ℕ} (hsound : Sound bound stream)
    (hbound : bound < 2 ^ 31) (hcount : count < 2 ^ 31) (hlt : stream.content.length < count) :
    (read count).exec stream = (.error (.exception "CDataStream::read() : end of data"),
      { stream with state := stream.state.union failbit }) := by
  have hlength := hsound.length_le
  have hpos := stream.nReadPos_le
  have hcontent := stream.length_content
  have hmod : (stream.nReadPos + count) % 2 ^ 32 = stream.nReadPos + count :=
    Nat.mod_eq_of_lt (by omega)
  have hend : stream.vch.length < stream.nReadPos + count := by omega
  rw [read, exec_bind, exec_get]
  simp only [hmod, if_pos hend, if_pos hend.le, exec_bind, exec_setstate hsound.excepts]

instance : ByteStream CDataStream := ⟨read⟩

/-- A stream that holds not more than a bound is a queue of bytes. -/
@[reducible] def lawful (hbound : bound < 2 ^ 31) : LawfulByteStream CDataStream where
  read := read
  pending := content
  Sound := Sound bound
  limit := 2 ^ 31
  read_of_le := fun hsound hcount hle ↦
    ⟨_, exec_read hsound hbound hcount hle, content_advance _ _, hsound.advance _⟩
  read_of_lt := fun hsound hcount hlt ↦ ⟨_, _, exec_read_of_lt hsound hbound hcount hlt⟩

end CDataStream

end Exc.Serialize
