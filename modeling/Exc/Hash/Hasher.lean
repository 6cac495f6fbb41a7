import Exc.Lib.BlockHash
import Mathlib.Data.UInt

/-!
# The hasher classes

`CSHA1`, `CSHA256`, `CSHA512` and `CRIPEMD160` have the same `Write` and `Finalize`: a buffer for
what is behind the last full block, and a counter of the bytes so far. They differ in the length of
a block, in `Initialize` and `Transform`, and in how the length and the result are written
(`HasherClass`).

A hasher stands for the text that was written to it (`Represents`), in whatever pieces. So
`Finalize` gives the hash of that text, for a class that follows a standard (`Follows.finalize`).
This holds up to the length that the standard admits, since `bytes << 3` is a number of 64 bits. It
holds after any calls of the object (`Follows.finalize_calls`), where the text is what was written
since the last `Reset`.
-/

set_option autoImplicit false
set_option relaxedAutoImplicit false

namespace Exc.Hash

open Lib Lib.BlockHash

variable {σ : Type}

/-- The members of an object: the state, the buffer and the number of bytes. -/
structure Hasher (σ : Type) where
  s : σ
  buf : List UInt8
  bytes : UInt64

/-- What the classes differ in. `limit` is the constant in the number of bytes of the padding. -/
structure HasherClass (σ : Type) where
  chunk : ℕ
  initial : σ
  transform : σ → List UInt8 → σ
  limit : ℕ
  sizedesc : UInt64 → List UInt8
  output : σ → List UInt8

/-- `memcpy(dest + offset, source, count)`. -/
def memcpy (dest : List UInt8) (offset : ℕ) (source : List UInt8) (count : ℕ) : List UInt8 :=
  dest.take offset ++ source.take count ++ dest.drop (offset + count)

namespace HasherClass

variable (cls : HasherClass σ)

/-- The constructor; the buffer holds what was in memory. -/
def construct (buf : List UInt8) : Hasher σ := ⟨cls.initial, buf, 0⟩

/-- `Reset`. -/
def reset (hasher : Hasher σ) : Hasher σ := { hasher with s := cls.initial, bytes := 0 }

/-- The loop over full chunks of `Write`, for a number of turns. -/
def chunkLoop : ℕ → Hasher σ → List UInt8 → Hasher σ × List UInt8
  | 0, hasher, data => (hasher, data)
  | turns + 1, hasher, data =>
    if cls.chunk ≤ data.length then
      chunkLoop turns
        { hasher with
          s := cls.transform hasher.s (data.take cls.chunk)
          bytes := hasher.bytes + UInt64.ofNat cls.chunk }
        (data.drop cls.chunk)
    else (hasher, data)

/-- The start of `Write`: the buffer is filled and processed, when there are enough bytes. The last
number is `bufsize`. -/
def fillBuffer (hasher : Hasher σ) (data : List UInt8) : Hasher σ × List UInt8 × ℕ :=
  let bufsize := hasher.bytes.toNat % cls.chunk
  if bufsize ≠ 0 ∧ cls.chunk ≤ (bufsize + data.length) % 2 ^ 64 then
    let buf := memcpy hasher.buf bufsize data (cls.chunk - bufsize)
    ({ s := cls.transform hasher.s buf
       buf := buf
       bytes := hasher.bytes + UInt64.ofNat (cls.chunk - bufsize) },
      data.drop (cls.chunk - bufsize), 0)
  else (hasher, data, bufsize)

/-- The end of `Write`: what is left goes into the buffer. -/
def storeRest (hasher : Hasher σ) (data : List UInt8) (bufsize : ℕ) : Hasher σ :=
  if data ≠ [] then
    { hasher with
      buf := memcpy hasher.buf bufsize data data.length
      bytes := hasher.bytes + UInt64.ofNat data.length }
  else hasher

/-- `Write`. -/
def write (hasher : Hasher σ) (data : List UInt8) : Hasher σ :=
  let filled := cls.fillBuffer hasher data
  let looped := cls.chunkLoop filled.2.1.length filled.1 filled.2.1
  storeRest looped.1 looped.2 filled.2.2

/-- `static const unsigned char pad[] = {0x80}`. -/
def padding : List UInt8 := 0x80 :: List.replicate (cls.chunk - 1) 0

/-- `Finalize`: the result, and the object that is left. -/
def finalize (hasher : Hasher σ) : List UInt8 × Hasher σ :=
  let sizedesc := cls.sizedesc (hasher.bytes <<< 3)
  let hasher := cls.write hasher
    (cls.padding.take (1 + (cls.limit - hasher.bytes.toNat % cls.chunk) % cls.chunk))
  let hasher := cls.write hasher sizedesc
  (cls.output hasher.s, hasher)

end HasherClass

/-- What a caller can do with an object. -/
inductive Call
  | write (data : List UInt8)
  | finalize
  | reset

namespace HasherClass

variable (cls : HasherClass σ)

def call (hasher : Hasher σ) : Call → Hasher σ
  | .write data => cls.write hasher data
  | .finalize => (cls.finalize hasher).2
  | .reset => cls.reset hasher

/-- A new object after a number of calls. -/
def calls (buf : List UInt8) (history : List Call) : Hasher σ :=
  history.foldl cls.call (cls.construct buf)

/-! ### The text that was written -/

/-- A hasher remembers a text: the state after its full blocks, what is left in the buffer, and its
length. -/
structure Represents (hasher : Hasher σ) (text : List UInt8) : Prop where
  state : hasher.s = absorb cls.transform cls.chunk cls.initial text
  length_buf : hasher.buf.length = cls.chunk
  buffered : hasher.buf.take (text.length % cls.chunk) = leftover cls.chunk text
  bytes : hasher.bytes.toNat = text.length

/-- The full blocks of a text and the length of a rest. -/
structure Aligned (hasher : Hasher σ) (text : List UInt8) : Prop where
  state : hasher.s = absorb cls.transform cls.chunk cls.initial text
  length_buf : hasher.buf.length = cls.chunk
  bytes : hasher.bytes.toNat = text.length
  full : leftover cls.chunk text = []

variable {cls} {hasher : Hasher σ} {text data : List UInt8}

theorem length_memcpy {dest source : List UInt8} {offset count : ℕ}
    (hdest : offset + count ≤ dest.length) (hsource : count ≤ source.length) :
    (memcpy dest offset source count).length = dest.length := by
  simp only [memcpy, List.length_append, List.length_take, List.length_drop]
  omega

/-- The bytes in front of the copied ones, and these. -/
theorem take_memcpy {dest : List UInt8} {offset count : ℕ} (source : List UInt8)
    (hdest : offset + count ≤ dest.length) (hsource : count ≤ source.length) :
    (memcpy dest offset source count).take (offset + count) =
      dest.take offset ++ source.take count := by
  have hlength : (dest.take offset ++ source.take count).length = offset + count := by
    simp only [List.length_append, List.length_take]
    omega
  rw [memcpy, ← hlength, List.take_left]

theorem toNat_add_ofNat {bytes : UInt64} {count total : ℕ} (hbytes : bytes.toNat + count = total)
    (htotal : total < 2 ^ 64) : (bytes + UInt64.ofNat count).toNat = total := by
  rw [UInt64.toNat_add, UInt64.toNat_ofNat', Nat.add_mod_mod, hbytes, Nat.mod_eq_of_lt htotal]

/-- `bytes << 3`. -/
theorem toNat_shiftLeft_three {bytes : UInt64} (hbytes : 8 * bytes.toNat < 2 ^ 64) :
    (bytes <<< 3).toNat = 8 * bytes.toNat := by
  have hshift : (bytes <<< 3).toNat = bytes.toNat <<< 3 % 2 ^ 64 := rfl
  rw [hshift, Nat.shiftLeft_eq, Nat.mul_comm, Nat.mod_eq_of_lt hbytes]

/-- One full block behind full blocks. -/
theorem Aligned.block (h : cls.Aligned hasher text) (hchunk : 0 < cls.chunk) {block : List UInt8}
    (hblock : block.length = cls.chunk) (hlength : text.length + block.length < 2 ^ 64) :
    cls.Aligned { hasher with
      s := cls.transform hasher.s block
      bytes := hasher.bytes + UInt64.ofNat cls.chunk } (text ++ block) := by
  have hfull : (leftover cls.chunk text ++ block).length = cls.chunk := by
    rw [h.full, List.nil_append, hblock]
  have happend := absorb_fill cls.transform cls.initial hchunk hfull
  rw [h.full, List.nil_append, ← h.state] at happend
  refine ⟨happend.1.symm, h.length_buf, ?_, happend.2⟩
  · exact toNat_add_ofNat (by rw [h.bytes, List.length_append, hblock])
      (by rwa [List.length_append])

/-- The loop processes all full chunks. By induction on the turns. -/
theorem Aligned.chunkLoop (hchunk : 0 < cls.chunk) {turns : ℕ} :
    ∀ {hasher : Hasher σ} {text : List UInt8} (data : List UInt8), cls.Aligned hasher text →
      data.length ≤ turns → text.length + data.length < 2 ^ 64 →
      ∃ front rest, data = front ++ rest ∧ rest.length < cls.chunk ∧
        cls.Aligned (cls.chunkLoop turns hasher data).1 (text ++ front) ∧
        (cls.chunkLoop turns hasher data).2 = rest := by
  induction turns with
  | zero =>
    intro hasher text data h hturns _
    obtain rfl := List.length_eq_zero_iff.mp (Nat.le_zero.mp hturns)
    refine ⟨[], [], rfl, hchunk, ?_, rfl⟩
    rw [List.append_nil]
    exact h
  | succ turns ih =>
    intro hasher text data h hturns hlength
    rw [HasherClass.chunkLoop]
    split_ifs with hfull
    · have hblock : (data.take cls.chunk).length = cls.chunk := by
        rw [List.length_take]
        omega
      have hdrop := List.length_drop (i := cls.chunk) (l := data)
      obtain ⟨front, rest, hdata, hrest, haligned, hleft⟩ :=
        ih (data.drop cls.chunk) (h.block hchunk hblock (by omega)) (by omega)
          (by rw [List.length_append]; omega)
      refine ⟨data.take cls.chunk ++ front, rest, ?_, hrest, ?_, hleft⟩
      · rw [List.append_assoc, ← hdata, List.take_append_drop]
      · rwa [← List.append_assoc]
    · exact ⟨[], data, rfl, by omega, by simpa using h, rfl⟩

/-- What is left goes behind what is in the buffer. -/
theorem Represents.storeRest (h : cls.Represents hasher text)
    (hshort : text.length % cls.chunk + data.length < cls.chunk)
    (hlength : text.length + data.length < 2 ^ 64) :
    cls.Represents (storeRest hasher data (text.length % cls.chunk)) (text ++ data) := by
  have hchunk : 0 < cls.chunk := by omega
  have hmod : (text ++ data).length % cls.chunk = text.length % cls.chunk + data.length := by
    rw [List.length_append, Nat.add_mod, Nat.mod_eq_of_lt (by omega : data.length < cls.chunk),
      Nat.mod_eq_of_lt hshort]
  have hall : (leftover cls.chunk text ++ data).length < cls.chunk := by
    rwa [List.length_append, length_leftover]
  have happend := absorb_short cls.transform cls.initial hchunk hall
  by_cases hdata : data = []
  · subst hdata
    rw [HasherClass.storeRest, if_neg (by simp), List.append_nil]
    exact h
  · have hfits : text.length % cls.chunk + data.length ≤ hasher.buf.length := by
      rw [h.length_buf]
      omega
    rw [HasherClass.storeRest, if_pos hdata]
    refine ⟨by rw [happend.1, h.state], ?_, ?_, ?_⟩
    · exact (length_memcpy hfits le_rfl).trans h.length_buf
    · rw [hmod, happend.2, take_memcpy data hfits le_rfl, h.buffered, List.take_length]
    · exact toNat_add_ofNat (by rw [h.bytes, List.length_append])
        (by rwa [List.length_append])

/-- The rest of the data behind full blocks is copied into the buffer. -/
theorem Aligned.storeRest (h : cls.Aligned hasher text) (hrest : data.length < cls.chunk)
    (hlength : text.length + data.length < 2 ^ 64) :
    cls.Represents (storeRest hasher data 0) (text ++ data) := by
  have hchunk : 0 < cls.chunk := by omega
  have hempty : text.length % cls.chunk = 0 := by
    rw [← length_leftover, h.full]
    rfl
  have hrepresents : cls.Represents hasher text :=
    ⟨h.state, h.length_buf, by rw [hempty, h.full]; rfl, h.bytes⟩
  have hstore := hrepresents.storeRest (by omega) hlength
  rwa [hempty] at hstore

/-- The bytes of a text of full blocks. -/
theorem Represents.aligned (h : cls.Represents hasher text)
    (hempty : text.length % cls.chunk = 0) : cls.Aligned hasher text :=
  ⟨h.state, h.length_buf, h.bytes, by
    rw [← h.buffered, hempty]
    rfl⟩

/-- The buffer is filled from the data and processed. -/
theorem Represents.fillBuffer (h : cls.Represents hasher text) (hchunk : 0 < cls.chunk)
    (hempty : text.length % cls.chunk ≠ 0)
    (hfull : cls.chunk ≤ text.length % cls.chunk + data.length)
    (hlength : text.length + data.length < 2 ^ 64) :
    ∃ front rest, data = front ++ rest ∧
      cls.Aligned (cls.fillBuffer hasher data).1 (text ++ front) ∧
      (cls.fillBuffer hasher data).2 = (rest, 0) := by
  have hmod := Nat.mod_le text.length cls.chunk
  have hbufsize : hasher.bytes.toNat % cls.chunk = text.length % cls.chunk := by rw [h.bytes]
  have hsum : (text.length % cls.chunk + data.length) % 2 ^ 64 =
      text.length % cls.chunk + data.length := Nat.mod_eq_of_lt (by omega)
  have hlt := Nat.mod_lt text.length hchunk
  obtain ⟨count, hcount⟩ : ∃ count, text.length % cls.chunk + count = cls.chunk :=
    ⟨cls.chunk - text.length % cls.chunk, by omega⟩
  have hsub : cls.chunk - text.length % cls.chunk = count := by omega
  have htake : (data.take count).length = count := by
    rw [List.length_take]
    omega
  have hfits : text.length % cls.chunk + count ≤ hasher.buf.length := by
    rw [h.length_buf, hcount]
  have hlengthBuf : (memcpy hasher.buf (text.length % cls.chunk) data count).length = cls.chunk :=
    (length_memcpy hfits (by omega)).trans h.length_buf
  have hbuf : memcpy hasher.buf (text.length % cls.chunk) data count =
      leftover cls.chunk text ++ data.take count := by
    have htakeBuf := take_memcpy data hfits (by omega)
    rwa [hcount, List.take_of_length_le hlengthBuf.le, h.buffered] at htakeBuf
  have hblock : (leftover cls.chunk text ++ data.take count).length = cls.chunk := by
    rw [← hbuf, hlengthBuf]
  have happend := absorb_fill cls.transform cls.initial hchunk hblock
  rw [← h.state, ← hbuf] at happend
  have hfill : cls.fillBuffer hasher data =
      ({ s := cls.transform hasher.s (memcpy hasher.buf (text.length % cls.chunk) data count)
         buf := memcpy hasher.buf (text.length % cls.chunk) data count
         bytes := hasher.bytes + UInt64.ofNat count }, data.drop count, 0) := by
    rw [HasherClass.fillBuffer, hbufsize, hsum, if_pos ⟨hempty, hfull⟩, hsub]
  rw [hfill]
  refine ⟨data.take count, data.drop count, (List.take_append_drop count data).symm, ?_, rfl⟩
  refine ⟨happend.1.symm, hlengthBuf, ?_, happend.2⟩
  exact toNat_add_ofNat (by rw [h.bytes, List.length_append, htake])
    (by rw [List.length_append, htake]; omega)

/-- `Write` appends to the text that the hasher stands for. -/
theorem Represents.write (h : cls.Represents hasher text) (hchunk : 0 < cls.chunk)
    (data : List UInt8) (hlength : text.length + data.length < 2 ^ 64) :
    cls.Represents (cls.write hasher data) (text ++ data) := by
  have hmod := Nat.mod_lt text.length hchunk
  have hbufsize : hasher.bytes.toNat % cls.chunk = text.length % cls.chunk := by rw [h.bytes]
  have hle := Nat.mod_le text.length cls.chunk
  have hsum : (text.length % cls.chunk + data.length) % 2 ^ 64 =
      text.length % cls.chunk + data.length := Nat.mod_eq_of_lt (by omega)
  by_cases hempty : text.length % cls.chunk = 0
  · -- The buffer is empty.
    have hfill : cls.fillBuffer hasher data = (hasher, data, 0) := by
      rw [HasherClass.fillBuffer, hbufsize, hempty, if_neg (by simp)]
    obtain ⟨front, rest, rfl, hrest, haligned, hleft⟩ :=
      Aligned.chunkLoop hchunk data (h.aligned hempty) le_rfl hlength
    rw [List.length_append] at hlength
    rw [HasherClass.write, hfill, hleft, ← List.append_assoc]
    exact haligned.storeRest hrest (by rw [List.length_append]; omega)
  · by_cases hfull : cls.chunk ≤ text.length % cls.chunk + data.length
    · -- The buffer is filled and processed.
      obtain ⟨front, tail, rfl, hfilled, hfill⟩ := h.fillBuffer hchunk hempty hfull hlength
      rw [List.length_append] at hlength
      obtain ⟨middle, rest, rfl, hrest, haligned, hleft⟩ :=
        Aligned.chunkLoop hchunk tail hfilled le_rfl (by rw [List.length_append]; omega)
      rw [List.length_append] at hlength
      have htext : text ++ (front ++ (middle ++ rest)) = text ++ front ++ middle ++ rest := by
        simp only [List.append_assoc]
      rw [HasherClass.write, hfill, hleft, htext]
      exact haligned.storeRest hrest (by rw [List.length_append, List.length_append]; omega)
    · -- All of the data goes behind what is in the buffer.
      have hfill : cls.fillBuffer hasher data = (hasher, data, text.length % cls.chunk) := by
        rw [HasherClass.fillBuffer, hbufsize, hsum, if_neg (fun hboth ↦ hfull hboth.2)]
      have hloop (turns : ℕ) : cls.chunkLoop turns hasher data = (hasher, data) := by
        cases turns with
        | zero => rfl
        | succ turns =>
          have hshort : ¬cls.chunk ≤ data.length := by omega
          rw [HasherClass.chunkLoop, if_neg hshort]
      rw [HasherClass.write, hfill, hloop]
      exact h.storeRest (Nat.lt_of_not_le hfull) hlength

/-- A new object stands for the empty text. -/
theorem represents_construct {buf : List UInt8} (hbuf : buf.length = cls.chunk) :
    cls.Represents (cls.construct buf) [] where
  state := absorb_nil.symm
  length_buf := hbuf
  buffered := by rw [leftover_nil, List.length_nil, Nat.zero_mod, List.take_zero]
  bytes := rfl

/-- So does an object after `Reset`, whatever was written to it. -/
theorem represents_reset (hbuf : hasher.buf.length = cls.chunk) :
    cls.Represents (cls.reset hasher) [] where
  state := absorb_nil.symm
  length_buf := hbuf
  buffered := by rw [leftover_nil, List.length_nil, Nat.zero_mod, List.take_zero]
  bytes := rfl

/-! ### The standard -/

variable (cls) in
/-- A class follows a standard. -/
structure Follows (standard : Standard σ UInt8) : Prop where
  chunk_pos : 0 < cls.chunk
  size : standard.size = cls.chunk
  chunk_le : cls.chunk ≤ 2 ^ 32
  initial : cls.initial = standard.init
  transform : ∀ state block, block.length = cls.chunk →
    cls.transform state block = standard.compress state block
  mark : standard.mark = 0x80
  zero : standard.zero = 0
  lengthBytes : standard.lengthBytes < cls.chunk
  limit : cls.limit + standard.lengthBytes + 1 = 2 * cls.chunk
  length_sizedesc : ∀ bits, (cls.sizedesc bits).length = standard.lengthBytes
  length_encode : ∀ bits, (standard.encodeLength bits).length = standard.lengthBytes
  sizedesc : ∀ bytes : UInt64, 8 * bytes.toNat < 2 ^ 64 →
    cls.sizedesc (bytes <<< 3) = standard.encodeLength (8 * bytes.toNat)
  output : cls.output = standard.output

variable {standard : Standard σ UInt8}

/-- `Finalize` gives the hash of the text that the hasher stands for. -/
theorem Follows.finalize (h : cls.Follows standard) (hrep : cls.Represents hasher text)
    (hlength : 8 * text.length < 2 ^ 64) :
    (cls.finalize hasher).1 = standard.hash text := by
  have hchunk := h.chunk_pos
  have hle := h.chunk_le
  have hbytes := h.lengthBytes
  have hlimit := h.limit
  have hmod := Nat.mod_lt text.length hchunk
  have hzeros : (cls.limit - hasher.bytes.toNat % cls.chunk) % cls.chunk =
      zeros standard.size standard.lengthBytes text.length := by
    rw [h.size, zeros_eq hbytes, hrep.bytes]
    congr 1
    omega
  have hcount : zeros standard.size standard.lengthBytes text.length < cls.chunk := by
    rw [← hzeros]
    exact Nat.mod_lt _ hchunk
  have hpadding : cls.padding.take
      (1 + (cls.limit - hasher.bytes.toNat % cls.chunk) % cls.chunk) =
      standard.mark ::
        List.replicate (zeros standard.size standard.lengthBytes text.length) standard.zero := by
    rw [hzeros, padding, Nat.add_comm, List.take_succ_cons, List.take_replicate,
      Nat.min_eq_left (by omega), h.mark, h.zero]
  have hsizedesc : cls.sizedesc (hasher.bytes <<< 3) = standard.encodeLength (8 * text.length) := by
    rw [h.sizedesc _ (by rw [hrep.bytes]; exact hlength), hrep.bytes]
  have hpad : text ++ (standard.mark ::
      List.replicate (zeros standard.size standard.lengthBytes text.length) standard.zero) ++
        standard.encodeLength (8 * text.length) = standard.pad text := rfl
  have hmarked := hrep.write hchunk (standard.mark ::
    List.replicate (zeros standard.size standard.lengthBytes text.length) standard.zero) (by
      rw [List.length_cons, List.length_replicate]
      omega)
  have hpadded := hmarked.write hchunk (standard.encodeLength (8 * text.length)) (by
    rw [List.length_append, List.length_cons, List.length_replicate, h.length_encode]
    omega)
  rw [hpad] at hpadded
  rw [HasherClass.finalize, hpadding, hsizedesc]
  dsimp only
  rw [hpadded.state, h.output, absorb_congr h.transform, h.initial, ← h.size]
  rfl

/-! ### Calls -/

/-- What was written since the object was new or reset. After `Finalize` the object is of no use
until it is reset. -/
def writtenBy (text : Option (List UInt8)) : Call → Option (List UInt8)
  | .write data => text.map (· ++ data)
  | .finalize => none
  | .reset => some []

def written (history : List Call) : Option (List UInt8) := history.foldl writtenBy (some [])

/-- The data of a call is in memory. -/
def Fits : Call → Prop
  | .write data => data.length < 2 ^ 63
  | _ => True

theorem length_buf_storeRest {bufsize : ℕ} (hbuf : hasher.buf.length = cls.chunk)
    (hfits : bufsize + data.length ≤ cls.chunk) :
    (storeRest hasher data bufsize).buf.length = cls.chunk := by
  rw [storeRest]
  split_ifs
  · exact (length_memcpy (by omega) le_rfl).trans hbuf
  · exact hbuf

theorem chunkLoop_buf (hchunk : 0 < cls.chunk) {turns : ℕ} :
    ∀ (hasher : Hasher σ) (data : List UInt8), data.length ≤ turns →
      (cls.chunkLoop turns hasher data).1.buf = hasher.buf ∧
        (cls.chunkLoop turns hasher data).2.length < cls.chunk ∧
        (cls.chunkLoop turns hasher data).2.length ≤ data.length := by
  induction turns with
  | zero =>
    intro hasher data hturns
    exact ⟨rfl, Nat.lt_of_le_of_lt hturns hchunk, le_rfl⟩
  | succ turns ih =>
    intro hasher data hturns
    rw [chunkLoop]
    split_ifs with hfull
    · have hlength := List.length_drop (i := cls.chunk) (l := data)
      obtain ⟨hbuf, hshort, hle⟩ := ih
        { hasher with
          s := cls.transform hasher.s (data.take cls.chunk)
          bytes := hasher.bytes + UInt64.ofNat cls.chunk } (data.drop cls.chunk) (by omega)
      exact ⟨hbuf, hshort, by omega⟩
    · exact ⟨rfl, Nat.lt_of_not_le hfull, le_rfl⟩

theorem length_buf_fillBuffer (hchunk : 0 < cls.chunk) (hchunkLe : cls.chunk ≤ 2 ^ 32)
    (hbuf : hasher.buf.length = cls.chunk) (hdata : data.length < 2 ^ 63) :
    (cls.fillBuffer hasher data).1.buf.length = cls.chunk ∧
      ((cls.fillBuffer hasher data).2.2 = 0 ∨
        (cls.fillBuffer hasher data).2.2 + (cls.fillBuffer hasher data).2.1.length <
          cls.chunk) := by
  have hmod := Nat.mod_lt hasher.bytes.toNat hchunk
  have hsum : (hasher.bytes.toNat % cls.chunk + data.length) % 2 ^ 64 =
      hasher.bytes.toNat % cls.chunk + data.length := Nat.mod_eq_of_lt (by omega)
  rw [fillBuffer, hsum]
  split_ifs with hfill
  · exact ⟨(length_memcpy (by omega) (by omega)).trans hbuf, .inl rfl⟩
  · refine ⟨hbuf, ?_⟩
    by_cases hempty : hasher.bytes.toNat % cls.chunk = 0
    · exact .inl hempty
    · exact .inr (Nat.lt_of_not_le fun hle ↦ hfill ⟨hempty, hle⟩)

/-- The buffer keeps its length, also when the counter overflows. -/
theorem length_buf_write (hchunk : 0 < cls.chunk) (hchunkLe : cls.chunk ≤ 2 ^ 32)
    (hbuf : hasher.buf.length = cls.chunk) (hdata : data.length < 2 ^ 63) :
    (cls.write hasher data).buf.length = cls.chunk := by
  obtain ⟨hfillBuf, hroom⟩ := length_buf_fillBuffer hchunk hchunkLe hbuf hdata
  obtain ⟨hloopBuf, hshort, hle⟩ := chunkLoop_buf hchunk (cls.fillBuffer hasher data).1
    (cls.fillBuffer hasher data).2.1 le_rfl
  refine length_buf_storeRest (by rw [hloopBuf, hfillBuf]) ?_
  obtain hempty | hroom := hroom
  · rw [hempty]
    omega
  · omega

/-- What holds of an object at any time: the buffer has its length, and the object stands for what
was written to it. -/
structure Sound (cls : HasherClass σ) (hasher : Hasher σ) (text : Option (List UInt8)) : Prop where
  length_buf : hasher.buf.length = cls.chunk
  represents : ∀ written, text = some written → written.length < 2 ^ 63 →
    cls.Represents hasher written

/-- Every call keeps it. -/
theorem Sound.call (h : cls.Follows standard) {text : Option (List UInt8)}
    (hsound : Sound cls hasher text) {call : Call} (hfits : Fits call) :
    Sound cls (cls.call hasher call) (writtenBy text call) := by
  have hchunk := h.chunk_pos
  have hle := h.chunk_le
  have hlimit := h.lengthBytes
  cases call with
  | write data =>
    refine ⟨length_buf_write hchunk hle hsound.length_buf hfits, fun written hwritten hlt ↦ ?_⟩
    obtain ⟨old, rfl, rfl⟩ := Option.map_eq_some_iff.mp hwritten
    rw [List.length_append] at hlt
    exact (hsound.represents old rfl (by omega)).write hchunk data (by omega)
  | finalize =>
    refine ⟨?_, fun written hwritten ↦ nomatch hwritten⟩
    refine length_buf_write hchunk hle (length_buf_write hchunk hle hsound.length_buf ?_) ?_
    · rw [List.length_take, padding, List.length_cons, List.length_replicate]
      omega
    · rw [h.length_sizedesc]
      omega
  | reset =>
    refine ⟨hsound.length_buf, fun written hwritten _ ↦ ?_⟩
    obtain rfl := Option.some.inj hwritten
    exact represents_reset hsound.length_buf

/-- So do all calls. By induction on the history, from its end. -/
theorem Sound.calls (h : cls.Follows standard) {buf : List UInt8} (hbuf : buf.length = cls.chunk)
    {history : List Call} (hfits : ∀ call ∈ history, Fits call) :
    Sound cls (cls.calls buf history) (written history) := by
  induction history using List.reverseRecOn with
  | nil =>
    refine ⟨hbuf, fun written hwritten _ ↦ ?_⟩
    obtain rfl := Option.some.inj hwritten
    exact represents_construct hbuf
  | append_singleton history call ih =>
    have hbefore := ih fun earlier hearlier ↦ hfits earlier (List.mem_append_left _ hearlier)
    rw [HasherClass.calls, written, List.foldl_append, List.foldl_append]
    exact hbefore.call h (hfits call (List.mem_append_right _ (List.mem_singleton_self call)))

/-- After any calls `Finalize` gives the hash of what was written since the last `Reset`. -/
theorem Follows.finalize_calls (h : cls.Follows standard) {buf : List UInt8}
    (hbuf : buf.length = cls.chunk) {history : List Call} (hfits : ∀ call ∈ history, Fits call)
    (hwritten : written history = some text) (hlength : 8 * text.length < 2 ^ 64) :
    (cls.finalize (cls.calls buf history)).1 = standard.hash text :=
  h.finalize ((Sound.calls h hbuf hfits).represents text hwritten (by omega)) hlength

end HasherClass

end Exc.Hash
