import Exc.Hash.Hasher
import Exc.Lib.Rfc1321
import Exc.Lib.RotatingRegisters

/-!
# MD5

The class `MD5`. It counts the bits of its input in two numbers of 32 bits, and `update` fills the
buffer before it processes anything else. After `final` an object keeps its digest and ignores
further input until `init`.

An object stands for the text that was handed to it since `init` (`Represents`). So after any calls
a digest is that of the text (`Sound.calls`), of whatever length: like the standard, the class has
the length of the text only modulo 2⁶⁴ bits. No piece may come near 2³² bytes, since the index in
the loop of `update` overflows there.
-/

set_option autoImplicit false
set_option relaxedAutoImplicit false

namespace Exc.Hash.Md5

open Lib BlockHash

attribute [local instance] neZero_four neZero_sixteen

/-! ### `transform` -/

def rotateLeft (x : BitVec 32) (n : ℕ) : BitVec 32 := x <<< n ||| x >>> (32 - n)

def f (x y z : BitVec 32) : BitVec 32 := (x &&& y) ||| (~~~x &&& z)

def g (x y z : BitVec 32) : BitVec 32 := (x &&& z) ||| (y &&& ~~~z)

def h (x y z : BitVec 32) : BitVec 32 := x ^^^ y ^^^ z

def i (x y z : BitVec 32) : BitVec 32 := y ^^^ (x ||| ~~~z)

/-- The functions `FF`, `GG`, `HH` and `II`. -/
inductive Callee
  | ff | gg | hh | ii
  deriving DecidableEq, Repr

def Callee.run : Callee → BitVec 32 → BitVec 32 → BitVec 32 → BitVec 32
  | .ff => f
  | .gg => g
  | .hh => h
  | .ii => i

def s11 : ℕ := 7

def s12 : ℕ := 12

def s13 : ℕ := 17

def s14 : ℕ := 22

def s21 : ℕ := 5

def s22 : ℕ := 9

def s23 : ℕ := 14

def s24 : ℕ := 20

def s31 : ℕ := 4

def s32 : ℕ := 11

def s33 : ℕ := 16

def s34 : ℕ := 23

def s41 : ℕ := 6

def s42 : ℕ := 10

def s43 : ℕ := 15

def s44 : ℕ := 21

/-- A line of `transform`. The variables `a` to `d` are numbered from 0 to 3. -/
structure Line where
  callee : Callee
  names : Fin 4 → Fin 4
  x : Fin 16
  s : ℕ
  ac : BitVec 32

/-- `FF` to `II`, for variables that are given by their names. -/
def Line.run (line : Line) (x : Fin 16 → BitVec 32) (registers : Fin 4 → BitVec 32) :
    Fin 4 → BitVec 32 :=
  let word n := registers (line.names n)
  let a := word 0 + (line.callee.run (word 1) (word 2) (word 3) + x line.x + line.ac)
  Function.update registers (line.names 0) (rotateLeft a line.s + word 1)

/-- The lines of `transform`. -/
def lines : List Line :=
  [⟨.ff, ![0, 1, 2, 3], 0, s11, 0xd76aa478⟩,
    ⟨.ff, ![3, 0, 1, 2], 1, s12, 0xe8c7b756⟩,
    ⟨.ff, ![2, 3, 0, 1], 2, s13, 0x242070db⟩,
    ⟨.ff, ![1, 2, 3, 0], 3, s14, 0xc1bdceee⟩,
    ⟨.ff, ![0, 1, 2, 3], 4, s11, 0xf57c0faf⟩,
    ⟨.ff, ![3, 0, 1, 2], 5, s12, 0x4787c62a⟩,
    ⟨.ff, ![2, 3, 0, 1], 6, s13, 0xa8304613⟩,
    ⟨.ff, ![1, 2, 3, 0], 7, s14, 0xfd469501⟩,
    ⟨.ff, ![0, 1, 2, 3], 8, s11, 0x698098d8⟩,
    ⟨.ff, ![3, 0, 1, 2], 9, s12, 0x8b44f7af⟩,
    ⟨.ff, ![2, 3, 0, 1], 10, s13, 0xffff5bb1⟩,
    ⟨.ff, ![1, 2, 3, 0], 11, s14, 0x895cd7be⟩,
    ⟨.ff, ![0, 1, 2, 3], 12, s11, 0x6b901122⟩,
    ⟨.ff, ![3, 0, 1, 2], 13, s12, 0xfd987193⟩,
    ⟨.ff, ![2, 3, 0, 1], 14, s13, 0xa679438e⟩,
    ⟨.ff, ![1, 2, 3, 0], 15, s14, 0x49b40821⟩,
    ⟨.gg, ![0, 1, 2, 3], 1, s21, 0xf61e2562⟩,
    ⟨.gg, ![3, 0, 1, 2], 6, s22, 0xc040b340⟩,
    ⟨.gg, ![2, 3, 0, 1], 11, s23, 0x265e5a51⟩,
    ⟨.gg, ![1, 2, 3, 0], 0, s24, 0xe9b6c7aa⟩,
    ⟨.gg, ![0, 1, 2, 3], 5, s21, 0xd62f105d⟩,
    ⟨.gg, ![3, 0, 1, 2], 10, s22, 0x2441453⟩,
    ⟨.gg, ![2, 3, 0, 1], 15, s23, 0xd8a1e681⟩,
    ⟨.gg, ![1, 2, 3, 0], 4, s24, 0xe7d3fbc8⟩,
    ⟨.gg, ![0, 1, 2, 3], 9, s21, 0x21e1cde6⟩,
    ⟨.gg, ![3, 0, 1, 2], 14, s22, 0xc33707d6⟩,
    ⟨.gg, ![2, 3, 0, 1], 3, s23, 0xf4d50d87⟩,
    ⟨.gg, ![1, 2, 3, 0], 8, s24, 0x455a14ed⟩,
    ⟨.gg, ![0, 1, 2, 3], 13, s21, 0xa9e3e905⟩,
    ⟨.gg, ![3, 0, 1, 2], 2, s22, 0xfcefa3f8⟩,
    ⟨.gg, ![2, 3, 0, 1], 7, s23, 0x676f02d9⟩,
    ⟨.gg, ![1, 2, 3, 0], 12, s24, 0x8d2a4c8a⟩,
    ⟨.hh, ![0, 1, 2, 3], 5, s31, 0xfffa3942⟩,
    ⟨.hh, ![3, 0, 1, 2], 8, s32, 0x8771f681⟩,
    ⟨.hh, ![2, 3, 0, 1], 11, s33, 0x6d9d6122⟩,
    ⟨.hh, ![1, 2, 3, 0], 14, s34, 0xfde5380c⟩,
    ⟨.hh, ![0, 1, 2, 3], 1, s31, 0xa4beea44⟩,
    ⟨.hh, ![3, 0, 1, 2], 4, s32, 0x4bdecfa9⟩,
    ⟨.hh, ![2, 3, 0, 1], 7, s33, 0xf6bb4b60⟩,
    ⟨.hh, ![1, 2, 3, 0], 10, s34, 0xbebfbc70⟩,
    ⟨.hh, ![0, 1, 2, 3], 13, s31, 0x289b7ec6⟩,
    ⟨.hh, ![3, 0, 1, 2], 0, s32, 0xeaa127fa⟩,
    ⟨.hh, ![2, 3, 0, 1], 3, s33, 0xd4ef3085⟩,
    ⟨.hh, ![1, 2, 3, 0], 6, s34, 0x4881d05⟩,
    ⟨.hh, ![0, 1, 2, 3], 9, s31, 0xd9d4d039⟩,
    ⟨.hh, ![3, 0, 1, 2], 12, s32, 0xe6db99e5⟩,
    ⟨.hh, ![2, 3, 0, 1], 15, s33, 0x1fa27cf8⟩,
    ⟨.hh, ![1, 2, 3, 0], 2, s34, 0xc4ac5665⟩,
    ⟨.ii, ![0, 1, 2, 3], 0, s41, 0xf4292244⟩,
    ⟨.ii, ![3, 0, 1, 2], 7, s42, 0x432aff97⟩,
    ⟨.ii, ![2, 3, 0, 1], 14, s43, 0xab9423a7⟩,
    ⟨.ii, ![1, 2, 3, 0], 5, s44, 0xfc93a039⟩,
    ⟨.ii, ![0, 1, 2, 3], 12, s41, 0x655b59c3⟩,
    ⟨.ii, ![3, 0, 1, 2], 3, s42, 0x8f0ccc92⟩,
    ⟨.ii, ![2, 3, 0, 1], 10, s43, 0xffeff47d⟩,
    ⟨.ii, ![1, 2, 3, 0], 1, s44, 0x85845dd1⟩,
    ⟨.ii, ![0, 1, 2, 3], 8, s41, 0x6fa87e4f⟩,
    ⟨.ii, ![3, 0, 1, 2], 15, s42, 0xfe2ce6e0⟩,
    ⟨.ii, ![2, 3, 0, 1], 6, s43, 0xa3014314⟩,
    ⟨.ii, ![1, 2, 3, 0], 13, s44, 0x4e0811a1⟩,
    ⟨.ii, ![0, 1, 2, 3], 4, s41, 0xf7537e82⟩,
    ⟨.ii, ![3, 0, 1, 2], 11, s42, 0xbd3af235⟩,
    ⟨.ii, ![2, 3, 0, 1], 2, s43, 0x2ad7d2bb⟩,
    ⟨.ii, ![1, 2, 3, 0], 9, s44, 0xeb86d391⟩]

/-- `decode`, for one of the numbers. -/
def decode (input : List UInt8) (index : Fin 16) : BitVec 32 :=
  let byte j := BitVec.ofNat 32 (input.getD (4 * index + j) 0).toNat
  byte 0 ||| byte 1 <<< 8 ||| byte 2 <<< 16 ||| byte 3 <<< 24

def transform (state : Fin 4 → BitVec 32) (block : List UInt8) : Fin 4 → BitVec 32 :=
  let words := lines.foldl (fun words line ↦ line.run (decode block) words) state
  fun n ↦ state n + words n

/-! ### The class -/

/-- `encode`. -/
def encode (input : List (BitVec 32)) : List UInt8 :=
  input.flatMap fun x : BitVec 32 ↦
    [UInt8.ofNat (x &&& 0xff).toNat, UInt8.ofNat (x >>> 8 &&& 0xff).toNat,
      UInt8.ofNat (x >>> 16 &&& 0xff).toNat, UInt8.ofNat (x >>> 24 &&& 0xff).toNat]

/-- The members of an object. -/
structure Context where
  state : Fin 4 → BitVec 32
  count0 : BitVec 32
  count1 : BitVec 32
  buffer : List UInt8
  digest : List UInt8
  finalized : Bool

def magic : Fin 4 → BitVec 32 := ![0x67452301, 0xefcdab89, 0x98badcfe, 0x10325476]

/-- `init`. -/
def init (md5 : Context) : Context :=
  { md5 with finalized := false, count0 := 0, count1 := 0, state := magic }

/-- The constructor; the arrays hold what was in memory. -/
def construct (buffer digest : List UInt8) : Context := ⟨magic, 0, 0, buffer, digest, false⟩

/-- The loop over full blocks of `update`, for a number of turns. The last number is
`input_index`. -/
def transformLoop (input : List UInt8) (inputLength : BitVec 32) :
    ℕ → (Fin 4 → BitVec 32) → BitVec 32 → (Fin 4 → BitVec 32) × BitVec 32
  | 0, state, inputIndex => (state, inputIndex)
  | turns + 1, state, inputIndex =>
    if inputIndex + 63#32 < inputLength then
      transformLoop input inputLength turns
        (transform state ((input.drop inputIndex.toNat).take 64)) (inputIndex + 64#32)
    else (state, inputIndex)

/-- The number of bits in `m_count` after more input. -/
def countBits (count : BitVec 32 × BitVec 32) (inputLength : BitVec 32) :
    BitVec 32 × BitVec 32 :=
  let count0 := count.1 + inputLength <<< 3
  let count1 := if count0 < inputLength <<< 3 then count.2 + 1#32 else count.2
  (count0, count1 + inputLength >>> 29)

/-- `update`. -/
def update (md5 : Context) (input : List UInt8) : Context :=
  if md5.finalized then md5
  else
    let inputLength := BitVec.ofNat 32 input.length
    let bufferIndex := md5.count0 >>> 3 &&& 0x3F
    let count := countBits (md5.count0, md5.count1) inputLength
    let bufferSpace := 64#32 - bufferIndex
    if bufferSpace ≤ inputLength then
      let buffer := memcpy md5.buffer bufferIndex.toNat input bufferSpace.toNat
      let looped := transformLoop input inputLength input.length (transform md5.state buffer)
        bufferSpace
      { md5 with
        state := looped.1
        count0 := count.1
        count1 := count.2
        buffer := memcpy buffer 0 (input.drop looped.2.toNat) (inputLength - looped.2).toNat }
    else
      { md5 with
        count0 := count.1
        count1 := count.2
        buffer := memcpy md5.buffer bufferIndex.toNat input inputLength.toNat }

/-- `PADDING`. -/
def padding : List UInt8 := 0x80 :: List.replicate 63 0

/-- `final`. Of the buffer only one byte is zeroed at the end. -/
def final (md5 : Context) : Context :=
  if md5.finalized then md5
  else
    let bits := encode [md5.count0, md5.count1]
    let index := md5.count0 >>> 3 &&& 0x3f
    let padLen := if index < 56#32 then 56#32 - index else 120#32 - index
    let md5 := update (update md5 (padding.take padLen.toNat)) bits
    { md5 with
      digest := encode (List.ofFn md5.state)
      buffer := memcpy md5.buffer 0 [0] 1
      finalized := true }

/-- What a caller can do with an object. -/
inductive Call
  | init
  | update (input : List UInt8)
  | final

def call (md5 : Context) : Call → Context
  | .init => init md5
  | .update input => update md5 input
  | .final => final md5

/-- `MD5Result`: every byte in two hexadecimal digits. -/
def result (digest : List UInt8) : List Char :=
  digest.flatMap fun byte ↦ [Nat.digitChar (byte.toNat / 16), Nat.digitChar (byte.toNat % 16)]

/-- `MD5Encode`, of a string without its terminator. -/
def md5Encode (md5 : Context) (src : List UInt8) : List Char :=
  result (final (update (init md5) src)).digest

/-! ### `transform` and the standard -/

theorem or_shiftLeft {low high n : ℕ} (hlow : low < 2 ^ n) :
    low ||| high <<< n = low + high * 2 ^ n := by
  rw [Nat.or_comm, ← Nat.shiftLeft_add_eq_or_of_lt hlow, Nat.shiftLeft_eq, Nat.add_comm]

/-- Four bytes with the least significant one first. -/
theorem or_bytes (a b c d : UInt8) :
    BitVec.ofNat 32 a.toNat ||| BitVec.ofNat 32 b.toNat <<< 8 ||| BitVec.ofNat 32 c.toNat <<< 16 |||
        BitVec.ofNat 32 d.toNat <<< 24 =
      BitVec.ofNat 32 (ByteOrder.load .little [a, b, c, d]) := by
  have ha := a.toNat_lt
  have hb := b.toNat_lt
  have hc := c.toNat_lt
  have hd := d.toNat_lt
  have hmod {n : ℕ} (hn : n < 2 ^ 32) : n % 2 ^ 32 = n := Nat.mod_eq_of_lt hn
  apply BitVec.eq_of_toNat_eq
  simp only [BitVec.toNat_or, BitVec.toNat_shiftLeft, BitVec.toNat_ofNat, ByteOrder.load,
    List.foldr_cons, List.foldr_nil]
  rw [hmod (by omega : a.toNat < 2 ^ 32), hmod (by omega : b.toNat < 2 ^ 32),
    hmod (by omega : c.toNat < 2 ^ 32), hmod (by omega : d.toNat < 2 ^ 32),
    Nat.shiftLeft_eq b.toNat, hmod (by omega : b.toNat * 2 ^ 8 < 2 ^ 32),
    Nat.shiftLeft_eq c.toNat, hmod (by omega : c.toNat * 2 ^ 16 < 2 ^ 32),
    Nat.shiftLeft_eq d.toNat, hmod (by omega : d.toNat * 2 ^ 24 < 2 ^ 32),
    ← Nat.shiftLeft_eq b.toNat, or_shiftLeft (by omega), ← Nat.shiftLeft_eq c.toNat,
    or_shiftLeft (by omega), ← Nat.shiftLeft_eq d.toNat, or_shiftLeft (by omega)]
  omega

theorem decode_eq {block : List UInt8} (hblock : block.length = 64) (index : Fin 16) :
    decode block index = Rfc1321.wordAt block index := by
  have hindex := index.isLt
  have hget (j : ℕ) (hj : j < 4) :
      block.getD (4 * index + j) 0 = ((block.drop (4 * index)).take 4).getD j 0 := by
    rw [List.getD_eq_getElem?_getD, List.getD_eq_getElem?_getD, List.getElem?_take_of_lt hj,
      List.getElem?_drop]
  have hlength : ((block.drop (4 * index)).take 4).length = 4 := by
    rw [List.length_take, List.length_drop]
    omega
  obtain ⟨a, b, c, d, hword⟩ := List.length_eq_four.mp hlength
  rw [Rfc1321.wordAt, hword, ← or_bytes, decode]
  dsimp only
  rw [hget 0 (by decide), hget 1 (by decide), hget 2 (by decide), hget 3 (by decide), hword]
  rfl

/-- The function of a round. -/
def calleeOf : Fin 4 → Callee := ![.ff, .gg, .hh, .ii]

theorem run_calleeOf (round : Fin 4) : (calleeOf round).run = Rfc1321.function round := by
  fin_cases round <;> rfl

/-- The lines are the operations of the standard: their names, their functions, the words and the
rotations. -/
theorem lines_eq (t : ℕ) (ht : t < lines.length) :
    (∀ n, lines[t].names n = n - Fin.ofNat 4 t) ∧
      lines[t].callee = calleeOf (Fin.ofNat 4 (t / 16)) ∧
      lines[t].x = Rfc1321.select (Fin.ofNat 4 (t / 16)) (Fin.ofNat 16 t) ∧
      lines[t].s = Rfc1321.shift (Fin.ofNat 4 (t / 16)) (Fin.ofNat 4 t) ∧ lines[t].s < 32 := by
  revert t
  decide +kernel

/-- The constants are the bits of sines. -/
theorem constants_eq (t : ℕ) (ht : t < lines.length) : lines[t].ac = Rfc1321.constant t := by
  have htable : isSineTable 32 (lines.map fun line ↦ line.ac.toNat) = true := by decide +kernel
  have hindex : t < (lines.map fun line ↦ line.ac.toNat).length := by rwa [List.length_map]
  rw [Rfc1321.constant, sineBits_of_table htable hindex, List.getElem_map, BitVec.ofNat_toNat,
    BitVec.setWidth_eq]

theorem rotateLeft_eq (x : BitVec 32) {n : ℕ} (hn : n < 32) : rotateLeft x n = x.rotateLeft n := by
  rw [BitVec.rotateLeft_eq_rotateLeftAux_of_lt hn]
  rfl

variable {t : ℕ} {block : List UInt8}

/-- One line is one operation. -/
theorem renamed_run (hblock : block.length = 64) (ht : t < lines.length)
    (registers : Fin 4 → BitVec 32) :
    renamed (t + 1) (lines[t].run (decode block) registers) =
      Rfc1321.operation block (renamed t registers) t := by
  obtain ⟨hnames, hcallee, hx, hs, hlt⟩ := lines_eq t ht
  have hall : lines[t].names = fun n ↦ n - Fin.ofNat 4 t := funext hnames
  have hword (n : Fin 4) : registers (n - Fin.ofNat 4 t) = renamed t registers n := rfl
  rw [renamed_succ, Line.run, hall]
  simp only [renamed_update, hword]
  rw [rotateLeft_eq _ hlt, hs, hx, hcallee, run_calleeOf, constants_eq t ht, decode_eq hblock]
  funext n
  rw [rotate, Rfc1321.operation]
  fin_cases n
  · rfl
  · change BitVec.rotateLeft (renamed t registers 0 + _) _ + renamed t registers 1 =
      renamed t registers 1 + BitVec.rotateLeft _ _
    rw [BitVec.add_comm, BitVec.add_assoc, BitVec.add_assoc, BitVec.add_assoc]
  · rfl
  · rfl

/-- All lines are all operations. By induction on their number. -/
theorem renamed_lines (hblock : block.length = 64) (registers : Fin 4 → BitVec 32)
    (ht : t ≤ lines.length) :
    renamed t ((lines.take t).foldl (fun words line ↦ line.run (decode block) words) registers) =
      (List.range t).foldl (Rfc1321.operation block) registers := by
  induction t with
  | zero => exact renamed_zero registers
  | succ t ih =>
    rw [List.take_succ_eq_append_getElem ht, List.foldl_append, List.range_succ, List.foldl_append,
      ← ih (by omega)]
    exact renamed_run hblock ht _

theorem transform_eq (hblock : block.length = 64) (state : Fin 4 → BitVec 32) :
    transform state block = Rfc1321.compress state block := by
  have hall := renamed_lines hblock state (le_refl lines.length)
  rw [renamed_of_dvd (by decide), List.take_length] at hall
  rw [transform, hall]
  rfl

/-! ### The text that was handed over -/

theorem encode_words (input : List (BitVec 32)) :
    encode input = input.flatMap fun x ↦ ByteOrder.littleEndian 4 x.toNat := by
  have hbyte (x : BitVec 32) (n : ℕ) :
      UInt8.ofNat (x >>> n &&& 0xff).toNat = UInt8.ofNat (x.toNat / 2 ^ n) := by
    have hmask : (x >>> n &&& 0xff).toNat = x.toNat / 2 ^ n % 2 ^ 8 := by
      rw [BitVec.toNat_and, BitVec.toNat_ushiftRight, Nat.shiftRight_eq_div_pow]
      exact Nat.and_two_pow_sub_one_eq_mod _ 8
    rw [hmask]
    apply UInt8.toNat_inj.mp
    simp only [UInt8.toNat_ofNat', Nat.mod_mod]
  have hword (x : BitVec 32) :
      [UInt8.ofNat (x &&& 0xff).toNat, UInt8.ofNat (x >>> 8 &&& 0xff).toNat,
        UInt8.ofNat (x >>> 16 &&& 0xff).toNat, UInt8.ofNat (x >>> 24 &&& 0xff).toNat] =
      ByteOrder.littleEndian 4 x.toNat := by
    have hfirst := hbyte x 0
    rw [BitVec.ushiftRight_zero] at hfirst
    rw [hfirst, hbyte, hbyte, hbyte]
    rfl
  simp only [encode, hword]

theorem length_encode (input : List (BitVec 32)) : (encode input).length = 4 * input.length := by
  rw [encode, List.length_flatMap]
  simp [Nat.mul_comm]

/-- The two counters are one number of eight bytes. -/
theorem encode_count (count0 count1 : BitVec 32) :
    encode [count0, count1] =
      ByteOrder.littleEndian 8 (count0.toNat + 2 ^ 32 * count1.toNat) := by
  have hlow (index : ℕ) (hindex : index < 4) :
      ByteOrder.byte index count0.toNat =
        ByteOrder.byte index (count0.toNat + 2 ^ 32 * count1.toNat) := by
    apply UInt8.toNat_inj.mp
    simp only [ByteOrder.byte, UInt8.toNat_ofNat']
    obtain rfl | rfl | rfl | rfl : index = 0 ∨ index = 1 ∨ index = 2 ∨ index = 3 := by omega
    all_goals omega
  have hhigh (index : ℕ) :
      ByteOrder.byte index count1.toNat =
        ByteOrder.byte (4 + index) (count0.toNat + 2 ^ 32 * count1.toNat) := by
    have hdiv : (count0.toNat + 2 ^ 32 * count1.toNat) / 256 ^ 4 = count1.toNat := by
      have hlt := count0.isLt
      omega
    rw [ByteOrder.byte, ByteOrder.byte, pow_add, ← Nat.div_div_eq_div_mul, hdiv]
  rw [encode_words]
  change [ByteOrder.byte 0 count0.toNat, ByteOrder.byte 1 count0.toNat,
    ByteOrder.byte 2 count0.toNat, ByteOrder.byte 3 count0.toNat, ByteOrder.byte 0 count1.toNat,
    ByteOrder.byte 1 count1.toNat, ByteOrder.byte 2 count1.toNat,
    ByteOrder.byte 3 count1.toNat] = _
  rw [hlow 0 (by decide), hlow 1 (by decide), hlow 2 (by decide), hlow 3 (by decide), hhigh 0,
    hhigh 1, hhigh 2, hhigh 3]
  rfl

/-- An object stands for a text: the state after its full blocks, what is left in the buffer, and
the number of bits. -/
structure Represents (md5 : Context) (text : List UInt8) : Prop where
  state : md5.state = absorb transform 64 magic text
  length_buffer : md5.buffer.length = 64
  buffered : md5.buffer.take (text.length % 64) = leftover 64 text
  count : md5.count0.toNat + 2 ^ 32 * md5.count1.toNat = 8 * text.length % 2 ^ 64

variable {md5 : Context} {text : List UInt8}

theorem toNat_bufferIndex {count0 : BitVec 32} :
    (count0 >>> 3 &&& 0x3F).toNat = count0.toNat / 8 % 64 := by
  rw [BitVec.toNat_and, BitVec.toNat_ushiftRight, Nat.shiftRight_eq_div_pow]
  exact Nat.and_two_pow_sub_one_eq_mod _ 6

theorem Represents.bufferIndex (hrep : Represents md5 text) :
    (md5.count0 >>> 3 &&& 0x3F).toNat = text.length % 64 := by
  have hcount := hrep.count
  have hlt := md5.count0.isLt
  rw [toNat_bufferIndex]
  omega

/-- The carry from one counter to the other is found by comparison. -/
theorem toNat_countBits (count0 count1 : BitVec 32) {inputLength : ℕ}
    (hinput : inputLength < 2 ^ 32) :
    (countBits (count0, count1) (BitVec.ofNat 32 inputLength)).1.toNat +
        2 ^ 32 * (countBits (count0, count1) (BitVec.ofNat 32 inputLength)).2.toNat =
      (count0.toNat + 2 ^ 32 * count1.toNat + 8 * inputLength) % 2 ^ 64 := by
  have hlow := count0.isLt
  have hhigh := count1.isLt
  simp only [countBits, BitVec.lt_def]
  split_ifs with hcarry
  all_goals
    simp only [BitVec.toNat_add, BitVec.toNat_shiftLeft, BitVec.toNat_ushiftRight,
      BitVec.toNat_ofNat, Nat.shiftLeft_eq, Nat.shiftRight_eq_div_pow] at hcarry ⊢
    omega

/-- The loop processes all full blocks. By induction on the turns. -/
theorem transformLoop_spec (text : List UInt8) {input : List UInt8}
    (hinput : input.length ≤ 2 ^ 32 - 64) {turns : ℕ} :
    ∀ (state : Fin 4 → BitVec 32) (index : BitVec 32), index.toNat ≤ input.length →
      input.length - index.toNat ≤ turns →
      state = absorb transform 64 magic (text ++ input.take index.toNat) →
      leftover 64 (text ++ input.take index.toNat) = [] →
      ∃ state' index', transformLoop input (BitVec.ofNat 32 input.length) turns state index =
          (state', index') ∧ index'.toNat ≤ input.length ∧ input.length - index'.toNat < 64 ∧
        state' = absorb transform 64 magic (text ++ input.take index'.toNat) ∧
        leftover 64 (text ++ input.take index'.toNat) = [] := by
  induction turns with
  | zero =>
    intro state index hindex hturns hstate hleft
    exact ⟨state, index, rfl, hindex, by omega, hstate, hleft⟩
  | succ turns ih =>
    intro state index hindex hturns hstate hleft
    have hadd (n : ℕ) :
        (index + BitVec.ofNat 32 n).toNat = (index.toNat + n) % 2 ^ 32 := by
      rw [BitVec.toNat_add, BitVec.toNat_ofNat, Nat.add_mod_mod]
    have hguard :
        index + 63#32 < BitVec.ofNat 32 input.length ↔ index.toNat + 63 < input.length := by
      rw [BitVec.lt_def, hadd 63, BitVec.toNat_ofNat,
        Nat.mod_eq_of_lt (by omega : index.toNat + 63 < 2 ^ 32),
        Nat.mod_eq_of_lt (by omega : input.length < 2 ^ 32)]
    rw [transformLoop]
    split_ifs with hfull
    · have hroom := hguard.mp hfull
      have hnext : (index + 64#32).toNat = index.toNat + 64 := by
        rw [hadd 64, Nat.mod_eq_of_lt (by omega)]
      have htake : input.take (index + 64#32).toNat =
          input.take index.toNat ++ (input.drop index.toNat).take 64 := by
        rw [hnext, List.take_add]
      have hblock : (leftover 64 (text ++ input.take index.toNat) ++
          (input.drop index.toNat).take 64).length = 64 := by
        rw [hleft, List.nil_append, List.length_take, List.length_drop]
        omega
      have hfill := absorb_fill transform magic (by decide) hblock
      rw [hleft, List.nil_append, ← hstate, List.append_assoc, ← htake] at hfill
      have hle : (index + 64#32).toNat ≤ input.length := by
        rw [hnext]
        omega
      have hleTurns : input.length - (index + 64#32).toNat ≤ turns := by
        rw [hnext]
        omega
      exact ih _ (index + 64#32) hle hleTurns hfill.1.symm hfill.2
    · have hshort : ¬index.toNat + 63 < input.length := fun hlt ↦ hfull (hguard.mpr hlt)
      exact ⟨state, index, rfl, hindex, by omega, hstate, hleft⟩

/-- `update` appends to the text that the object stands for. -/
theorem Represents.update (hrep : Represents md5 text) (hfinalized : md5.finalized = false)
    (input : List UInt8) (hinput : input.length ≤ 2 ^ 32 - 64) :
    Represents (update md5 input) (text ++ input) := by
  have hindex := hrep.bufferIndex
  have hindexLt : text.length % 64 < 64 := Nat.mod_lt _ (by decide)
  have hbuffer := hrep.length_buffer
  have hlength : (BitVec.ofNat 32 input.length).toNat = input.length := by
    rw [BitVec.toNat_ofNat, Nat.mod_eq_of_lt (by omega)]
  have hspace : (64#32 - (md5.count0 >>> 3 &&& 0x3F)).toNat = 64 - text.length % 64 := by
    rw [BitVec.toNat_sub, hindex]
    change (2 ^ 32 - text.length % 64 + 64) % 2 ^ 32 = _
    omega
  have hcount := toNat_countBits md5.count0 md5.count1 (show input.length < 2 ^ 32 by omega)
  have htotal : (countBits (md5.count0, md5.count1) (BitVec.ofNat 32 input.length)).1.toNat +
      2 ^ 32 * (countBits (md5.count0, md5.count1) (BitVec.ofNat 32 input.length)).2.toNat =
        8 * (text ++ input).length % 2 ^ 64 := by
    have hold := hrep.count
    rw [hcount, List.length_append]
    omega
  rw [Md5.update, hfinalized, if_neg (by decide)]
  dsimp only
  rw [hspace, hlength, hindex]
  have hguard : 64#32 - (md5.count0 >>> 3 &&& 0x3F) ≤ BitVec.ofNat 32 input.length ↔
      64 - text.length % 64 ≤ input.length := by
    rw [BitVec.le_def, hspace, hlength]
  by_cases henough : 64 - text.length % 64 ≤ input.length
  · -- The buffer is filled and processed, and after it all full blocks.
    rw [if_pos (hguard.mpr henough)]
    obtain ⟨count, hsum⟩ : ∃ count, text.length % 64 + count = 64 :=
      ⟨64 - text.length % 64, by omega⟩
    have hsub : 64 - text.length % 64 = count := by omega
    rw [hsub] at henough hspace ⊢
    have hfits : text.length % 64 + count ≤ md5.buffer.length := by omega
    have hlengthBuffer : (memcpy md5.buffer (text.length % 64) input count).length = 64 :=
      (HasherClass.length_memcpy hfits henough).trans hbuffer
    have hfilled : memcpy md5.buffer (text.length % 64) input count =
        leftover 64 text ++ input.take count := by
      have htake := HasherClass.take_memcpy input hfits henough
      rwa [hsum, List.take_of_length_le hlengthBuffer.le, hrep.buffered] at htake
    have hblock : (leftover 64 text ++ input.take count).length = 64 := by
      rw [← hfilled, hlengthBuffer]
    have hfill := absorb_fill transform magic (by decide) hblock
    rw [← hrep.state, ← hfilled] at hfill
    obtain ⟨state, index, hloop, hindexLe, hrest, hstate, hleft⟩ :=
      transformLoop_spec text hinput
        (transform md5.state (memcpy md5.buffer (text.length % 64) input count))
        (64#32 - (md5.count0 >>> 3 &&& 0x3F)) (by omega) (Nat.sub_le input.length _)
        (by rw [hspace, hfill.1]) (by rw [hspace, hfill.2])
    rw [hloop]
    have hdrop : (input.drop index.toNat).length = input.length - index.toNat := List.length_drop
    have hremaining :
        (BitVec.ofNat 32 input.length - index).toNat = input.length - index.toNat := by
      rw [BitVec.toNat_sub, hlength]
      have hlt := index.isLt
      omega
    have hlast : (leftover 64 (text ++ input.take index.toNat) ++
        input.drop index.toNat).length < 64 := by
      rw [hleft, List.nil_append, hdrop]
      exact hrest
    have hshort := absorb_short transform magic (show 0 < 64 by decide) hlast
    rw [hleft, List.nil_append, ← hstate, List.append_assoc, List.take_append_drop] at hshort
    have hmod : (text ++ input).length % 64 = input.length - index.toNat := by
      rw [← length_leftover, hshort.2, hdrop]
    have hroom : 0 + (input.length - index.toNat) ≤
        (memcpy md5.buffer (text.length % 64) input count).length := by omega
    refine ⟨hshort.1.symm, ?_, ?_, htotal⟩
    · rw [hremaining]
      exact (HasherClass.length_memcpy hroom hdrop.ge).trans hlengthBuffer
    · have htake := HasherClass.take_memcpy (input.drop index.toNat) hroom hdrop.ge
      rw [Nat.zero_add, List.take_zero, List.nil_append, List.take_of_length_le hdrop.le] at htake
      rw [hmod, hremaining, hshort.2, htake]
  · -- All of the input goes behind what is in the buffer.
    rw [if_neg fun hle ↦ henough (hguard.mp hle)]
    have hall : (leftover 64 text ++ input).length < 64 := by
      rw [List.length_append, length_leftover]
      omega
    have hshort := absorb_short transform magic (show 0 < 64 by decide) hall
    have hmod : (text ++ input).length % 64 = text.length % 64 + input.length := by
      rw [List.length_append]
      omega
    have hfits : text.length % 64 + input.length ≤ md5.buffer.length := by omega
    refine ⟨by rw [hshort.1, hrep.state], ?_, ?_, htotal⟩
    · exact (HasherClass.length_memcpy hfits le_rfl).trans hbuffer
    · rw [hmod, hshort.2, HasherClass.take_memcpy input hfits le_rfl, hrep.buffered,
        List.take_length]

theorem finalized_update (md5 : Context) (input : List UInt8) :
    (update md5 input).finalized = md5.finalized := by
  rw [Md5.update]
  dsimp only
  split_ifs <;> rfl

/-- The length of the padding, with its mark. -/
theorem toNat_padLen {index : BitVec 32} {length : ℕ} (hindex : index.toNat = length % 64) :
    (if index < 56#32 then 56#32 - index else 120#32 - index).toNat = zeros 64 8 length + 1 := by
  have hmod := Nat.mod_lt length (show 0 < 64 by decide)
  rw [zeros_eq (by decide)]
  have hguard : index < 56#32 ↔ length % 64 < 56 := by
    rw [BitVec.lt_def, hindex]
    rfl
  by_cases hless : length % 64 < 56
  · rw [if_pos (hguard.mpr hless), BitVec.toNat_sub, hindex]
    change (2 ^ 32 - length % 64 + 56) % 2 ^ 32 = _
    omega
  · rw [if_neg fun hlt ↦ hless (hguard.mp hlt), BitVec.toNat_sub, hindex]
    change (2 ^ 32 - length % 64 + 120) % 2 ^ 32 = _
    omega

/-- `final` stores the digest of the text that the object stands for. -/
theorem Represents.final (hrep : Represents md5 text) (hfinalized : md5.finalized = false) :
    (final md5).digest = Rfc1321.standard.hash text ∧ (final md5).buffer.length = 64 ∧
      (final md5).finalized = true := by
  set count := zeros 64 8 text.length with hcount
  have hzeros : count < 64 := by
    rw [hcount, zeros_eq (by decide)]
    exact Nat.mod_lt _ (by decide)
  have hpadding : padding.take (count + 1) = 0x80 :: List.replicate count 0 := by
    rw [padding, List.take_succ_cons, List.take_replicate, Nat.min_eq_left (by omega)]
  have hbits : encode [md5.count0, md5.count1] = ByteOrder.littleEndian 8 (8 * text.length) := by
    rw [encode_count, hrep.count]
    exact ByteOrder.littleEndian_mod 8 _
  have hmarked := hrep.update hfinalized (0x80 :: List.replicate count 0) (by
    rw [List.length_cons, List.length_replicate]
    omega)
  have hpadded := hmarked.update ((finalized_update _ _).trans hfinalized)
    (ByteOrder.littleEndian 8 (8 * text.length)) (by
      rw [ByteOrder.littleEndian, List.length_map, List.length_range]
      decide)
  have hpad : text ++ (0x80 :: List.replicate count 0) ++
      ByteOrder.littleEndian 8 (8 * text.length) = Rfc1321.standard.pad text := rfl
  rw [hpad] at hpadded
  rw [Md5.final, hfinalized, if_neg (by decide)]
  dsimp only
  rw [toNat_padLen hrep.bufferIndex, ← hcount, hpadding, hbits]
  refine ⟨?_, ?_, rfl⟩
  · rw [encode_words, hpadded.state,
      absorb_congr fun state block hblock ↦ transform_eq hblock state]
    rfl
  · exact (HasherClass.length_memcpy (by rw [hpadded.length_buffer]; decide) (by decide)).trans
      hpadded.length_buffer

/-! ### Calls -/

/-- What was handed over since `init`, and whether `final` was called since. Input after `final` is
ignored. -/
def handedBy : List UInt8 × Bool → Call → List UInt8 × Bool
  | _, .init => ([], false)
  | (text, false), .update input => (text ++ input, false)
  | (text, true), .update _ => (text, true)
  | (text, _), .final => (text, true)

def handed (history : List Call) : List UInt8 × Bool := history.foldl handedBy ([], false)

/-- A new object after a number of calls. -/
def calls (buffer digest : List UInt8) (history : List Call) : Context :=
  history.foldl call (construct buffer digest)

/-- The index in the loop of `update` does not overflow. -/
def Fits : Call → Prop
  | .update input => input.length ≤ 2 ^ 32 - 64
  | _ => True

/-- What holds of an object at any time. -/
structure Sound (md5 : Context) (text : List UInt8) (done : Bool) : Prop where
  length_buffer : md5.buffer.length = 64
  finalized : md5.finalized = done
  represents : done = false → Represents md5 text
  digest : done = true → md5.digest = Rfc1321.standard.hash text

theorem represents_start (hbuffer : md5.buffer.length = 64) : Represents (init md5) [] where
  state := absorb_nil.symm
  length_buffer := hbuffer
  buffered := rfl
  count := rfl

/-- Every call keeps it. -/
theorem Sound.call {done : Bool} (hsound : Sound md5 text done) {call : Call} (hfits : Fits call) :
    Sound (Md5.call md5 call) (handedBy (text, done) call).1 (handedBy (text, done) call).2 := by
  cases call with
  | init =>
    exact ⟨hsound.length_buffer, rfl, fun _ ↦ represents_start hsound.length_buffer,
      fun hdone ↦ nomatch hdone⟩
  | update input =>
    cases done with
    | false =>
      have hupdate := (hsound.represents rfl).update hsound.finalized input hfits
      exact ⟨hupdate.length_buffer, (finalized_update md5 input).trans hsound.finalized,
        fun _ ↦ hupdate, fun hdone ↦ nomatch hdone⟩
    | true =>
      have hsame : update md5 input = md5 := by rw [Md5.update, hsound.finalized, if_pos rfl]
      rw [Md5.call, hsame]
      exact hsound
  | final =>
    cases done with
    | false =>
      obtain ⟨hdigest, hbuffer, hdone⟩ := (hsound.represents rfl).final hsound.finalized
      exact ⟨hbuffer, hdone, fun hfalse ↦ (nomatch hfalse), fun _ ↦ hdigest⟩
    | true =>
      have hsame : final md5 = md5 := by rw [Md5.final, hsound.finalized, if_pos rfl]
      rw [Md5.call, hsame]
      exact hsound

/-- So do all calls. By induction on the history, from its end. -/
theorem Sound.calls {buffer : List UInt8} (digest : List UInt8) (hbuffer : buffer.length = 64)
    {history : List Call} (hfits : ∀ call ∈ history, Fits call) :
    Sound (calls buffer digest history) (handed history).1 (handed history).2 := by
  induction history using List.reverseRecOn with
  | nil =>
    have hstart : (construct buffer digest).buffer.length = 64 := hbuffer
    exact ⟨hbuffer, rfl, fun _ ↦ represents_start hstart, fun hdone ↦ nomatch hdone⟩
  | append_singleton history call ih =>
    have hbefore := ih fun earlier hearlier ↦ hfits earlier (List.mem_append_left _ hearlier)
    have hcall := hbefore.call (hfits call (List.mem_append_right _ (List.mem_singleton_self call)))
    rw [Md5.calls, handed, List.foldl_append, List.foldl_append]
    exact hcall

/-- After any calls an object that was finalized holds the digest of what was handed over since
`init`, and `MD5Encode` gives that of its argument. -/
theorem digest_eq_md5 (buffer digest : List UInt8) (hbuffer : buffer.length = 64)
    (history : List Call) (hfits : ∀ call ∈ history, Fits call) :
    (∀ text, handed history = (text, true) →
      (calls buffer digest history).digest = Rfc1321.standard.hash text) ∧
    ∀ src : List UInt8, src.length ≤ 2 ^ 32 - 64 →
      md5Encode (calls buffer digest history) src = result (Rfc1321.standard.hash src) := by
  have hsound := Sound.calls digest hbuffer hfits
  refine ⟨fun text htext ↦ ?_, fun src hsrc ↦ ?_⟩
  · rw [htext] at hsound
    exact hsound.digest rfl
  · have hupdate := (represents_start hsound.length_buffer).update rfl src hsrc
    have hfinal := hupdate.final ((finalized_update _ src).trans rfl)
    rw [md5Encode, hfinal.1, List.nil_append]

theorem digest_eq_md5_abc :
    (∀ text, handed [.update [0], .init, .update [97], .update [98, 99], .final] = (text, true) →
      (calls (List.replicate 64 0) (List.replicate 16 0)
        [.update [0], .init, .update [97], .update [98, 99], .final]).digest =
          Rfc1321.standard.hash text) ∧
    ∀ src : List UInt8, src.length ≤ 2 ^ 32 - 64 →
      md5Encode (calls (List.replicate 64 0) (List.replicate 16 0)
        [.update [0], .init, .update [97], .update [98, 99], .final]) src =
          result (Rfc1321.standard.hash src) :=
  digest_eq_md5 _ _ rfl _ (by simp [Fits])

end Exc.Hash.Md5
