import Exc.Lib.BlockHash
import Exc.Lib.ByteOrder
import Exc.Lib.Literals
import Exc.Lib.SineTable

/-!
# The MD5 message-digest algorithm

MD5 as RFC 1321 defines it: four rounds of sixteen operations, which differ in a function, in the
order of the words of the block and in four rotations that repeat. The constant of an operation is
the first bits of a sine.
-/

set_option autoImplicit false
set_option relaxedAutoImplicit false

namespace Exc.Lib.Rfc1321

open BlockHash

attribute [local instance] neZero_four neZero_sixteen

/-- A word of a block, the least significant byte first. -/
def wordAt (block : List UInt8) (index : Fin 16) : BitVec 32 :=
  BitVec.ofNat 32 (ByteOrder.load .little ((block.drop (4 * index)).take 4))

/-- The functions F, G, H and I. -/
def function (round : Fin 4) (x y z : BitVec 32) : BitVec 32 :=
  match round with
  | 0 => (x &&& y) ||| (~~~x &&& z)
  | 1 => (x &&& z) ||| (y &&& ~~~z)
  | 2 => x ^^^ y ^^^ z
  | 3 => y ^^^ (x ||| ~~~z)

/-- The word that enters an operation. -/
def select (round : Fin 4) (i : Fin 16) : Fin 16 :=
  match round with
  | 0 => i
  | 1 => 5 * i + 1
  | 2 => 3 * i + 5
  | 3 => 7 * i

/-- The rotation of an operation. -/
def shift : Fin 4 → Fin 4 → ℕ :=
  ![![7, 12, 17, 22], ![5, 9, 14, 20], ![4, 11, 16, 23], ![6, 10, 15, 21]]

noncomputable def constant (t : ℕ) : BitVec 32 := BitVec.ofNat 32 (sineBits 32 (t + 1))

/-- One operation. -/
noncomputable def operation (block : List UInt8) (words : Fin 4 → BitVec 32) (t : ℕ) :
    Fin 4 → BitVec 32 :=
  let round := Fin.ofNat 4 (t / 16)
  let sum := words 0 + function round (words 1) (words 2) (words 3) +
    wordAt block (select round (Fin.ofNat 16 t)) + constant t
  ![words 3, words 1 + sum.rotateLeft (shift round (Fin.ofNat 4 t)), words 1, words 2]

noncomputable def compress (state : Fin 4 → BitVec 32) (block : List UInt8) : Fin 4 → BitVec 32 :=
  fun i ↦ state i + (List.range 64).foldl (operation block) state i

def initial : Fin 4 → BitVec 32 := ![0x67452301, 0xefcdab89, 0x98badcfe, 0x10325476]

/-- The hash function. Of the length of a text the low 64 bits are used. -/
noncomputable def standard : Standard (Fin 4 → BitVec 32) UInt8 where
  size := 64
  init := initial
  compress := compress
  mark := 0x80
  zero := 0
  lengthBytes := 8
  encodeLength := ByteOrder.littleEndian 8
  output words := (List.ofFn words).flatMap fun word ↦ ByteOrder.littleEndian 4 word.toNat

end Exc.Lib.Rfc1321
