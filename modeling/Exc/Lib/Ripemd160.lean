import Exc.Lib.BlockHash
import Exc.Lib.ByteOrder
import Exc.Lib.PrimeRoots
import Mathlib.Data.Fin.VecNotation

/-!
# RIPEMD-160

The hash function runs two lines of eighty steps side by side and adds their results to the state.
Each line is five rounds of sixteen steps. The words of the block enter a round in an order that
comes from two permutations, and the length of a rotation depends only on the round and on the word,
for both lines. The constants are bits of the square and the cube roots of the first primes.
-/

set_option autoImplicit false
set_option relaxedAutoImplicit false

namespace Exc.Lib.Ripemd160

open BlockHash

/-- A word of a block, the least significant byte first. -/
def wordAt (block : List UInt8) (index : Fin 16) : BitVec 32 :=
  BitVec.ofNat 32 (ByteOrder.load .little ((block.drop (4 * index)).take 4))

/-- The two lines. -/
inductive Side
  | left
  | right
  deriving DecidableEq, Repr

/-- The five functions. -/
def function (number : Fin 5) (x y z : BitVec 32) : BitVec 32 :=
  match number with
  | 0 => x ^^^ y ^^^ z
  | 1 => (x &&& y) ||| (~~~x &&& z)
  | 2 => (x ||| ~~~y) ^^^ z
  | 3 => (x &&& z) ||| (y &&& ~~~z)
  | 4 => x ^^^ (y ||| ~~~z)

/-- The functions of a line in their order; the right line has them from the last to the first. -/
def functionOf (side : Side) (round : Fin 5) : BitVec 32 → BitVec 32 → BitVec 32 → BitVec 32 :=
  match side with
  | .left => function round
  | .right => function (4 - round)

/-- The constants of a line; one round of each line has none. -/
noncomputable def constant (side : Side) (round : Fin 5) : BitVec 32 :=
  match side with
  | .left => if round = 0 then 0
    else BitVec.ofNat 32 (rootBits 30 2 (Nat.nth Nat.Prime (round - 1)))
  | .right => if round = 4 then 0
    else BitVec.ofNat 32 (rootBits 30 3 (Nat.nth Nat.Prime round))

def rho : Fin 16 → Fin 16 := ![7, 4, 13, 1, 10, 6, 15, 3, 12, 0, 9, 5, 2, 14, 11, 8]

def pi (i : Fin 16) : Fin 16 := 9 * i + 5

/-- The word that enters a step. -/
def select (side : Side) (t : ℕ) : Fin 16 :=
  match side with
  | .left => rho^[t / 16] (Fin.ofNat 16 t)
  | .right => rho^[t / 16] (pi (Fin.ofNat 16 t))

/-- The rotation of a step, by the round and the word. -/
def shift : Fin 5 → Fin 16 → ℕ :=
  ![![11, 14, 15, 12, 5, 8, 7, 9, 11, 13, 14, 15, 6, 7, 9, 8],
    ![12, 13, 11, 15, 6, 9, 9, 7, 12, 15, 11, 13, 7, 8, 7, 7],
    ![13, 15, 14, 11, 7, 7, 6, 8, 13, 14, 13, 12, 5, 5, 6, 9],
    ![14, 11, 12, 14, 8, 6, 5, 5, 15, 12, 15, 14, 9, 9, 8, 6],
    ![15, 12, 13, 13, 9, 5, 8, 6, 14, 11, 12, 11, 8, 6, 5, 5]]

/-- One step of a line. -/
noncomputable def step (side : Side) (block : List UInt8) (words : Fin 5 → BitVec 32) (t : ℕ) :
    Fin 5 → BitVec 32 :=
  let round := Fin.ofNat 5 (t / 16)
  let word := select side t
  ![words 4,
    (words 0 + functionOf side round (words 1) (words 2) (words 3) + wordAt block word +
      constant side round).rotateLeft (shift round word) + words 4,
    words 1, (words 2).rotateLeft 10, words 3]

/-- A line. -/
noncomputable def line (side : Side) (block : List UInt8) (state : Fin 5 → BitVec 32) :
    Fin 5 → BitVec 32 :=
  (List.range 80).foldl (step side block) state

/-- Both lines are added to the state, each moved on by some places. -/
noncomputable def compress (state : Fin 5 → BitVec 32) (block : List UInt8) : Fin 5 → BitVec 32 :=
  fun i ↦ state (i + 1) + line .left block state (i + 2) + line .right block state (i + 3)

def initial : Fin 5 → BitVec 32 :=
  ![0x67452301, 0xefcdab89, 0x98badcfe, 0x10325476, 0xc3d2e1f0]

/-- The hash function. -/
noncomputable def standard : Standard (Fin 5 → BitVec 32) UInt8 where
  size := 64
  init := initial
  compress := compress
  mark := 0x80
  zero := 0
  lengthBytes := 8
  encodeLength := ByteOrder.littleEndian 8
  output words := (List.ofFn words).flatMap fun word ↦ ByteOrder.littleEndian 4 word.toNat

end Exc.Lib.Ripemd160
