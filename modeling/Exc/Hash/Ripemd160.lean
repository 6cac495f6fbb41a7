import Exc.Hash.Hasher
import Exc.Lib.Literals
import Exc.Lib.Ripemd160
import Exc.Lib.RotatingRegisters

/-!
# RIPEMD-160

The class `CRIPEMD160`. `ripemd160::Transform` is written out line by line, where lines on the
variables `a1` to `e1` and on the variables `a2` to `e2` alternate. The lines of each kind are one
line of the standard (`foldl_linesOf`), so that the class follows it (`follows`).
-/

set_option autoImplicit false
set_option relaxedAutoImplicit false

namespace Exc.Hash.Ripemd160

open Lib HasherClass

attribute [local instance] neZero_five neZero_sixteen

/-! ### The code -/

/-- `ReadLE32`. -/
def readLE32 (chunk : List UInt8) (offset : ℕ) : BitVec 32 :=
  BitVec.ofNat 32 (ByteOrder.load .little ((chunk.drop offset).take 4))

/-- `WriteLE32` and `WriteLE64`. -/
def writeLE {w : ℕ} (x : BitVec w) : List UInt8 := ByteOrder.littleEndian (w / 8) x.toNat

def f1 (x y z : BitVec 32) : BitVec 32 := x ^^^ y ^^^ z

def f2 (x y z : BitVec 32) : BitVec 32 := (x &&& y) ||| (~~~x &&& z)

def f3 (x y z : BitVec 32) : BitVec 32 := (x ||| ~~~y) ^^^ z

def f4 (x y z : BitVec 32) : BitVec 32 := (x &&& z) ||| (y &&& ~~~z)

def f5 (x y z : BitVec 32) : BitVec 32 := x ^^^ (y ||| ~~~z)

/-- `Initialize`. -/
def initial : Fin 5 → BitVec 32 := ![0x67452301, 0xEFCDAB89, 0x98BADCFE, 0x10325476, 0xC3D2E1F0]

def rol (x : BitVec 32) (i : ℕ) : BitVec 32 := x <<< i ||| x >>> (32 - i)

/-- The functions `R11` to `R52`. -/
inductive Callee
  | r11 | r21 | r31 | r41 | r51
  | r12 | r22 | r32 | r42 | r52
  deriving DecidableEq, Repr

/-- The function and the constant that they hand to `Round`. -/
def Callee.f : Callee → BitVec 32 → BitVec 32 → BitVec 32 → BitVec 32
  | .r11 | .r52 => f1
  | .r21 | .r42 => f2
  | .r31 | .r32 => f3
  | .r41 | .r22 => f4
  | .r51 | .r12 => f5

def Callee.k : Callee → BitVec 32
  | .r11 => 0
  | .r21 => 0x5A827999
  | .r31 => 0x6ED9EBA1
  | .r41 => 0x8F1BBCDC
  | .r51 => 0xA953FD4E
  | .r12 => 0x50A28BE6
  | .r22 => 0x5C4DD124
  | .r32 => 0x6D703EF3
  | .r42 => 0x7A6D76E9
  | .r52 => 0

/-- The digit in the names of all variables of a line. -/
inductive Digit
  | first
  | second
  deriving DecidableEq, Repr

/-- A line of `Transform`. The variables `a` to `e` are numbered from 0 to 4. -/
structure Line where
  digit : Digit
  callee : Callee
  names : Fin 5 → Fin 5
  w : Fin 16
  r : ℕ

/-- `Round`, for variables that are given by their names. -/
def round (registers : Fin 5 → BitVec 32) (names : Fin 5 → Fin 5) (f x k : BitVec 32) (r : ℕ) :
    Fin 5 → BitVec 32 :=
  let word i := registers (names i)
  Function.update (Function.update registers (names 0) (rol (word 0 + f + x + k) r + word 4))
    (names 2) (rol (word 2) 10)

/-- `R11` to `R52`. -/
def Line.run (line : Line) (w : Fin 16 → BitVec 32) (registers : Fin 5 → BitVec 32) :
    Fin 5 → BitVec 32 :=
  let word i := registers (line.names i)
  round registers line.names (line.callee.f (word 1) (word 2) (word 3)) (w line.w) line.callee.k
    line.r

/-- One line, on the variables with the digit 1 and those with the digit 2. -/
def step (w : Fin 16 → BitVec 32) (vars : (Fin 5 → BitVec 32) × (Fin 5 → BitVec 32)) (line : Line) :
    (Fin 5 → BitVec 32) × (Fin 5 → BitVec 32) :=
  match line.digit with
  | .first => (line.run w vars.1, vars.2)
  | .second => (vars.1, line.run w vars.2)

/-- The lines of `Transform`. -/
def lines : List Line :=
  [⟨.first, .r11, ![0, 1, 2, 3, 4], 0, 11⟩, ⟨.second, .r12, ![0, 1, 2, 3, 4], 5, 8⟩,
    ⟨.first, .r11, ![4, 0, 1, 2, 3], 1, 14⟩, ⟨.second, .r12, ![4, 0, 1, 2, 3], 14, 9⟩,
    ⟨.first, .r11, ![3, 4, 0, 1, 2], 2, 15⟩, ⟨.second, .r12, ![3, 4, 0, 1, 2], 7, 9⟩,
    ⟨.first, .r11, ![2, 3, 4, 0, 1], 3, 12⟩, ⟨.second, .r12, ![2, 3, 4, 0, 1], 0, 11⟩,
    ⟨.first, .r11, ![1, 2, 3, 4, 0], 4, 5⟩, ⟨.second, .r12, ![1, 2, 3, 4, 0], 9, 13⟩,
    ⟨.first, .r11, ![0, 1, 2, 3, 4], 5, 8⟩, ⟨.second, .r12, ![0, 1, 2, 3, 4], 2, 15⟩,
    ⟨.first, .r11, ![4, 0, 1, 2, 3], 6, 7⟩, ⟨.second, .r12, ![4, 0, 1, 2, 3], 11, 15⟩,
    ⟨.first, .r11, ![3, 4, 0, 1, 2], 7, 9⟩, ⟨.second, .r12, ![3, 4, 0, 1, 2], 4, 5⟩,
    ⟨.first, .r11, ![2, 3, 4, 0, 1], 8, 11⟩, ⟨.second, .r12, ![2, 3, 4, 0, 1], 13, 7⟩,
    ⟨.first, .r11, ![1, 2, 3, 4, 0], 9, 13⟩, ⟨.second, .r12, ![1, 2, 3, 4, 0], 6, 7⟩,
    ⟨.first, .r11, ![0, 1, 2, 3, 4], 10, 14⟩, ⟨.second, .r12, ![0, 1, 2, 3, 4], 15, 8⟩,
    ⟨.first, .r11, ![4, 0, 1, 2, 3], 11, 15⟩, ⟨.second, .r12, ![4, 0, 1, 2, 3], 8, 11⟩,
    ⟨.first, .r11, ![3, 4, 0, 1, 2], 12, 6⟩, ⟨.second, .r12, ![3, 4, 0, 1, 2], 1, 14⟩,
    ⟨.first, .r11, ![2, 3, 4, 0, 1], 13, 7⟩, ⟨.second, .r12, ![2, 3, 4, 0, 1], 10, 14⟩,
    ⟨.first, .r11, ![1, 2, 3, 4, 0], 14, 9⟩, ⟨.second, .r12, ![1, 2, 3, 4, 0], 3, 12⟩,
    ⟨.first, .r11, ![0, 1, 2, 3, 4], 15, 8⟩, ⟨.second, .r12, ![0, 1, 2, 3, 4], 12, 6⟩,
    ⟨.first, .r21, ![4, 0, 1, 2, 3], 7, 7⟩, ⟨.second, .r22, ![4, 0, 1, 2, 3], 6, 9⟩,
    ⟨.first, .r21, ![3, 4, 0, 1, 2], 4, 6⟩, ⟨.second, .r22, ![3, 4, 0, 1, 2], 11, 13⟩,
    ⟨.first, .r21, ![2, 3, 4, 0, 1], 13, 8⟩, ⟨.second, .r22, ![2, 3, 4, 0, 1], 3, 15⟩,
    ⟨.first, .r21, ![1, 2, 3, 4, 0], 1, 13⟩, ⟨.second, .r22, ![1, 2, 3, 4, 0], 7, 7⟩,
    ⟨.first, .r21, ![0, 1, 2, 3, 4], 10, 11⟩, ⟨.second, .r22, ![0, 1, 2, 3, 4], 0, 12⟩,
    ⟨.first, .r21, ![4, 0, 1, 2, 3], 6, 9⟩, ⟨.second, .r22, ![4, 0, 1, 2, 3], 13, 8⟩,
    ⟨.first, .r21, ![3, 4, 0, 1, 2], 15, 7⟩, ⟨.second, .r22, ![3, 4, 0, 1, 2], 5, 9⟩,
    ⟨.first, .r21, ![2, 3, 4, 0, 1], 3, 15⟩, ⟨.second, .r22, ![2, 3, 4, 0, 1], 10, 11⟩,
    ⟨.first, .r21, ![1, 2, 3, 4, 0], 12, 7⟩, ⟨.second, .r22, ![1, 2, 3, 4, 0], 14, 7⟩,
    ⟨.first, .r21, ![0, 1, 2, 3, 4], 0, 12⟩, ⟨.second, .r22, ![0, 1, 2, 3, 4], 15, 7⟩,
    ⟨.first, .r21, ![4, 0, 1, 2, 3], 9, 15⟩, ⟨.second, .r22, ![4, 0, 1, 2, 3], 8, 12⟩,
    ⟨.first, .r21, ![3, 4, 0, 1, 2], 5, 9⟩, ⟨.second, .r22, ![3, 4, 0, 1, 2], 12, 7⟩,
    ⟨.first, .r21, ![2, 3, 4, 0, 1], 2, 11⟩, ⟨.second, .r22, ![2, 3, 4, 0, 1], 4, 6⟩,
    ⟨.first, .r21, ![1, 2, 3, 4, 0], 14, 7⟩, ⟨.second, .r22, ![1, 2, 3, 4, 0], 9, 15⟩,
    ⟨.first, .r21, ![0, 1, 2, 3, 4], 11, 13⟩, ⟨.second, .r22, ![0, 1, 2, 3, 4], 1, 13⟩,
    ⟨.first, .r21, ![4, 0, 1, 2, 3], 8, 12⟩, ⟨.second, .r22, ![4, 0, 1, 2, 3], 2, 11⟩,
    ⟨.first, .r31, ![3, 4, 0, 1, 2], 3, 11⟩, ⟨.second, .r32, ![3, 4, 0, 1, 2], 15, 9⟩,
    ⟨.first, .r31, ![2, 3, 4, 0, 1], 10, 13⟩, ⟨.second, .r32, ![2, 3, 4, 0, 1], 5, 7⟩,
    ⟨.first, .r31, ![1, 2, 3, 4, 0], 14, 6⟩, ⟨.second, .r32, ![1, 2, 3, 4, 0], 1, 15⟩,
    ⟨.first, .r31, ![0, 1, 2, 3, 4], 4, 7⟩, ⟨.second, .r32, ![0, 1, 2, 3, 4], 3, 11⟩,
    ⟨.first, .r31, ![4, 0, 1, 2, 3], 9, 14⟩, ⟨.second, .r32, ![4, 0, 1, 2, 3], 7, 8⟩,
    ⟨.first, .r31, ![3, 4, 0, 1, 2], 15, 9⟩, ⟨.second, .r32, ![3, 4, 0, 1, 2], 14, 6⟩,
    ⟨.first, .r31, ![2, 3, 4, 0, 1], 8, 13⟩, ⟨.second, .r32, ![2, 3, 4, 0, 1], 6, 6⟩,
    ⟨.first, .r31, ![1, 2, 3, 4, 0], 1, 15⟩, ⟨.second, .r32, ![1, 2, 3, 4, 0], 9, 14⟩,
    ⟨.first, .r31, ![0, 1, 2, 3, 4], 2, 14⟩, ⟨.second, .r32, ![0, 1, 2, 3, 4], 11, 12⟩,
    ⟨.first, .r31, ![4, 0, 1, 2, 3], 7, 8⟩, ⟨.second, .r32, ![4, 0, 1, 2, 3], 8, 13⟩,
    ⟨.first, .r31, ![3, 4, 0, 1, 2], 0, 13⟩, ⟨.second, .r32, ![3, 4, 0, 1, 2], 12, 5⟩,
    ⟨.first, .r31, ![2, 3, 4, 0, 1], 6, 6⟩, ⟨.second, .r32, ![2, 3, 4, 0, 1], 2, 14⟩,
    ⟨.first, .r31, ![1, 2, 3, 4, 0], 13, 5⟩, ⟨.second, .r32, ![1, 2, 3, 4, 0], 10, 13⟩,
    ⟨.first, .r31, ![0, 1, 2, 3, 4], 11, 12⟩, ⟨.second, .r32, ![0, 1, 2, 3, 4], 0, 13⟩,
    ⟨.first, .r31, ![4, 0, 1, 2, 3], 5, 7⟩, ⟨.second, .r32, ![4, 0, 1, 2, 3], 4, 7⟩,
    ⟨.first, .r31, ![3, 4, 0, 1, 2], 12, 5⟩, ⟨.second, .r32, ![3, 4, 0, 1, 2], 13, 5⟩,
    ⟨.first, .r41, ![2, 3, 4, 0, 1], 1, 11⟩, ⟨.second, .r42, ![2, 3, 4, 0, 1], 8, 15⟩,
    ⟨.first, .r41, ![1, 2, 3, 4, 0], 9, 12⟩, ⟨.second, .r42, ![1, 2, 3, 4, 0], 6, 5⟩,
    ⟨.first, .r41, ![0, 1, 2, 3, 4], 11, 14⟩, ⟨.second, .r42, ![0, 1, 2, 3, 4], 4, 8⟩,
    ⟨.first, .r41, ![4, 0, 1, 2, 3], 10, 15⟩, ⟨.second, .r42, ![4, 0, 1, 2, 3], 1, 11⟩,
    ⟨.first, .r41, ![3, 4, 0, 1, 2], 0, 14⟩, ⟨.second, .r42, ![3, 4, 0, 1, 2], 3, 14⟩,
    ⟨.first, .r41, ![2, 3, 4, 0, 1], 8, 15⟩, ⟨.second, .r42, ![2, 3, 4, 0, 1], 11, 14⟩,
    ⟨.first, .r41, ![1, 2, 3, 4, 0], 12, 9⟩, ⟨.second, .r42, ![1, 2, 3, 4, 0], 15, 6⟩,
    ⟨.first, .r41, ![0, 1, 2, 3, 4], 4, 8⟩, ⟨.second, .r42, ![0, 1, 2, 3, 4], 0, 14⟩,
    ⟨.first, .r41, ![4, 0, 1, 2, 3], 13, 9⟩, ⟨.second, .r42, ![4, 0, 1, 2, 3], 5, 6⟩,
    ⟨.first, .r41, ![3, 4, 0, 1, 2], 3, 14⟩, ⟨.second, .r42, ![3, 4, 0, 1, 2], 12, 9⟩,
    ⟨.first, .r41, ![2, 3, 4, 0, 1], 7, 5⟩, ⟨.second, .r42, ![2, 3, 4, 0, 1], 2, 12⟩,
    ⟨.first, .r41, ![1, 2, 3, 4, 0], 15, 6⟩, ⟨.second, .r42, ![1, 2, 3, 4, 0], 13, 9⟩,
    ⟨.first, .r41, ![0, 1, 2, 3, 4], 14, 8⟩, ⟨.second, .r42, ![0, 1, 2, 3, 4], 9, 12⟩,
    ⟨.first, .r41, ![4, 0, 1, 2, 3], 5, 6⟩, ⟨.second, .r42, ![4, 0, 1, 2, 3], 7, 5⟩,
    ⟨.first, .r41, ![3, 4, 0, 1, 2], 6, 5⟩, ⟨.second, .r42, ![3, 4, 0, 1, 2], 10, 15⟩,
    ⟨.first, .r41, ![2, 3, 4, 0, 1], 2, 12⟩, ⟨.second, .r42, ![2, 3, 4, 0, 1], 14, 8⟩,
    ⟨.first, .r51, ![1, 2, 3, 4, 0], 4, 9⟩, ⟨.second, .r52, ![1, 2, 3, 4, 0], 12, 8⟩,
    ⟨.first, .r51, ![0, 1, 2, 3, 4], 0, 15⟩, ⟨.second, .r52, ![0, 1, 2, 3, 4], 15, 5⟩,
    ⟨.first, .r51, ![4, 0, 1, 2, 3], 5, 5⟩, ⟨.second, .r52, ![4, 0, 1, 2, 3], 10, 12⟩,
    ⟨.first, .r51, ![3, 4, 0, 1, 2], 9, 11⟩, ⟨.second, .r52, ![3, 4, 0, 1, 2], 4, 9⟩,
    ⟨.first, .r51, ![2, 3, 4, 0, 1], 7, 6⟩, ⟨.second, .r52, ![2, 3, 4, 0, 1], 1, 12⟩,
    ⟨.first, .r51, ![1, 2, 3, 4, 0], 12, 8⟩, ⟨.second, .r52, ![1, 2, 3, 4, 0], 5, 5⟩,
    ⟨.first, .r51, ![0, 1, 2, 3, 4], 2, 13⟩, ⟨.second, .r52, ![0, 1, 2, 3, 4], 8, 14⟩,
    ⟨.first, .r51, ![4, 0, 1, 2, 3], 10, 12⟩, ⟨.second, .r52, ![4, 0, 1, 2, 3], 7, 6⟩,
    ⟨.first, .r51, ![3, 4, 0, 1, 2], 14, 5⟩, ⟨.second, .r52, ![3, 4, 0, 1, 2], 6, 8⟩,
    ⟨.first, .r51, ![2, 3, 4, 0, 1], 1, 12⟩, ⟨.second, .r52, ![2, 3, 4, 0, 1], 2, 13⟩,
    ⟨.first, .r51, ![1, 2, 3, 4, 0], 3, 13⟩, ⟨.second, .r52, ![1, 2, 3, 4, 0], 13, 6⟩,
    ⟨.first, .r51, ![0, 1, 2, 3, 4], 8, 14⟩, ⟨.second, .r52, ![0, 1, 2, 3, 4], 14, 5⟩,
    ⟨.first, .r51, ![4, 0, 1, 2, 3], 11, 11⟩, ⟨.second, .r52, ![4, 0, 1, 2, 3], 0, 15⟩,
    ⟨.first, .r51, ![3, 4, 0, 1, 2], 6, 8⟩, ⟨.second, .r52, ![3, 4, 0, 1, 2], 3, 13⟩,
    ⟨.first, .r51, ![2, 3, 4, 0, 1], 15, 5⟩, ⟨.second, .r52, ![2, 3, 4, 0, 1], 9, 11⟩,
    ⟨.first, .r51, ![1, 2, 3, 4, 0], 13, 6⟩, ⟨.second, .r52, ![1, 2, 3, 4, 0], 11, 11⟩]

/-- `Transform`. -/
def transform (s : Fin 5 → BitVec 32) (chunk : List UInt8) : Fin 5 → BitVec 32 :=
  let w := fun i : Fin 16 ↦ readLE32 chunk (4 * i)
  let vars := lines.foldl (step w) (s, s)
  ![s 1 + vars.1 2 + vars.2 3, s 2 + vars.1 3 + vars.2 4, s 3 + vars.1 4 + vars.2 0,
    s 4 + vars.1 0 + vars.2 1, s 0 + vars.1 1 + vars.2 2]

/-- `CRIPEMD160`. -/
def cripemd160 : HasherClass (Fin 5 → BitVec 32) where
  chunk := 64
  initial := initial
  transform := transform
  limit := 119
  sizedesc bits := writeLE bits.toBitVec
  output s := (List.ofFn s).flatMap writeLE

/-! ### The standard -/

/-- The lines of one kind. -/
def linesOf (digit : Digit) : List Line := lines.filter fun line ↦ line.digit = digit

def Digit.side : Digit → Lib.Ripemd160.Side
  | .first => .left
  | .second => .right

/-- The lines of both kinds do not meet. By induction on the lines. -/
theorem foldl_step (w : Fin 16 → BitVec 32) (lines : List Line)
    (vars : (Fin 5 → BitVec 32) × (Fin 5 → BitVec 32)) :
    lines.foldl (step w) vars =
      ((lines.filter fun line ↦ line.digit = .first).foldl (fun words line ↦ line.run w words)
          vars.1,
        (lines.filter fun line ↦ line.digit = .second).foldl (fun words line ↦ line.run w words)
          vars.2) := by
  induction lines generalizing vars with
  | nil => rfl
  | cons line lines ih =>
    rw [List.foldl_cons, ih, step]
    cases hdigit : line.digit <;> simp [hdigit]

/-- The function that is called in a round. -/
def callee (digit : Digit) (round : Fin 5) : Callee :=
  match digit with
  | .first => ![.r11, .r21, .r31, .r41, .r51] round
  | .second => ![.r12, .r22, .r32, .r42, .r52] round

theorem f_callee (digit : Digit) (round : Fin 5) :
    (callee digit round).f = Lib.Ripemd160.functionOf digit.side round := by
  cases digit <;> fin_cases round <;> rfl

theorem root_eq {degree index prime bits : ℕ} (hdegree : degree ≠ 0)
    (hprime : smallPrimes[index]? = some prime) (hle : bits ^ degree ≤ prime * 2 ^ (30 * degree))
    (hlt : prime * 2 ^ (30 * degree) < (bits + 1) ^ degree) :
    BitVec.ofNat 32 bits = BitVec.ofNat 32 (rootBits 30 degree (Nat.nth Nat.Prime index)) := by
  rw [nth_prime_eq hprime, rootBits_eq hdegree hle hlt]

/-- The constants are bits of the roots of the first primes. -/
theorem k_callee (digit : Digit) (round : Fin 5) :
    (callee digit round).k = Lib.Ripemd160.constant digit.side round := by
  have hsquare (index prime bits : ℕ) (hprime : smallPrimes[index]? = some prime)
      (hle : bits ^ 2 ≤ prime * 2 ^ 60) (hlt : prime * 2 ^ 60 < (bits + 1) ^ 2) :=
    root_eq two_ne_zero hprime hle hlt
  have hcube (index prime bits : ℕ) (hprime : smallPrimes[index]? = some prime)
      (hle : bits ^ 3 ≤ prime * 2 ^ 90) (hlt : prime * 2 ^ 90 < (bits + 1) ^ 3) :=
    root_eq three_ne_zero hprime hle hlt
  cases digit <;> fin_cases round
  · rfl
  · exact hsquare 0 2 0x5A827999 rfl (by decide) (by decide)
  · exact hsquare 1 3 0x6ED9EBA1 rfl (by decide) (by decide)
  · exact hsquare 2 5 0x8F1BBCDC rfl (by decide) (by decide)
  · exact hsquare 3 7 0xA953FD4E rfl (by decide) (by decide)
  · exact hcube 0 2 0x50A28BE6 rfl (by decide) (by decide)
  · exact hcube 1 3 0x5C4DD124 rfl (by decide) (by decide)
  · exact hcube 2 5 0x6D703EF3 rfl (by decide) (by decide)
  · exact hcube 3 7 0x7A6D76E9 rfl (by decide) (by decide)
  · rfl

/-- The lines of one kind are the steps of a line of the standard: their names, their functions, the
words and the rotations. -/
structure Regular (digit : Digit) (t : ℕ) (line : Line) : Prop where
  names : ∀ i, line.names i = i - Fin.ofNat 5 t
  callee : line.callee = callee digit (Fin.ofNat 5 (t / 16))
  w : line.w = Lib.Ripemd160.select digit.side t
  r : line.r = Lib.Ripemd160.shift (Fin.ofNat 5 (t / 16)) line.w
  r_lt : line.r < 32

theorem regular (digit : Digit) (t : ℕ) (ht : t < (linesOf digit).length) :
    Regular digit t (linesOf digit)[t] := by
  have hall : ∀ digit ∈ [Digit.first, Digit.second], ∀ t (ht : t < (linesOf digit).length),
      (∀ i, (linesOf digit)[t].names i = i - Fin.ofNat 5 t) ∧
        (linesOf digit)[t].callee = callee digit (Fin.ofNat 5 (t / 16)) ∧
        (linesOf digit)[t].w = Lib.Ripemd160.select digit.side t ∧
        (linesOf digit)[t].r =
          Lib.Ripemd160.shift (Fin.ofNat 5 (t / 16)) (linesOf digit)[t].w ∧
        (linesOf digit)[t].r < 32 := by
    decide +kernel
  have hmem : digit ∈ [Digit.first, Digit.second] := by cases digit <;> simp
  obtain ⟨hnames, hcallee, hw, hr, hlt⟩ := hall digit hmem t ht
  exact ⟨hnames, hcallee, hw, hr, hlt⟩

theorem length_linesOf (digit : Digit) : (linesOf digit).length = 80 := by
  cases digit <;> rfl

theorem rol_eq (x : BitVec 32) {i : ℕ} (hi : i < 32) : rol x i = x.rotateLeft i := by
  rw [BitVec.rotateLeft_eq_rotateLeftAux_of_lt hi]
  rfl

variable {t : ℕ} {digit : Digit}

/-- One line is one step. -/
theorem Regular.run {line : Line} (h : Regular digit t line) (chunk : List UInt8)
    (registers : Fin 5 → BitVec 32) :
    renamed (t + 1) (line.run (fun i ↦ readLE32 chunk (4 * i)) registers) =
      Lib.Ripemd160.step digit.side chunk (renamed t registers) t := by
  have hnames : line.names = fun i ↦ i - Fin.ofNat 5 t := funext h.names
  have hword (i : Fin 5) : registers (i - Fin.ofNat 5 t) = renamed t registers i := rfl
  rw [renamed_succ, Line.run, round, hnames]
  simp only [renamed_update, hword]
  rw [rol_eq _ h.r_lt, rol_eq _ (by decide : 10 < 32), h.r, h.w, h.callee, f_callee, k_callee]
  funext i
  rw [rotate, Lib.Ripemd160.step]
  fin_cases i <;> rfl

/-- All lines of one kind are all steps. By induction on their number. -/
theorem foldl_run (chunk : List UInt8) (registers : Fin 5 → BitVec 32)
    (ht : t ≤ (linesOf digit).length) :
    renamed t (((linesOf digit).take t).foldl
        (fun words line ↦ line.run (fun i ↦ readLE32 chunk (4 * i)) words) registers) =
      (List.range t).foldl (Lib.Ripemd160.step digit.side chunk) registers := by
  induction t with
  | zero => exact renamed_zero registers
  | succ t ih =>
    rw [List.take_succ_eq_append_getElem ht, List.foldl_append, List.range_succ, List.foldl_append,
      ← ih (by omega)]
    exact (regular digit t ht).run chunk _

theorem foldl_linesOf (digit : Digit) (chunk : List UInt8) (registers : Fin 5 → BitVec 32) :
    (linesOf digit).foldl (fun words line ↦ line.run (fun i ↦ readLE32 chunk (4 * i)) words)
        registers = Lib.Ripemd160.line digit.side chunk registers := by
  have hall := foldl_run chunk registers (length_linesOf digit).ge
  rw [renamed_of_dvd (by decide), List.take_of_length_le (length_linesOf digit).le] at hall
  exact hall

/-- `Transform` is the compression function of the standard. -/
theorem transform_eq (s : Fin 5 → BitVec 32) (chunk : List UInt8) :
    transform s chunk = Lib.Ripemd160.compress s chunk := by
  have hfirst := foldl_linesOf .first chunk s
  have hsecond := foldl_linesOf .second chunk s
  rw [linesOf] at hfirst hsecond
  rw [transform, foldl_step, hfirst, hsecond]
  funext i
  fin_cases i <;> rfl

theorem follows : cripemd160.Follows Lib.Ripemd160.standard where
  chunk_pos := by decide
  size := rfl
  chunk_le := by decide
  initial := rfl
  transform s block _ := transform_eq s block
  mark := rfl
  zero := rfl
  lengthBytes := by decide
  limit := rfl
  length_sizedesc _ := rfl
  length_encode _ := rfl
  sizedesc bytes hbytes := by
    rw [← HasherClass.toNat_shiftLeft_three hbytes]
    rfl
  output := rfl

/-- After any calls `Finalize` gives the hash of what was written since the last `Reset`. -/
theorem finalize_eq_ripemd160 (buf : List UInt8) (hbuf : buf.length = 64) (history : List Call)
    (hfits : ∀ call ∈ history, Fits call) (text : List UInt8)
    (hwritten : written history = some text) (hlength : 8 * text.length < 2 ^ 64) :
    (cripemd160.finalize (cripemd160.calls buf history)).1 = Lib.Ripemd160.standard.hash text :=
  follows.finalize_calls hbuf hfits hwritten hlength

theorem finalize_eq_ripemd160_abc :
    (cripemd160.finalize
        (cripemd160.calls (List.replicate 64 0) [.write [97], .write [98, 99]])).1 =
      Lib.Ripemd160.standard.hash [97, 98, 99] :=
  finalize_eq_ripemd160 _ rfl _ (by simp [Fits]) _ rfl (by decide)

end Exc.Hash.Ripemd160
