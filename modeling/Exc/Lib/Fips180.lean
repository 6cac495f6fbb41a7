import Exc.Lib.BlockHash
import Exc.Lib.ByteOrder
import Exc.Lib.Literals
import Exc.Lib.PrimeRoots
import Exc.Lib.RotatingRegisters

/-!
# The secure hash standard

SHA-1, SHA-256 and SHA-512 as FIPS 180-4 defines them. A block gives sixteen words, the schedule
continues them, and every word of the schedule enters one round, in which all eight (or five) words
of the state move on by one place.

The constants of SHA-2 are the bits of the roots of the first primes, so that a table of them can be
wrong.
-/

set_option autoImplicit false
set_option relaxedAutoImplicit false

namespace Exc.Lib.Fips180

open BlockHash

attribute [local instance] neZero_five neZero_eight

variable {w : ℕ}

/-! ### Functions and words -/

def ch (x y z : BitVec w) : BitVec w := (x &&& y) ^^^ (~~~x &&& z)

def parity (x y z : BitVec w) : BitVec w := x ^^^ y ^^^ z

def maj (x y z : BitVec w) : BitVec w := (x &&& y) ^^^ (x &&& z) ^^^ (y &&& z)

/-- A word of a block. -/
def wordAt (w : ℕ) (block : List UInt8) (index : ℕ) : BitVec w :=
  BitVec.ofNat w (ByteOrder.load .big ((block.drop (w / 8 * index)).take (w / 8)))

/-- The bytes of a number, the most significant one first. -/
def bigEndian (count value : ℕ) : List UInt8 :=
  (List.range count).reverse.map fun index ↦ ByteOrder.byte index value

theorem length_bigEndian (count value : ℕ) : (bigEndian count value).length = count := by
  rw [bigEndian, List.length_map, List.length_reverse, List.length_range]

/-- A number that needs fewer bytes has zeros in front. -/
theorem bigEndian_of_lt (more count : ℕ) {value : ℕ} (hvalue : value < 256 ^ count) :
    bigEndian (more + count) value = List.replicate more 0 ++ bigEndian count value := by
  induction more with
  | zero => rw [Nat.zero_add, List.replicate_zero, List.nil_append]
  | succ more ih =>
    have hbyte : ByteOrder.byte (more + count) value = 0 := by
      have hlarge : value < 256 ^ (more + count) :=
        hvalue.trans_le (Nat.pow_le_pow_right (by decide) (Nat.le_add_left count more))
      rw [ByteOrder.byte, Nat.div_eq_of_lt hlarge]
      rfl
    have hnext : bigEndian (more + 1 + count) value =
        ByteOrder.byte (more + count) value :: bigEndian (more + count) value := by
      rw [Nat.add_right_comm, bigEndian, List.range_succ, List.reverse_append,
        List.reverse_singleton, List.singleton_append, List.map_cons]
      rfl
    rw [hnext, ih, hbyte, List.replicate_succ, List.cons_append]

/-- The words of the state in a row. -/
def output {n : ℕ} (words : Fin n → BitVec w) : List UInt8 :=
  (List.ofFn words).flatMap fun word ↦ bigEndian (w / 8) word.toNat

theorem length_output {n : ℕ} (words : Fin n → BitVec w) :
    (output words).length = n * (w / 8) := by
  rw [output, List.length_flatMap, List.map_eq_replicate_iff.mpr (fun _ _ ↦ length_bigEndian _ _),
    List.sum_replicate, List.length_ofFn, smul_eq_mul]

/-! ### SHA-2 -/

/-- What SHA-256 and SHA-512 differ in besides the length of a word. -/
structure Sha2 (w : ℕ) where
  rounds : ℕ
  bigSigma0 : BitVec w → BitVec w
  bigSigma1 : BitVec w → BitVec w
  smallSigma0 : BitVec w → BitVec w
  smallSigma1 : BitVec w → BitVec w

def sha256 : Sha2 32 where
  rounds := 64
  bigSigma0 x := x.rotateRight 2 ^^^ x.rotateRight 13 ^^^ x.rotateRight 22
  bigSigma1 x := x.rotateRight 6 ^^^ x.rotateRight 11 ^^^ x.rotateRight 25
  smallSigma0 x := x.rotateRight 7 ^^^ x.rotateRight 18 ^^^ x >>> 3
  smallSigma1 x := x.rotateRight 17 ^^^ x.rotateRight 19 ^^^ x >>> 10

def sha512 : Sha2 64 where
  rounds := 80
  bigSigma0 x := x.rotateRight 28 ^^^ x.rotateRight 34 ^^^ x.rotateRight 39
  bigSigma1 x := x.rotateRight 14 ^^^ x.rotateRight 18 ^^^ x.rotateRight 41
  smallSigma0 x := x.rotateRight 1 ^^^ x.rotateRight 8 ^^^ x >>> 7
  smallSigma1 x := x.rotateRight 19 ^^^ x.rotateRight 61 ^^^ x >>> 6

/-- The constant of a round: the first bits of the fractional part of a cube root of a prime. -/
noncomputable def constant (w round : ℕ) : BitVec w :=
  BitVec.ofNat w (fractionBits w 3 (Nat.nth Nat.Prime round))

/-- The first state: the first bits of the fractional parts of the square roots of primes. -/
noncomputable def initial (w : ℕ) : Fin 8 → BitVec w :=
  fun i ↦ BitVec.ofNat w (fractionBits w 2 (Nat.nth Nat.Prime i))

namespace Sha2

/-- The message schedule. -/
def schedule (sha : Sha2 w) (block : List UInt8) (round : ℕ) : BitVec w :=
  if round < 16 then wordAt w block round
  else
    sha.smallSigma1 (sha.schedule block (round - 2)) + sha.schedule block (round - 7) +
      sha.smallSigma0 (sha.schedule block (round - 15)) + sha.schedule block (round - 16)
termination_by round
decreasing_by all_goals omega

/-- One round. -/
noncomputable def round (sha : Sha2 w) (block : List UInt8) (words : Fin 8 → BitVec w) (t : ℕ) :
    Fin 8 → BitVec w :=
  let t1 := words 7 + sha.bigSigma1 (words 4) + ch (words 4) (words 5) (words 6) + constant w t +
    sha.schedule block t
  let t2 := sha.bigSigma0 (words 0) + maj (words 0) (words 1) (words 2)
  ![t1 + t2, words 0, words 1, words 2, words 3 + t1, words 4, words 5, words 6]

noncomputable def compress (sha : Sha2 w) (state : Fin 8 → BitVec w) (block : List UInt8) :
    Fin 8 → BitVec w :=
  fun i ↦ state i + (List.range sha.rounds).foldl (sha.round block) state i

/-- The hash function. -/
noncomputable def standard (sha : Sha2 w) : Standard (Fin 8 → BitVec w) UInt8 where
  size := 2 * w
  init := initial w
  compress := sha.compress
  mark := 0x80
  zero := 0
  lengthBytes := w / 4
  encodeLength := bigEndian (w / 4)
  output := output

end Sha2

/-! ### SHA-1 -/

namespace Sha1

/-- The function of a round. -/
def function (t : ℕ) : BitVec 32 → BitVec 32 → BitVec 32 → BitVec 32 :=
  if t < 20 then ch else if t < 40 then parity else if t < 60 then maj else parity

/-- The constant of a round. -/
def constant (t : ℕ) : BitVec 32 :=
  if t < 20 then 0x5a827999 else if t < 40 then 0x6ed9eba1 else if t < 60 then 0x8f1bbcdc
  else 0xca62c1d6

def initial : Fin 5 → BitVec 32 :=
  ![0x67452301, 0xefcdab89, 0x98badcfe, 0x10325476, 0xc3d2e1f0]

/-- The message schedule. -/
def schedule (block : List UInt8) (t : ℕ) : BitVec 32 :=
  if t < 16 then wordAt 32 block t
  else
    (schedule block (t - 3) ^^^ schedule block (t - 8) ^^^ schedule block (t - 14) ^^^
      schedule block (t - 16)).rotateLeft 1
termination_by t
decreasing_by all_goals omega

/-- One round. -/
def round (block : List UInt8) (words : Fin 5 → BitVec 32) (t : ℕ) : Fin 5 → BitVec 32 :=
  ![(words 0).rotateLeft 5 + function t (words 1) (words 2) (words 3) + words 4 + constant t +
      schedule block t,
    words 0, (words 1).rotateLeft 30, words 2, words 3]

def compress (state : Fin 5 → BitVec 32) (block : List UInt8) : Fin 5 → BitVec 32 :=
  fun i ↦ state i + (List.range 80).foldl (round block) state i

/-- The hash function. -/
def standard : Standard (Fin 5 → BitVec 32) UInt8 where
  size := 64
  init := initial
  compress := compress
  mark := 0x80
  zero := 0
  lengthBytes := 8
  encodeLength := bigEndian 8
  output := output

end Sha1

end Exc.Lib.Fips180
