import Exc.Hash.Sha2

/-!
# SHA-256

The class `CSHA256`. Its lines are regular (`regular`), so the class follows the standard
(`follows`): whatever the pieces are in which a text is written, `Finalize` gives the hash of the
text (`finalize_eq_sha256`).
-/

set_option autoImplicit false
set_option relaxedAutoImplicit false

namespace Exc.Hash.Sha256

open Lib Sha2 HasherClass

attribute [local instance] neZero_eight neZero_sixteen

/-! ### The code -/

def bigSigma0 (x : BitVec 32) : BitVec 32 :=
  (x >>> 2 ||| x <<< 30) ^^^ (x >>> 13 ||| x <<< 19) ^^^ (x >>> 22 ||| x <<< 10)

def bigSigma1 (x : BitVec 32) : BitVec 32 :=
  (x >>> 6 ||| x <<< 26) ^^^ (x >>> 11 ||| x <<< 21) ^^^ (x >>> 25 ||| x <<< 7)

def smallSigma0 (x : BitVec 32) : BitVec 32 :=
  (x >>> 7 ||| x <<< 25) ^^^ (x >>> 18 ||| x <<< 14) ^^^ (x >>> 3)

def smallSigma1 (x : BitVec 32) : BitVec 32 :=
  (x >>> 17 ||| x <<< 15) ^^^ (x >>> 19 ||| x <<< 13) ^^^ (x >>> 10)

/-- `Initialize`. -/
def initial : Fin 8 → BitVec 32 :=
  ![0x6a09e667, 0xbb67ae85, 0x3c6ef372, 0xa54ff53a, 0x510e527f, 0x9b05688c, 0x1f83d9ab, 0x5be0cd19]

/-- The lines of `Transform`. -/
def lines : List (Line 32) :=
  [⟨![0, 1, 2, 3, 4, 5, 6, 7], 0x428a2f98, .read 0 0⟩,
    ⟨![7, 0, 1, 2, 3, 4, 5, 6], 0x71374491, .read 1 4⟩,
    ⟨![6, 7, 0, 1, 2, 3, 4, 5], 0xb5c0fbcf, .read 2 8⟩,
    ⟨![5, 6, 7, 0, 1, 2, 3, 4], 0xe9b5dba5, .read 3 12⟩,
    ⟨![4, 5, 6, 7, 0, 1, 2, 3], 0x3956c25b, .read 4 16⟩,
    ⟨![3, 4, 5, 6, 7, 0, 1, 2], 0x59f111f1, .read 5 20⟩,
    ⟨![2, 3, 4, 5, 6, 7, 0, 1], 0x923f82a4, .read 6 24⟩,
    ⟨![1, 2, 3, 4, 5, 6, 7, 0], 0xab1c5ed5, .read 7 28⟩,
    ⟨![0, 1, 2, 3, 4, 5, 6, 7], 0xd807aa98, .read 8 32⟩,
    ⟨![7, 0, 1, 2, 3, 4, 5, 6], 0x12835b01, .read 9 36⟩,
    ⟨![6, 7, 0, 1, 2, 3, 4, 5], 0x243185be, .read 10 40⟩,
    ⟨![5, 6, 7, 0, 1, 2, 3, 4], 0x550c7dc3, .read 11 44⟩,
    ⟨![4, 5, 6, 7, 0, 1, 2, 3], 0x72be5d74, .read 12 48⟩,
    ⟨![3, 4, 5, 6, 7, 0, 1, 2], 0x80deb1fe, .read 13 52⟩,
    ⟨![2, 3, 4, 5, 6, 7, 0, 1], 0x9bdc06a7, .read 14 56⟩,
    ⟨![1, 2, 3, 4, 5, 6, 7, 0], 0xc19bf174, .read 15 60⟩,
    ⟨![0, 1, 2, 3, 4, 5, 6, 7], 0xe49b69c1, .add 0 14 9 1⟩,
    ⟨![7, 0, 1, 2, 3, 4, 5, 6], 0xefbe4786, .add 1 15 10 2⟩,
    ⟨![6, 7, 0, 1, 2, 3, 4, 5], 0x0fc19dc6, .add 2 0 11 3⟩,
    ⟨![5, 6, 7, 0, 1, 2, 3, 4], 0x240ca1cc, .add 3 1 12 4⟩,
    ⟨![4, 5, 6, 7, 0, 1, 2, 3], 0x2de92c6f, .add 4 2 13 5⟩,
    ⟨![3, 4, 5, 6, 7, 0, 1, 2], 0x4a7484aa, .add 5 3 14 6⟩,
    ⟨![2, 3, 4, 5, 6, 7, 0, 1], 0x5cb0a9dc, .add 6 4 15 7⟩,
    ⟨![1, 2, 3, 4, 5, 6, 7, 0], 0x76f988da, .add 7 5 0 8⟩,
    ⟨![0, 1, 2, 3, 4, 5, 6, 7], 0x983e5152, .add 8 6 1 9⟩,
    ⟨![7, 0, 1, 2, 3, 4, 5, 6], 0xa831c66d, .add 9 7 2 10⟩,
    ⟨![6, 7, 0, 1, 2, 3, 4, 5], 0xb00327c8, .add 10 8 3 11⟩,
    ⟨![5, 6, 7, 0, 1, 2, 3, 4], 0xbf597fc7, .add 11 9 4 12⟩,
    ⟨![4, 5, 6, 7, 0, 1, 2, 3], 0xc6e00bf3, .add 12 10 5 13⟩,
    ⟨![3, 4, 5, 6, 7, 0, 1, 2], 0xd5a79147, .add 13 11 6 14⟩,
    ⟨![2, 3, 4, 5, 6, 7, 0, 1], 0x06ca6351, .add 14 12 7 15⟩,
    ⟨![1, 2, 3, 4, 5, 6, 7, 0], 0x14292967, .add 15 13 8 0⟩,
    ⟨![0, 1, 2, 3, 4, 5, 6, 7], 0x27b70a85, .add 0 14 9 1⟩,
    ⟨![7, 0, 1, 2, 3, 4, 5, 6], 0x2e1b2138, .add 1 15 10 2⟩,
    ⟨![6, 7, 0, 1, 2, 3, 4, 5], 0x4d2c6dfc, .add 2 0 11 3⟩,
    ⟨![5, 6, 7, 0, 1, 2, 3, 4], 0x53380d13, .add 3 1 12 4⟩,
    ⟨![4, 5, 6, 7, 0, 1, 2, 3], 0x650a7354, .add 4 2 13 5⟩,
    ⟨![3, 4, 5, 6, 7, 0, 1, 2], 0x766a0abb, .add 5 3 14 6⟩,
    ⟨![2, 3, 4, 5, 6, 7, 0, 1], 0x81c2c92e, .add 6 4 15 7⟩,
    ⟨![1, 2, 3, 4, 5, 6, 7, 0], 0x92722c85, .add 7 5 0 8⟩,
    ⟨![0, 1, 2, 3, 4, 5, 6, 7], 0xa2bfe8a1, .add 8 6 1 9⟩,
    ⟨![7, 0, 1, 2, 3, 4, 5, 6], 0xa81a664b, .add 9 7 2 10⟩,
    ⟨![6, 7, 0, 1, 2, 3, 4, 5], 0xc24b8b70, .add 10 8 3 11⟩,
    ⟨![5, 6, 7, 0, 1, 2, 3, 4], 0xc76c51a3, .add 11 9 4 12⟩,
    ⟨![4, 5, 6, 7, 0, 1, 2, 3], 0xd192e819, .add 12 10 5 13⟩,
    ⟨![3, 4, 5, 6, 7, 0, 1, 2], 0xd6990624, .add 13 11 6 14⟩,
    ⟨![2, 3, 4, 5, 6, 7, 0, 1], 0xf40e3585, .add 14 12 7 15⟩,
    ⟨![1, 2, 3, 4, 5, 6, 7, 0], 0x106aa070, .add 15 13 8 0⟩,
    ⟨![0, 1, 2, 3, 4, 5, 6, 7], 0x19a4c116, .add 0 14 9 1⟩,
    ⟨![7, 0, 1, 2, 3, 4, 5, 6], 0x1e376c08, .add 1 15 10 2⟩,
    ⟨![6, 7, 0, 1, 2, 3, 4, 5], 0x2748774c, .add 2 0 11 3⟩,
    ⟨![5, 6, 7, 0, 1, 2, 3, 4], 0x34b0bcb5, .add 3 1 12 4⟩,
    ⟨![4, 5, 6, 7, 0, 1, 2, 3], 0x391c0cb3, .add 4 2 13 5⟩,
    ⟨![3, 4, 5, 6, 7, 0, 1, 2], 0x4ed8aa4a, .add 5 3 14 6⟩,
    ⟨![2, 3, 4, 5, 6, 7, 0, 1], 0x5b9cca4f, .add 6 4 15 7⟩,
    ⟨![1, 2, 3, 4, 5, 6, 7, 0], 0x682e6ff3, .add 7 5 0 8⟩,
    ⟨![0, 1, 2, 3, 4, 5, 6, 7], 0x748f82ee, .add 8 6 1 9⟩,
    ⟨![7, 0, 1, 2, 3, 4, 5, 6], 0x78a5636f, .add 9 7 2 10⟩,
    ⟨![6, 7, 0, 1, 2, 3, 4, 5], 0x84c87814, .add 10 8 3 11⟩,
    ⟨![5, 6, 7, 0, 1, 2, 3, 4], 0x8cc70208, .add 11 9 4 12⟩,
    ⟨![4, 5, 6, 7, 0, 1, 2, 3], 0x90befffa, .add 12 10 5 13⟩,
    ⟨![3, 4, 5, 6, 7, 0, 1, 2], 0xa4506ceb, .add 13 11 6 14⟩,
    ⟨![2, 3, 4, 5, 6, 7, 0, 1], 0xbef9a3f7, .sum 14 12 7 15⟩,
    ⟨![1, 2, 3, 4, 5, 6, 7, 0], 0xc67178f2, .sum 15 13 8 0⟩]

def code : Code 32 where
  bigSigma0 := bigSigma0
  bigSigma1 := bigSigma1
  smallSigma0 := smallSigma0
  smallSigma1 := smallSigma1
  lines := lines

/-- `CSHA256`. -/
def csha256 : HasherClass (Fin 8 → BitVec 32) where
  chunk := 64
  initial := initial
  transform := code.transform
  limit := 119
  sizedesc bits := writeBE bits.toBitVec
  output s := (List.ofFn s).flatMap writeBE

/-! ### The standard -/

/-- The lines have the names of the registers in their rounds, and the words in their order. -/
theorem lines_eq (t : ℕ) (ht : t < lines.length) :
    (∀ i, lines[t].names i = i - Fin.ofNat 8 t) ∧ lines[t].input = input 32 64 t := by
  revert t
  decide +kernel

/-- The numbers in the code are the first bits of roots. -/
theorem tables_eq : isRootTable 32 3 (lines.map fun line ↦ line.k.toNat) = true ∧
    isRootTable 32 2 ((List.ofFn initial).map BitVec.toNat) = true := by
  decide +kernel

theorem regular : code.Regular Fips180.sha256 where
  bigSigma0 _ := rfl
  bigSigma1 _ := rfl
  smallSigma0 _ := rfl
  smallSigma1 _ := rfl
  length := rfl
  dvd := by decide
  names t ht := (lines_eq t ht).1
  constants := constants_of_table tables_eq.1
  inputs t ht := (lines_eq t ht).2

theorem follows : csha256.Follows Fips180.sha256.standard where
  chunk_pos := by decide
  size := rfl
  chunk_le := by decide
  initial := initial_of_table tables_eq.2
  transform s block _ := regular.transform s block
  mark := rfl
  zero := rfl
  lengthBytes := by decide
  limit := rfl
  length_sizedesc _ := rfl
  length_encode _ := rfl
  sizedesc bytes hbytes := by
    rw [← HasherClass.toNat_shiftLeft_three hbytes]
    rfl
  output := rfl

/-- After any calls `Finalize` gives the hash of what was written since the last `Reset`. -/
theorem finalize_eq_sha256 (buf : List UInt8) (hbuf : buf.length = 64) (history : List Call)
    (hfits : ∀ call ∈ history, Fits call) (text : List UInt8)
    (hwritten : written history = some text) (hlength : 8 * text.length < 2 ^ 64) :
    (csha256.finalize (csha256.calls buf history)).1 = Fips180.sha256.standard.hash text :=
  follows.finalize_calls hbuf hfits hwritten hlength

theorem finalize_eq_sha256_abc :
    (csha256.finalize (csha256.calls (List.replicate 64 0) [.write [97], .write [98, 99]])).1 =
      Fips180.sha256.standard.hash [97, 98, 99] :=
  finalize_eq_sha256 _ rfl _ (by simp [Fits]) _ rfl (by decide)

end Exc.Hash.Sha256
