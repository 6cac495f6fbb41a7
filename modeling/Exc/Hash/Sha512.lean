import Exc.Hash.Sha2

/-!
# SHA-512

The class `CSHA512`. Its lines are regular (`regular`), so the class follows the standard
(`follows`): whatever the pieces are in which a text is written, `Finalize` gives the hash of the
text (`finalize_eq_sha512`).
-/

set_option autoImplicit false
set_option relaxedAutoImplicit false

namespace Exc.Hash.Sha512

open Lib Sha2 HasherClass

attribute [local instance] neZero_eight neZero_sixteen

/-! ### The code -/

def bigSigma0 (x : BitVec 64) : BitVec 64 :=
  (x >>> 28 ||| x <<< 36) ^^^ (x >>> 34 ||| x <<< 30) ^^^ (x >>> 39 ||| x <<< 25)

def bigSigma1 (x : BitVec 64) : BitVec 64 :=
  (x >>> 14 ||| x <<< 50) ^^^ (x >>> 18 ||| x <<< 46) ^^^ (x >>> 41 ||| x <<< 23)

def smallSigma0 (x : BitVec 64) : BitVec 64 :=
  (x >>> 1 ||| x <<< 63) ^^^ (x >>> 8 ||| x <<< 56) ^^^ (x >>> 7)

def smallSigma1 (x : BitVec 64) : BitVec 64 :=
  (x >>> 19 ||| x <<< 45) ^^^ (x >>> 61 ||| x <<< 3) ^^^ (x >>> 6)

/-- `Initialize`. -/
def initial : Fin 8 → BitVec 64 :=
  ![0x6a09e667f3bcc908, 0xbb67ae8584caa73b, 0x3c6ef372fe94f82b, 0xa54ff53a5f1d36f1,
    0x510e527fade682d1, 0x9b05688c2b3e6c1f, 0x1f83d9abfb41bd6b, 0x5be0cd19137e2179]

/-- The lines of `Transform`. -/
def lines : List (Line 64) :=
  [⟨![0, 1, 2, 3, 4, 5, 6, 7], 0x428a2f98d728ae22, .read 0 0⟩,
    ⟨![7, 0, 1, 2, 3, 4, 5, 6], 0x7137449123ef65cd, .read 1 8⟩,
    ⟨![6, 7, 0, 1, 2, 3, 4, 5], 0xb5c0fbcfec4d3b2f, .read 2 16⟩,
    ⟨![5, 6, 7, 0, 1, 2, 3, 4], 0xe9b5dba58189dbbc, .read 3 24⟩,
    ⟨![4, 5, 6, 7, 0, 1, 2, 3], 0x3956c25bf348b538, .read 4 32⟩,
    ⟨![3, 4, 5, 6, 7, 0, 1, 2], 0x59f111f1b605d019, .read 5 40⟩,
    ⟨![2, 3, 4, 5, 6, 7, 0, 1], 0x923f82a4af194f9b, .read 6 48⟩,
    ⟨![1, 2, 3, 4, 5, 6, 7, 0], 0xab1c5ed5da6d8118, .read 7 56⟩,
    ⟨![0, 1, 2, 3, 4, 5, 6, 7], 0xd807aa98a3030242, .read 8 64⟩,
    ⟨![7, 0, 1, 2, 3, 4, 5, 6], 0x12835b0145706fbe, .read 9 72⟩,
    ⟨![6, 7, 0, 1, 2, 3, 4, 5], 0x243185be4ee4b28c, .read 10 80⟩,
    ⟨![5, 6, 7, 0, 1, 2, 3, 4], 0x550c7dc3d5ffb4e2, .read 11 88⟩,
    ⟨![4, 5, 6, 7, 0, 1, 2, 3], 0x72be5d74f27b896f, .read 12 96⟩,
    ⟨![3, 4, 5, 6, 7, 0, 1, 2], 0x80deb1fe3b1696b1, .read 13 104⟩,
    ⟨![2, 3, 4, 5, 6, 7, 0, 1], 0x9bdc06a725c71235, .read 14 112⟩,
    ⟨![1, 2, 3, 4, 5, 6, 7, 0], 0xc19bf174cf692694, .read 15 120⟩,
    ⟨![0, 1, 2, 3, 4, 5, 6, 7], 0xe49b69c19ef14ad2, .add 0 14 9 1⟩,
    ⟨![7, 0, 1, 2, 3, 4, 5, 6], 0xefbe4786384f25e3, .add 1 15 10 2⟩,
    ⟨![6, 7, 0, 1, 2, 3, 4, 5], 0x0fc19dc68b8cd5b5, .add 2 0 11 3⟩,
    ⟨![5, 6, 7, 0, 1, 2, 3, 4], 0x240ca1cc77ac9c65, .add 3 1 12 4⟩,
    ⟨![4, 5, 6, 7, 0, 1, 2, 3], 0x2de92c6f592b0275, .add 4 2 13 5⟩,
    ⟨![3, 4, 5, 6, 7, 0, 1, 2], 0x4a7484aa6ea6e483, .add 5 3 14 6⟩,
    ⟨![2, 3, 4, 5, 6, 7, 0, 1], 0x5cb0a9dcbd41fbd4, .add 6 4 15 7⟩,
    ⟨![1, 2, 3, 4, 5, 6, 7, 0], 0x76f988da831153b5, .add 7 5 0 8⟩,
    ⟨![0, 1, 2, 3, 4, 5, 6, 7], 0x983e5152ee66dfab, .add 8 6 1 9⟩,
    ⟨![7, 0, 1, 2, 3, 4, 5, 6], 0xa831c66d2db43210, .add 9 7 2 10⟩,
    ⟨![6, 7, 0, 1, 2, 3, 4, 5], 0xb00327c898fb213f, .add 10 8 3 11⟩,
    ⟨![5, 6, 7, 0, 1, 2, 3, 4], 0xbf597fc7beef0ee4, .add 11 9 4 12⟩,
    ⟨![4, 5, 6, 7, 0, 1, 2, 3], 0xc6e00bf33da88fc2, .add 12 10 5 13⟩,
    ⟨![3, 4, 5, 6, 7, 0, 1, 2], 0xd5a79147930aa725, .add 13 11 6 14⟩,
    ⟨![2, 3, 4, 5, 6, 7, 0, 1], 0x06ca6351e003826f, .add 14 12 7 15⟩,
    ⟨![1, 2, 3, 4, 5, 6, 7, 0], 0x142929670a0e6e70, .add 15 13 8 0⟩,
    ⟨![0, 1, 2, 3, 4, 5, 6, 7], 0x27b70a8546d22ffc, .add 0 14 9 1⟩,
    ⟨![7, 0, 1, 2, 3, 4, 5, 6], 0x2e1b21385c26c926, .add 1 15 10 2⟩,
    ⟨![6, 7, 0, 1, 2, 3, 4, 5], 0x4d2c6dfc5ac42aed, .add 2 0 11 3⟩,
    ⟨![5, 6, 7, 0, 1, 2, 3, 4], 0x53380d139d95b3df, .add 3 1 12 4⟩,
    ⟨![4, 5, 6, 7, 0, 1, 2, 3], 0x650a73548baf63de, .add 4 2 13 5⟩,
    ⟨![3, 4, 5, 6, 7, 0, 1, 2], 0x766a0abb3c77b2a8, .add 5 3 14 6⟩,
    ⟨![2, 3, 4, 5, 6, 7, 0, 1], 0x81c2c92e47edaee6, .add 6 4 15 7⟩,
    ⟨![1, 2, 3, 4, 5, 6, 7, 0], 0x92722c851482353b, .add 7 5 0 8⟩,
    ⟨![0, 1, 2, 3, 4, 5, 6, 7], 0xa2bfe8a14cf10364, .add 8 6 1 9⟩,
    ⟨![7, 0, 1, 2, 3, 4, 5, 6], 0xa81a664bbc423001, .add 9 7 2 10⟩,
    ⟨![6, 7, 0, 1, 2, 3, 4, 5], 0xc24b8b70d0f89791, .add 10 8 3 11⟩,
    ⟨![5, 6, 7, 0, 1, 2, 3, 4], 0xc76c51a30654be30, .add 11 9 4 12⟩,
    ⟨![4, 5, 6, 7, 0, 1, 2, 3], 0xd192e819d6ef5218, .add 12 10 5 13⟩,
    ⟨![3, 4, 5, 6, 7, 0, 1, 2], 0xd69906245565a910, .add 13 11 6 14⟩,
    ⟨![2, 3, 4, 5, 6, 7, 0, 1], 0xf40e35855771202a, .add 14 12 7 15⟩,
    ⟨![1, 2, 3, 4, 5, 6, 7, 0], 0x106aa07032bbd1b8, .add 15 13 8 0⟩,
    ⟨![0, 1, 2, 3, 4, 5, 6, 7], 0x19a4c116b8d2d0c8, .add 0 14 9 1⟩,
    ⟨![7, 0, 1, 2, 3, 4, 5, 6], 0x1e376c085141ab53, .add 1 15 10 2⟩,
    ⟨![6, 7, 0, 1, 2, 3, 4, 5], 0x2748774cdf8eeb99, .add 2 0 11 3⟩,
    ⟨![5, 6, 7, 0, 1, 2, 3, 4], 0x34b0bcb5e19b48a8, .add 3 1 12 4⟩,
    ⟨![4, 5, 6, 7, 0, 1, 2, 3], 0x391c0cb3c5c95a63, .add 4 2 13 5⟩,
    ⟨![3, 4, 5, 6, 7, 0, 1, 2], 0x4ed8aa4ae3418acb, .add 5 3 14 6⟩,
    ⟨![2, 3, 4, 5, 6, 7, 0, 1], 0x5b9cca4f7763e373, .add 6 4 15 7⟩,
    ⟨![1, 2, 3, 4, 5, 6, 7, 0], 0x682e6ff3d6b2b8a3, .add 7 5 0 8⟩,
    ⟨![0, 1, 2, 3, 4, 5, 6, 7], 0x748f82ee5defb2fc, .add 8 6 1 9⟩,
    ⟨![7, 0, 1, 2, 3, 4, 5, 6], 0x78a5636f43172f60, .add 9 7 2 10⟩,
    ⟨![6, 7, 0, 1, 2, 3, 4, 5], 0x84c87814a1f0ab72, .add 10 8 3 11⟩,
    ⟨![5, 6, 7, 0, 1, 2, 3, 4], 0x8cc702081a6439ec, .add 11 9 4 12⟩,
    ⟨![4, 5, 6, 7, 0, 1, 2, 3], 0x90befffa23631e28, .add 12 10 5 13⟩,
    ⟨![3, 4, 5, 6, 7, 0, 1, 2], 0xa4506cebde82bde9, .add 13 11 6 14⟩,
    ⟨![2, 3, 4, 5, 6, 7, 0, 1], 0xbef9a3f7b2c67915, .add 14 12 7 15⟩,
    ⟨![1, 2, 3, 4, 5, 6, 7, 0], 0xc67178f2e372532b, .add 15 13 8 0⟩,
    ⟨![0, 1, 2, 3, 4, 5, 6, 7], 0xca273eceea26619c, .add 0 14 9 1⟩,
    ⟨![7, 0, 1, 2, 3, 4, 5, 6], 0xd186b8c721c0c207, .add 1 15 10 2⟩,
    ⟨![6, 7, 0, 1, 2, 3, 4, 5], 0xeada7dd6cde0eb1e, .add 2 0 11 3⟩,
    ⟨![5, 6, 7, 0, 1, 2, 3, 4], 0xf57d4f7fee6ed178, .add 3 1 12 4⟩,
    ⟨![4, 5, 6, 7, 0, 1, 2, 3], 0x06f067aa72176fba, .add 4 2 13 5⟩,
    ⟨![3, 4, 5, 6, 7, 0, 1, 2], 0x0a637dc5a2c898a6, .add 5 3 14 6⟩,
    ⟨![2, 3, 4, 5, 6, 7, 0, 1], 0x113f9804bef90dae, .add 6 4 15 7⟩,
    ⟨![1, 2, 3, 4, 5, 6, 7, 0], 0x1b710b35131c471b, .add 7 5 0 8⟩,
    ⟨![0, 1, 2, 3, 4, 5, 6, 7], 0x28db77f523047d84, .add 8 6 1 9⟩,
    ⟨![7, 0, 1, 2, 3, 4, 5, 6], 0x32caab7b40c72493, .add 9 7 2 10⟩,
    ⟨![6, 7, 0, 1, 2, 3, 4, 5], 0x3c9ebe0a15c9bebc, .add 10 8 3 11⟩,
    ⟨![5, 6, 7, 0, 1, 2, 3, 4], 0x431d67c49c100d4c, .add 11 9 4 12⟩,
    ⟨![4, 5, 6, 7, 0, 1, 2, 3], 0x4cc5d4becb3e42b6, .add 12 10 5 13⟩,
    ⟨![3, 4, 5, 6, 7, 0, 1, 2], 0x597f299cfc657e2a, .add 13 11 6 14⟩,
    ⟨![2, 3, 4, 5, 6, 7, 0, 1], 0x5fcb6fab3ad6faec, .sum 14 12 7 15⟩,
    ⟨![1, 2, 3, 4, 5, 6, 7, 0], 0x6c44198c4a475817, .sum 15 13 8 0⟩]

def code : Code 64 where
  bigSigma0 := bigSigma0
  bigSigma1 := bigSigma1
  smallSigma0 := smallSigma0
  smallSigma1 := smallSigma1
  lines := lines

/-- `CSHA512`. -/
def csha512 : HasherClass (Fin 8 → BitVec 64) where
  chunk := 128
  initial := initial
  transform := code.transform
  limit := 239
  sizedesc bits := List.replicate 8 0 ++ writeBE bits.toBitVec
  output s := (List.ofFn s).flatMap writeBE

/-! ### The standard -/

/-- The lines have the names of the registers in their rounds, and the words in their order. -/
theorem lines_eq (t : ℕ) (ht : t < lines.length) :
    (∀ i, lines[t].names i = i - Fin.ofNat 8 t) ∧ lines[t].input = input 64 80 t := by
  revert t
  decide +kernel

/-- The numbers in the code are the first bits of roots. -/
theorem tables_eq : isRootTable 64 3 (lines.map fun line ↦ line.k.toNat) = true ∧
    isRootTable 64 2 ((List.ofFn initial).map BitVec.toNat) = true := by
  decide +kernel

theorem regular : code.Regular Fips180.sha512 where
  bigSigma0 _ := rfl
  bigSigma1 _ := rfl
  smallSigma0 _ := rfl
  smallSigma1 _ := rfl
  length := rfl
  dvd := by decide
  names t ht := (lines_eq t ht).1
  constants := constants_of_table tables_eq.1
  inputs t ht := (lines_eq t ht).2

theorem follows : csha512.Follows Fips180.sha512.standard where
  chunk_pos := by decide
  size := rfl
  chunk_le := by decide
  initial := initial_of_table tables_eq.2
  transform s block _ := regular.transform s block
  mark := rfl
  zero := rfl
  lengthBytes := by decide
  limit := rfl
  length_sizedesc _ := rfl
  length_encode _ := rfl
  sizedesc bytes hbytes := by
    change _ = Fips180.bigEndian 16 _
    rw [Fips180.bigEndian_of_lt 8 8 hbytes, ← HasherClass.toNat_shiftLeft_three hbytes]
    rfl
  output := rfl

/-- After any calls `Finalize` gives the hash of what was written since the last `Reset`. -/
theorem finalize_eq_sha512 (buf : List UInt8) (hbuf : buf.length = 128) (history : List Call)
    (hfits : ∀ call ∈ history, Fits call) (text : List UInt8)
    (hwritten : written history = some text) (hlength : 8 * text.length < 2 ^ 64) :
    (csha512.finalize (csha512.calls buf history)).1 = Fips180.sha512.standard.hash text :=
  follows.finalize_calls hbuf hfits hwritten hlength

theorem finalize_eq_sha512_abc :
    (csha512.finalize (csha512.calls (List.replicate 128 0) [.write [97], .write [98, 99]])).1 =
      Fips180.sha512.standard.hash [97, 98, 99] :=
  finalize_eq_sha512 _ rfl _ (by simp [Fits]) _ rfl (by decide)

end Exc.Hash.Sha512
