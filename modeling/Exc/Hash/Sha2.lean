import Exc.Hash.Hasher
import Exc.Lib.Fips180
import Exc.Lib.Literals

/-!
# The transformations of SHA-256 and SHA-512

`sha256::Transform` and `sha512::Transform` are written out line by line: a line is one `Round`,
with the eight variables in the order of that round, and with one of sixteen variables for the word
of the message. Both transformations are a list of such lines (`Code`), and differ in the length of
the words, in the shifts and in the constants.

When every line is what it should be (`Code.Regular`), the renamed variables are the rotating words
of the standard and the sixteen variables hold the schedule (`Tracks`). So `Transform` is the
compression function of the standard (`Code.Regular.transform`).
-/

set_option autoImplicit false
set_option relaxedAutoImplicit false

namespace Exc.Hash.Sha2

open Lib

attribute [local instance] neZero_eight neZero_sixteen

variable {w : ℕ}

/-! ### The code -/

/-- `ReadBE32` and `ReadBE64`. -/
def readBE (w : ℕ) (chunk : List UInt8) (offset : ℕ) : BitVec w :=
  BitVec.ofNat w (ByteOrder.load .big ((chunk.drop offset).take (w / 8)))

/-- `WriteBE32` and `WriteBE64`. -/
def writeBE (x : BitVec w) : List UInt8 := Fips180.bigEndian (w / 8) x.toNat

def ch (x y z : BitVec w) : BitVec w := z ^^^ (x &&& (y ^^^ z))

def maj (x y z : BitVec w) : BitVec w := (x &&& y) ||| (z &&& (x ||| y))

/-- The last argument of a `Round`, in terms of the variables `w0` to `w15`. -/
inductive Input
  | /-- `wi = ReadBE(chunk + offset)` -/
    read (i : Fin 16) (offset : ℕ)
  | /-- `wi += sigma1(wj) + wk + sigma0(wl)` -/
    add (i j k l : Fin 16)
  | /-- `wi + sigma1(wj) + wk + sigma0(wl)` -/
    sum (i j k l : Fin 16)
  deriving DecidableEq, Repr

/-- A line of `Transform`. The variables `a` to `h` are numbered from 0 to 7. -/
structure Line (w : ℕ) where
  names : Fin 8 → Fin 8
  k : BitVec w
  input : Input

/-- `Transform` and the functions that it uses. -/
structure Code (w : ℕ) where
  bigSigma0 : BitVec w → BitVec w
  bigSigma1 : BitVec w → BitVec w
  smallSigma0 : BitVec w → BitVec w
  smallSigma1 : BitVec w → BitVec w
  lines : List (Line w)

namespace Code

variable (code : Code w)

/-- The value of the last argument, and the sixteen variables after it is computed. -/
def word (chunk : List UInt8) (ring : Fin 16 → BitVec w) :
    Input → BitVec w × (Fin 16 → BitVec w)
  | .read i offset =>
    let value := readBE w chunk offset
    (value, Function.update ring i value)
  | .add i j k l =>
    let value := ring i + (code.smallSigma1 (ring j) + ring k + code.smallSigma0 (ring l))
    (value, Function.update ring i value)
  | .sum i j k l =>
    (ring i + code.smallSigma1 (ring j) + ring k + code.smallSigma0 (ring l), ring)

/-- `Round`, for variables that are given by their names. -/
def round (registers : Fin 8 → BitVec w) (names : Fin 8 → Fin 8) (k value : BitVec w) :
    Fin 8 → BitVec w :=
  let word i := registers (names i)
  let t1 := word 7 + code.bigSigma1 (word 4) + ch (word 4) (word 5) (word 6) + k + value
  let t2 := code.bigSigma0 (word 0) + maj (word 0) (word 1) (word 2)
  Function.update (Function.update registers (names 3) (word 3 + t1)) (names 7) (t1 + t2)

/-- One line. -/
def step (chunk : List UInt8) (vars : (Fin 8 → BitVec w) × (Fin 16 → BitVec w)) (line : Line w) :
    (Fin 8 → BitVec w) × (Fin 16 → BitVec w) :=
  let input := code.word chunk vars.2 line.input
  (code.round vars.1 line.names line.k input.1, input.2)

/-- `Transform`. The sixteen variables are written before they are read. -/
def transform (s : Fin 8 → BitVec w) (chunk : List UInt8) : Fin 8 → BitVec w :=
  let vars := code.lines.foldl (code.step chunk) (s, fun _ ↦ 0)
  fun i ↦ s i + vars.1 i

end Code

/-! ### The standard -/

theorem ch_eq (x y z : BitVec w) : ch x y z = Fips180.ch x y z := by
  ext i hi
  simp only [ch, Fips180.ch, BitVec.getElem_xor, BitVec.getElem_and, BitVec.getElem_not]
  cases x[i] <;> cases y[i] <;> cases z[i] <;> rfl

theorem maj_eq (x y z : BitVec w) : maj x y z = Fips180.maj x y z := by
  ext i hi
  simp only [maj, Fips180.maj, BitVec.getElem_xor, BitVec.getElem_and, BitVec.getElem_or]
  cases x[i] <;> cases y[i] <;> cases z[i] <;> rfl

/-- The last argument of a round, as the standard has it. The words of the last two rounds are not
stored. -/
def input (w rounds t : ℕ) : Input :=
  if t < 16 then .read (Fin.ofNat 16 t) (w / 8 * t)
  else if t < rounds - 2 then
    .add (Fin.ofNat 16 t) (Fin.ofNat 16 (t - 2)) (Fin.ofNat 16 (t - 7)) (Fin.ofNat 16 (t - 15))
  else
    .sum (Fin.ofNat 16 t) (Fin.ofNat 16 (t - 2)) (Fin.ofNat 16 (t - 7)) (Fin.ofNat 16 (t - 15))

/-- The lines are the rounds of a standard. -/
structure Code.Regular (code : Code w) (sha : Fips180.Sha2 w) : Prop where
  bigSigma0 : ∀ x, code.bigSigma0 x = sha.bigSigma0 x
  bigSigma1 : ∀ x, code.bigSigma1 x = sha.bigSigma1 x
  smallSigma0 : ∀ x, code.smallSigma0 x = sha.smallSigma0 x
  smallSigma1 : ∀ x, code.smallSigma1 x = sha.smallSigma1 x
  length : code.lines.length = sha.rounds
  dvd : 8 ∣ sha.rounds
  names : ∀ t (ht : t < code.lines.length) i, code.lines[t].names i = i - Fin.ofNat 8 t
  constants : ∀ t (ht : t < code.lines.length), code.lines[t].k = Fips180.constant w t
  inputs : ∀ t (ht : t < code.lines.length), code.lines[t].input = input w sha.rounds t

/-- The constants of lines whose numbers are the first bits of the cube roots of the primes. -/
theorem constants_of_table {lines : List (Line w)}
    (htable : isRootTable w 3 (lines.map fun line ↦ line.k.toNat) = true) (t : ℕ)
    (ht : t < lines.length) : lines[t].k = Fips180.constant w t := by
  have hindex : t < (lines.map fun line ↦ line.k.toNat).length := by rwa [List.length_map]
  rw [Fips180.constant, fractionBits_of_table three_ne_zero htable hindex, List.getElem_map,
    BitVec.ofNat_toNat, BitVec.setWidth_eq]

/-- A first state whose numbers are the first bits of the square roots of the primes. -/
theorem initial_of_table {initial : Fin 8 → BitVec w}
    (htable : isRootTable w 2 ((List.ofFn initial).map BitVec.toNat) = true) :
    initial = Fips180.initial w := by
  funext i
  have hindex : i.val < ((List.ofFn initial).map BitVec.toNat).length := by
    rw [List.length_map, List.length_ofFn]
    exact i.isLt
  rw [Fips180.initial, fractionBits_of_table two_ne_zero htable hindex, List.getElem_map,
    BitVec.ofNat_toNat, BitVec.setWidth_eq, List.getElem_ofFn]

variable {code : Code w} {sha : Fips180.Sha2 w} {chunk : List UInt8}
  {vars : (Fin 8 → BitVec w) × (Fin 16 → BitVec w)} {words : Fin 8 → BitVec w} {t : ℕ}

/-- After a number of lines: the variables hold the words of the standard under their new names, and
the last words of the schedule. -/
structure Tracks (sha : Fips180.Sha2 w) (chunk : List UInt8) (t : ℕ)
    (vars : (Fin 8 → BitVec w) × (Fin 16 → BitVec w)) (words : Fin 8 → BitVec w) : Prop where
  registers : renamed t vars.1 = words
  ring : RingHolds (sha.rounds - 2) (sha.schedule chunk) t vars.2

/-- The word of the message. -/
theorem Code.Regular.word (h : code.Regular sha) (htracks : Tracks sha chunk t vars words)
    (ht : t < sha.rounds) :
    (code.word chunk vars.2 (input w sha.rounds t)).1 = sha.schedule chunk t ∧
      RingHolds (sha.rounds - 2) (sha.schedule chunk) (t + 1)
        (code.word chunk vars.2 (input w sha.rounds t)).2 := by
  by_cases hread : t < 16
  · have hvalue : readBE w chunk (w / 8 * t) = sha.schedule chunk t := by
      rw [Fips180.Sha2.schedule, if_pos hread]
      rfl
    rw [input, if_pos hread, Code.word, hvalue]
    exact ⟨rfl, htracks.ring.write⟩
  · have hself : Fin.ofNat 16 t = Fin.ofNat 16 (t - 16) := by
      apply Fin.ext
      change t % 16 = (t - 16) % 16
      omega
    have hold (back : ℕ) (hback : 2 ≤ back) (hle : back ≤ 16) :
        vars.2 (Fin.ofNat 16 (t - back)) = sha.schedule chunk (t - back) :=
      htracks.ring (t - back) (by omega) (by omega) (by omega)
    have hschedule : sha.schedule chunk t =
        sha.smallSigma1 (sha.schedule chunk (t - 2)) + sha.schedule chunk (t - 7) +
          sha.smallSigma0 (sha.schedule chunk (t - 15)) + sha.schedule chunk (t - 16) := by
      rw [Fips180.Sha2.schedule, if_neg hread]
    rw [input, if_neg hread]
    split_ifs with hstored
    · have hvalue : vars.2 (Fin.ofNat 16 t) + (code.smallSigma1 (vars.2 (Fin.ofNat 16 (t - 2))) +
          vars.2 (Fin.ofNat 16 (t - 7)) + code.smallSigma0 (vars.2 (Fin.ofNat 16 (t - 15)))) =
          sha.schedule chunk t := by
        rw [hself, hold 16 (by omega) le_rfl, hold 2 le_rfl (by omega),
          hold 7 (by omega) (by omega), hold 15 (by omega) (by omega), h.smallSigma0,
          h.smallSigma1, hschedule, BitVec.add_comm]
      rw [Code.word, hvalue]
      exact ⟨rfl, htracks.ring.write⟩
    · have hvalue : vars.2 (Fin.ofNat 16 t) + code.smallSigma1 (vars.2 (Fin.ofNat 16 (t - 2))) +
          vars.2 (Fin.ofNat 16 (t - 7)) + code.smallSigma0 (vars.2 (Fin.ofNat 16 (t - 15))) =
          sha.schedule chunk t := by
        rw [hself, hold 16 (by omega) le_rfl, hold 2 le_rfl (by omega),
          hold 7 (by omega) (by omega), hold 15 (by omega) (by omega), h.smallSigma0,
          h.smallSigma1, hschedule, BitVec.add_assoc, BitVec.add_assoc, BitVec.add_comm,
          ← BitVec.add_assoc]
      rw [Code.word, hvalue]
      exact ⟨rfl, htracks.ring.skip (by omega)⟩

/-- A round, when the names are those of round `t`. -/
theorem Code.Regular.round (h : code.Regular sha) (registers : Fin 8 → BitVec w) :
    renamed (t + 1) (code.round registers (fun i ↦ i - Fin.ofNat 8 t) (Fips180.constant w t)
      (sha.schedule chunk t)) = sha.round chunk (renamed t registers) t := by
  have hword (i : Fin 8) : registers (i - Fin.ofNat 8 t) = renamed t registers i := rfl
  rw [renamed_succ, Code.round]
  simp only [renamed_update, hword, ch_eq, maj_eq, h.bigSigma0, h.bigSigma1]
  funext i
  rw [rotate, Fips180.Sha2.round]
  fin_cases i <;> rfl

/-- One line is one round. -/
theorem Tracks.step (h : code.Regular sha) (htracks : Tracks sha chunk t vars words)
    (ht : t < code.lines.length) :
    Tracks sha chunk (t + 1) (code.step chunk vars code.lines[t]) (sha.round chunk words t) := by
  have hrounds : t < sha.rounds := h.length ▸ ht
  obtain ⟨hvalue, hring⟩ := h.word htracks hrounds
  have hnames : code.lines[t].names = fun i ↦ i - Fin.ofNat 8 t := funext (h.names t ht)
  rw [Code.step, h.inputs t ht, h.constants t ht, hvalue, hnames]
  refine ⟨?_, hring⟩
  rw [h.round, htracks.registers]

/-- All lines are all rounds. By induction on their number. -/
theorem Tracks.lines (h : code.Regular sha) (htracks : Tracks sha chunk 0 vars words)
    (ht : t ≤ code.lines.length) :
    Tracks sha chunk t ((code.lines.take t).foldl (code.step chunk) vars)
      ((List.range t).foldl (sha.round chunk) words) := by
  induction t with
  | zero => exact htracks
  | succ t ih =>
    rw [List.take_succ_eq_append_getElem ht, List.foldl_append, List.range_succ, List.foldl_append]
    exact Tracks.step h (ih (by omega)) ht

/-- `Transform` is the compression function of the standard. -/
theorem Code.Regular.transform (h : code.Regular sha) (s : Fin 8 → BitVec w)
    (chunk : List UInt8) : code.transform s chunk = sha.compress s chunk := by
  have hstart : Tracks sha chunk 0 (s, fun _ ↦ 0) s := ⟨renamed_zero s, ringHolds_zero⟩
  have hend := Tracks.lines h hstart (t := code.lines.length) le_rfl
  rw [List.take_length, h.length] at hend
  have hregisters := hend.registers
  rw [renamed_of_dvd h.dvd] at hregisters
  rw [Code.transform, hregisters]
  rfl

end Exc.Hash.Sha2
