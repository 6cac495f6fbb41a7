import Exc.Hash.Sha2

/-!
# SHA-1

The class `CSHA1`. `sha1::Transform` is written out line by line, with five variables that change
their places from line to line. As for SHA-2, the lines are the rounds of the standard (`Tracks`),
so that the class follows it (`follows`).
-/

set_option autoImplicit false
set_option relaxedAutoImplicit false

namespace Exc.Hash.Sha1

open Lib Sha2 HasherClass

attribute [local instance] neZero_five neZero_sixteen

/-! ### The code -/

def f1 (b c d : BitVec 32) : BitVec 32 := d ^^^ (b &&& (c ^^^ d))

def f2 (b c d : BitVec 32) : BitVec 32 := b ^^^ c ^^^ d

def f3 (b c d : BitVec 32) : BitVec 32 := (b &&& c) ||| (d &&& (b ||| c))

def left (x : BitVec 32) : BitVec 32 := x <<< 1 ||| x >>> 31

/-- `Initialize`. -/
def initial : Fin 5 → BitVec 32 := ![0x67452301, 0xEFCDAB89, 0x98BADCFE, 0x10325476, 0xC3D2E1F0]

def k1 : BitVec 32 := 0x5A827999

def k2 : BitVec 32 := 0x6ED9EBA1

def k3 : BitVec 32 := 0x8F1BBCDC

def k4 : BitVec 32 := 0xCA62C1D6

/-- The last argument of a `Round`, in terms of the variables `w0` to `w15`. -/
inductive Input
  | /-- `wi = ReadBE32(chunk + offset)` -/
    read (i : Fin 16) (offset : ℕ)
  | /-- `wi = left(wi ^ wj ^ wk ^ wl)` -/
    assign (i j k l : Fin 16)
  | /-- `left(wi ^ wj ^ wk ^ wl)` -/
    value (i j k l : Fin 16)
  deriving DecidableEq, Repr

/-- The function that a line calls. -/
inductive Callee
  | f1
  | f2
  | f3
  deriving DecidableEq, Repr

def Callee.run : Callee → BitVec 32 → BitVec 32 → BitVec 32 → BitVec 32
  | .f1 => Sha1.f1
  | .f2 => Sha1.f2
  | .f3 => Sha1.f3

/-- A line of `Transform`. The variables `a` to `e` are numbered from 0 to 4; the arguments are
those of the function. -/
structure Line where
  names : Fin 5 → Fin 5
  f : Callee
  arguments : Fin 3 → Fin 5
  k : BitVec 32
  input : Input

/-- The value of the last argument, and the sixteen variables after it is computed. -/
def word (chunk : List UInt8) (ring : Fin 16 → BitVec 32) :
    Input → BitVec 32 × (Fin 16 → BitVec 32)
  | .read i offset =>
    let value := readBE 32 chunk offset
    (value, Function.update ring i value)
  | .assign i j k l =>
    let value := left (ring i ^^^ ring j ^^^ ring k ^^^ ring l)
    (value, Function.update ring i value)
  | .value i j k l => (left (ring i ^^^ ring j ^^^ ring k ^^^ ring l), ring)

/-- `Round`, for variables that are given by their names. -/
def round (registers : Fin 5 → BitVec 32) (names : Fin 5 → Fin 5) (f k value : BitVec 32) :
    Fin 5 → BitVec 32 :=
  let word i := registers (names i)
  let e := word 4 + ((word 0 <<< 5 ||| word 0 >>> 27) + f + k + value)
  Function.update (Function.update registers (names 4) e) (names 1) (word 1 <<< 30 ||| word 1 >>> 2)

/-- One line. -/
def step (chunk : List UInt8) (vars : (Fin 5 → BitVec 32) × (Fin 16 → BitVec 32)) (line : Line) :
    (Fin 5 → BitVec 32) × (Fin 16 → BitVec 32) :=
  let input := word chunk vars.2 line.input
  let f := line.f.run (vars.1 (line.arguments 0)) (vars.1 (line.arguments 1))
    (vars.1 (line.arguments 2))
  (round vars.1 line.names f line.k input.1, input.2)

/-- The lines of `Transform`. -/
def lines : List Line :=
  [⟨![0, 1, 2, 3, 4], .f1, ![1, 2, 3], k1, .read 0 0⟩,
    ⟨![4, 0, 1, 2, 3], .f1, ![0, 1, 2], k1, .read 1 4⟩,
    ⟨![3, 4, 0, 1, 2], .f1, ![4, 0, 1], k1, .read 2 8⟩,
    ⟨![2, 3, 4, 0, 1], .f1, ![3, 4, 0], k1, .read 3 12⟩,
    ⟨![1, 2, 3, 4, 0], .f1, ![2, 3, 4], k1, .read 4 16⟩,
    ⟨![0, 1, 2, 3, 4], .f1, ![1, 2, 3], k1, .read 5 20⟩,
    ⟨![4, 0, 1, 2, 3], .f1, ![0, 1, 2], k1, .read 6 24⟩,
    ⟨![3, 4, 0, 1, 2], .f1, ![4, 0, 1], k1, .read 7 28⟩,
    ⟨![2, 3, 4, 0, 1], .f1, ![3, 4, 0], k1, .read 8 32⟩,
    ⟨![1, 2, 3, 4, 0], .f1, ![2, 3, 4], k1, .read 9 36⟩,
    ⟨![0, 1, 2, 3, 4], .f1, ![1, 2, 3], k1, .read 10 40⟩,
    ⟨![4, 0, 1, 2, 3], .f1, ![0, 1, 2], k1, .read 11 44⟩,
    ⟨![3, 4, 0, 1, 2], .f1, ![4, 0, 1], k1, .read 12 48⟩,
    ⟨![2, 3, 4, 0, 1], .f1, ![3, 4, 0], k1, .read 13 52⟩,
    ⟨![1, 2, 3, 4, 0], .f1, ![2, 3, 4], k1, .read 14 56⟩,
    ⟨![0, 1, 2, 3, 4], .f1, ![1, 2, 3], k1, .read 15 60⟩,
    ⟨![4, 0, 1, 2, 3], .f1, ![0, 1, 2], k1, .assign 0 13 8 2⟩,
    ⟨![3, 4, 0, 1, 2], .f1, ![4, 0, 1], k1, .assign 1 14 9 3⟩,
    ⟨![2, 3, 4, 0, 1], .f1, ![3, 4, 0], k1, .assign 2 15 10 4⟩,
    ⟨![1, 2, 3, 4, 0], .f1, ![2, 3, 4], k1, .assign 3 0 11 5⟩,
    ⟨![0, 1, 2, 3, 4], .f2, ![1, 2, 3], k2, .assign 4 1 12 6⟩,
    ⟨![4, 0, 1, 2, 3], .f2, ![0, 1, 2], k2, .assign 5 2 13 7⟩,
    ⟨![3, 4, 0, 1, 2], .f2, ![4, 0, 1], k2, .assign 6 3 14 8⟩,
    ⟨![2, 3, 4, 0, 1], .f2, ![3, 4, 0], k2, .assign 7 4 15 9⟩,
    ⟨![1, 2, 3, 4, 0], .f2, ![2, 3, 4], k2, .assign 8 5 0 10⟩,
    ⟨![0, 1, 2, 3, 4], .f2, ![1, 2, 3], k2, .assign 9 6 1 11⟩,
    ⟨![4, 0, 1, 2, 3], .f2, ![0, 1, 2], k2, .assign 10 7 2 12⟩,
    ⟨![3, 4, 0, 1, 2], .f2, ![4, 0, 1], k2, .assign 11 8 3 13⟩,
    ⟨![2, 3, 4, 0, 1], .f2, ![3, 4, 0], k2, .assign 12 9 4 14⟩,
    ⟨![1, 2, 3, 4, 0], .f2, ![2, 3, 4], k2, .assign 13 10 5 15⟩,
    ⟨![0, 1, 2, 3, 4], .f2, ![1, 2, 3], k2, .assign 14 11 6 0⟩,
    ⟨![4, 0, 1, 2, 3], .f2, ![0, 1, 2], k2, .assign 15 12 7 1⟩,
    ⟨![3, 4, 0, 1, 2], .f2, ![4, 0, 1], k2, .assign 0 13 8 2⟩,
    ⟨![2, 3, 4, 0, 1], .f2, ![3, 4, 0], k2, .assign 1 14 9 3⟩,
    ⟨![1, 2, 3, 4, 0], .f2, ![2, 3, 4], k2, .assign 2 15 10 4⟩,
    ⟨![0, 1, 2, 3, 4], .f2, ![1, 2, 3], k2, .assign 3 0 11 5⟩,
    ⟨![4, 0, 1, 2, 3], .f2, ![0, 1, 2], k2, .assign 4 1 12 6⟩,
    ⟨![3, 4, 0, 1, 2], .f2, ![4, 0, 1], k2, .assign 5 2 13 7⟩,
    ⟨![2, 3, 4, 0, 1], .f2, ![3, 4, 0], k2, .assign 6 3 14 8⟩,
    ⟨![1, 2, 3, 4, 0], .f2, ![2, 3, 4], k2, .assign 7 4 15 9⟩,
    ⟨![0, 1, 2, 3, 4], .f3, ![1, 2, 3], k3, .assign 8 5 0 10⟩,
    ⟨![4, 0, 1, 2, 3], .f3, ![0, 1, 2], k3, .assign 9 6 1 11⟩,
    ⟨![3, 4, 0, 1, 2], .f3, ![4, 0, 1], k3, .assign 10 7 2 12⟩,
    ⟨![2, 3, 4, 0, 1], .f3, ![3, 4, 0], k3, .assign 11 8 3 13⟩,
    ⟨![1, 2, 3, 4, 0], .f3, ![2, 3, 4], k3, .assign 12 9 4 14⟩,
    ⟨![0, 1, 2, 3, 4], .f3, ![1, 2, 3], k3, .assign 13 10 5 15⟩,
    ⟨![4, 0, 1, 2, 3], .f3, ![0, 1, 2], k3, .assign 14 11 6 0⟩,
    ⟨![3, 4, 0, 1, 2], .f3, ![4, 0, 1], k3, .assign 15 12 7 1⟩,
    ⟨![2, 3, 4, 0, 1], .f3, ![3, 4, 0], k3, .assign 0 13 8 2⟩,
    ⟨![1, 2, 3, 4, 0], .f3, ![2, 3, 4], k3, .assign 1 14 9 3⟩,
    ⟨![0, 1, 2, 3, 4], .f3, ![1, 2, 3], k3, .assign 2 15 10 4⟩,
    ⟨![4, 0, 1, 2, 3], .f3, ![0, 1, 2], k3, .assign 3 0 11 5⟩,
    ⟨![3, 4, 0, 1, 2], .f3, ![4, 0, 1], k3, .assign 4 1 12 6⟩,
    ⟨![2, 3, 4, 0, 1], .f3, ![3, 4, 0], k3, .assign 5 2 13 7⟩,
    ⟨![1, 2, 3, 4, 0], .f3, ![2, 3, 4], k3, .assign 6 3 14 8⟩,
    ⟨![0, 1, 2, 3, 4], .f3, ![1, 2, 3], k3, .assign 7 4 15 9⟩,
    ⟨![4, 0, 1, 2, 3], .f3, ![0, 1, 2], k3, .assign 8 5 0 10⟩,
    ⟨![3, 4, 0, 1, 2], .f3, ![4, 0, 1], k3, .assign 9 6 1 11⟩,
    ⟨![2, 3, 4, 0, 1], .f3, ![3, 4, 0], k3, .assign 10 7 2 12⟩,
    ⟨![1, 2, 3, 4, 0], .f3, ![2, 3, 4], k3, .assign 11 8 3 13⟩,
    ⟨![0, 1, 2, 3, 4], .f2, ![1, 2, 3], k4, .assign 12 9 4 14⟩,
    ⟨![4, 0, 1, 2, 3], .f2, ![0, 1, 2], k4, .assign 13 10 5 15⟩,
    ⟨![3, 4, 0, 1, 2], .f2, ![4, 0, 1], k4, .assign 14 11 6 0⟩,
    ⟨![2, 3, 4, 0, 1], .f2, ![3, 4, 0], k4, .assign 15 12 7 1⟩,
    ⟨![1, 2, 3, 4, 0], .f2, ![2, 3, 4], k4, .assign 0 13 8 2⟩,
    ⟨![0, 1, 2, 3, 4], .f2, ![1, 2, 3], k4, .assign 1 14 9 3⟩,
    ⟨![4, 0, 1, 2, 3], .f2, ![0, 1, 2], k4, .assign 2 15 10 4⟩,
    ⟨![3, 4, 0, 1, 2], .f2, ![4, 0, 1], k4, .assign 3 0 11 5⟩,
    ⟨![2, 3, 4, 0, 1], .f2, ![3, 4, 0], k4, .assign 4 1 12 6⟩,
    ⟨![1, 2, 3, 4, 0], .f2, ![2, 3, 4], k4, .assign 5 2 13 7⟩,
    ⟨![0, 1, 2, 3, 4], .f2, ![1, 2, 3], k4, .assign 6 3 14 8⟩,
    ⟨![4, 0, 1, 2, 3], .f2, ![0, 1, 2], k4, .assign 7 4 15 9⟩,
    ⟨![3, 4, 0, 1, 2], .f2, ![4, 0, 1], k4, .assign 8 5 0 10⟩,
    ⟨![2, 3, 4, 0, 1], .f2, ![3, 4, 0], k4, .assign 9 6 1 11⟩,
    ⟨![1, 2, 3, 4, 0], .f2, ![2, 3, 4], k4, .assign 10 7 2 12⟩,
    ⟨![0, 1, 2, 3, 4], .f2, ![1, 2, 3], k4, .assign 11 8 3 13⟩,
    ⟨![4, 0, 1, 2, 3], .f2, ![0, 1, 2], k4, .assign 12 9 4 14⟩,
    ⟨![3, 4, 0, 1, 2], .f2, ![4, 0, 1], k4, .value 13 10 5 15⟩,
    ⟨![2, 3, 4, 0, 1], .f2, ![3, 4, 0], k4, .value 14 11 6 0⟩,
    ⟨![1, 2, 3, 4, 0], .f2, ![2, 3, 4], k4, .value 15 12 7 1⟩]

/-- `Transform`. The sixteen variables are written before they are read. -/
def transform (s : Fin 5 → BitVec 32) (chunk : List UInt8) : Fin 5 → BitVec 32 :=
  let vars := lines.foldl (step chunk) (s, fun _ ↦ 0)
  fun i ↦ s i + vars.1 i

/-- `CSHA1`. -/
def csha1 : HasherClass (Fin 5 → BitVec 32) where
  chunk := 64
  initial := initial
  transform := transform
  limit := 119
  sizedesc bits := writeBE bits.toBitVec
  output s := (List.ofFn s).flatMap writeBE

/-! ### The standard -/

/-- The last argument of a round, as the standard has it. The words of the last three rounds are not
stored. -/
def input (t : ℕ) : Input :=
  if t < 16 then .read (Fin.ofNat 16 t) (4 * t)
  else if t < 77 then
    .assign (Fin.ofNat 16 t) (Fin.ofNat 16 (t - 3)) (Fin.ofNat 16 (t - 8)) (Fin.ofNat 16 (t - 14))
  else
    .value (Fin.ofNat 16 t) (Fin.ofNat 16 (t - 3)) (Fin.ofNat 16 (t - 8)) (Fin.ofNat 16 (t - 14))

/-- The function that is called in a round. -/
def callee (t : ℕ) : Callee :=
  if t < 20 then .f1 else if t < 40 then .f2 else if t < 60 then .f3 else .f2

/-- The lines are the rounds of the standard: the names of their registers, the words that the
function of a round is applied to, the word of the message, the constant and the function. -/
theorem lines_eq (t : ℕ) (ht : t < lines.length) :
    (∀ i, lines[t].names i = i - Fin.ofNat 5 t) ∧
      (∀ i, lines[t].arguments i = Fin.ofNat 5 (i.val + 1) - Fin.ofNat 5 t) ∧
      lines[t].input = input t ∧ lines[t].k = Fips180.Sha1.constant t ∧
      lines[t].f = callee t := by
  revert t
  decide +kernel

theorem run_callee (t : ℕ) : (callee t).run = Fips180.Sha1.function t := by
  have hf1 : f1 = Fips180.ch := by
    funext b c d
    exact ch_eq b c d
  have hf3 : f3 = Fips180.maj := by
    funext b c d
    exact maj_eq b c d
  rw [callee, Fips180.Sha1.function]
  split_ifs
  · exact hf1
  · rfl
  · exact hf3
  · rfl

variable {chunk : List UInt8} {vars : (Fin 5 → BitVec 32) × (Fin 16 → BitVec 32)}
  {words : Fin 5 → BitVec 32} {t : ℕ}

/-- After a number of lines: the variables hold the words of the standard under their new names, and
the last words of the schedule. -/
structure Tracks (chunk : List UInt8) (t : ℕ)
    (vars : (Fin 5 → BitVec 32) × (Fin 16 → BitVec 32)) (words : Fin 5 → BitVec 32) : Prop where
  registers : renamed t vars.1 = words
  ring : RingHolds 77 (Fips180.Sha1.schedule chunk) t vars.2

/-- The word of the message. -/
theorem Tracks.word (htracks : Tracks chunk t vars words) (ht : t < 80) :
    (word chunk vars.2 (input t)).1 = Fips180.Sha1.schedule chunk t ∧
      RingHolds 77 (Fips180.Sha1.schedule chunk) (t + 1) (word chunk vars.2 (input t)).2 := by
  by_cases hread : t < 16
  · have hvalue : readBE 32 chunk (4 * t) = Fips180.Sha1.schedule chunk t := by
      rw [Fips180.Sha1.schedule, if_pos hread]
      rfl
    rw [input, if_pos hread, Sha1.word, hvalue]
    exact ⟨rfl, htracks.ring.write⟩
  · have hself : Fin.ofNat 16 t = Fin.ofNat 16 (t - 16) := by
      apply Fin.ext
      change t % 16 = (t - 16) % 16
      omega
    have hold (back : ℕ) (hback : 3 ≤ back) (hle : back ≤ 16) :
        vars.2 (Fin.ofNat 16 (t - back)) = Fips180.Sha1.schedule chunk (t - back) :=
      htracks.ring (t - back) (by omega) (by omega) (by omega)
    have hvalue : left (vars.2 (Fin.ofNat 16 t) ^^^ vars.2 (Fin.ofNat 16 (t - 3)) ^^^
        vars.2 (Fin.ofNat 16 (t - 8)) ^^^ vars.2 (Fin.ofNat 16 (t - 14))) =
        Fips180.Sha1.schedule chunk t := by
      rw [hself, hold 16 (by omega) le_rfl, hold 3 le_rfl (by omega), hold 8 (by omega) (by omega),
        hold 14 (by omega) (by omega)]
      conv_rhs => rw [Fips180.Sha1.schedule, if_neg hread]
      rw [BitVec.xor_assoc, BitVec.xor_assoc, BitVec.xor_comm, ← BitVec.xor_assoc]
      rfl
    rw [input, if_neg hread]
    split_ifs with hstored
    · rw [Sha1.word, hvalue]
      exact ⟨rfl, htracks.ring.write⟩
    · rw [Sha1.word, hvalue]
      exact ⟨rfl, htracks.ring.skip (by omega)⟩

/-- A round, when the names are those of round `t`. -/
theorem renamed_round (registers : Fin 5 → BitVec 32) :
    renamed (t + 1) (round registers (fun i ↦ i - Fin.ofNat 5 t)
      (Fips180.Sha1.function t (renamed t registers 1) (renamed t registers 2)
        (renamed t registers 3)) (Fips180.Sha1.constant t) (Fips180.Sha1.schedule chunk t)) =
      Fips180.Sha1.round chunk (renamed t registers) t := by
  have hword (i : Fin 5) : registers (i - Fin.ofNat 5 t) = renamed t registers i := rfl
  rw [renamed_succ, round]
  simp only [renamed_update, hword]
  funext i
  rw [rotate, Fips180.Sha1.round]
  fin_cases i
  · change renamed t registers 4 + ((renamed t registers 0).rotateLeft 5 + _ + _ + _) =
      (renamed t registers 0).rotateLeft 5 + _ + renamed t registers 4 + _ + _
    ac_rfl
  all_goals rfl

/-- One line is one round. -/
theorem Tracks.step (htracks : Tracks chunk t vars words) (ht : t < lines.length) :
    Tracks chunk (t + 1) (step chunk vars lines[t]) (Fips180.Sha1.round chunk words t) := by
  obtain ⟨hvalue, hring⟩ := htracks.word ht
  obtain ⟨hnames, harguments, hinput, hconstant, hcallee⟩ := lines_eq t ht
  have hnames : lines[t].names = fun i ↦ i - Fin.ofNat 5 t := funext hnames
  rw [Sha1.step, hinput, hconstant, hcallee, run_callee, hvalue, hnames, harguments, harguments,
    harguments]
  refine ⟨?_, hring⟩
  rw [← htracks.registers]
  exact renamed_round vars.1

/-- All lines are all rounds. By induction on their number. -/
theorem Tracks.lines (htracks : Tracks chunk 0 vars words) (ht : t ≤ Sha1.lines.length) :
    Tracks chunk t ((Sha1.lines.take t).foldl (Sha1.step chunk) vars)
      ((List.range t).foldl (Fips180.Sha1.round chunk) words) := by
  induction t with
  | zero => exact htracks
  | succ t ih =>
    rw [List.take_succ_eq_append_getElem ht, List.foldl_append, List.range_succ, List.foldl_append]
    exact (ih (by omega)).step ht

/-- `Transform` is the compression function of the standard. -/
theorem transform_eq (s : Fin 5 → BitVec 32) (chunk : List UInt8) :
    transform s chunk = Fips180.Sha1.compress s chunk := by
  have hstart : Tracks chunk 0 (s, fun _ ↦ 0) s := ⟨renamed_zero s, ringHolds_zero⟩
  have hend := hstart.lines (t := lines.length) le_rfl
  have hregisters := hend.registers
  rw [List.take_length, renamed_of_dvd (by decide)] at hregisters
  rw [transform, hregisters]
  rfl

theorem follows : csha1.Follows Fips180.Sha1.standard where
  chunk_pos := by decide
  size := rfl
  chunk_le := by decide
  initial := rfl
  transform s block _ := transform_eq s block
  mark := rfl
  zero := rfl
  lengthBytes := by decide
  limit := rfl
  length_sizedesc _ := rfl
  length_encode _ := rfl
  sizedesc bytes hbytes := by
    rw [← HasherClass.toNat_shiftLeft_three hbytes]
    rfl
  output := rfl

/-- After any calls `Finalize` gives the hash of what was written since the last `Reset`. -/
theorem finalize_eq_sha1 (buf : List UInt8) (hbuf : buf.length = 64) (history : List Call)
    (hfits : ∀ call ∈ history, Fits call) (text : List UInt8)
    (hwritten : written history = some text) (hlength : 8 * text.length < 2 ^ 64) :
    (csha1.finalize (csha1.calls buf history)).1 = Fips180.Sha1.standard.hash text :=
  follows.finalize_calls hbuf hfits hwritten hlength

theorem finalize_eq_sha1_abc :
    (csha1.finalize (csha1.calls (List.replicate 64 0) [.write [97], .write [98, 99]])).1 =
      Fips180.Sha1.standard.hash [97, 98, 99] :=
  finalize_eq_sha1 _ rfl _ (by simp [Fits]) _ rfl (by decide)

end Exc.Hash.Sha1
