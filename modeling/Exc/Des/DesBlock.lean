import Exc.Des.DES
import Exc.Lib.Bits
import Exc.Lib.Feistel
import Mathlib.Tactic.IntervalCases

/-!
# One block of DES

`desfunc` works on words that may be longer than 32 bits. What comes out in the low 32 bits is a
function of what goes in there: the shifts to the right are masked, except in the rounds, where the
words have nothing above. So `desfunc` is a Feistel network on words of 32 bits between the two
parts before and after the loop (`setWidth_desfunc`), and these two undo each other.

`deskey` fills in the same pairs of words for encryption and decryption, the other way round
(`keyPairs_deskey`). With that `des_block` for decryption undoes `des_block` for encryption
(`desBlock_desBlock`).
-/

set_option autoImplicit false
set_option relaxedAutoImplicit false

namespace Exc.Des

open Lib BitVec

variable {w : ℕ}

/-- The low 32 bits of two words. -/
def low (words : BitVec w × BitVec w) : BitVec 32 × BitVec 32 :=
  words.map (setWidth 32) (setWidth 32)

/-! ### Before and after the loop -/

/-- A word of 32 bits rotated to the left. -/
def rotateUp (word : BitVec w) : BitVec w :=
  ((word <<< 1) ||| ((word >>> 31) &&& 1)) &&& 0xffffffff

/-- A word of 32 bits rotated to the right, with something above it. -/
def rotateDown (word : BitVec w) : BitVec w :=
  (word <<< 31) ||| (word >>> 1)

theorem maskedSwap_zero (mask : ℕ) (words : BitVec w × BitVec w) :
    maskedSwap 0 mask words = (words.1 ^^^ ((words.1 ^^^ words.2) &&& BitVec.ofNat w mask),
      words.2 ^^^ ((words.1 ^^^ words.2) &&& BitVec.ofNat w mask)) := by
  simp [maskedSwap]

theorem maskedSwap_zero_swap (mask : ℕ) (words : BitVec w × BitVec w) :
    maskedSwap 0 mask words.swap = (maskedSwap 0 mask words).swap := by
  simp [maskedSwap_zero, BitVec.xor_comm words.2 words.1]

theorem initialPart_eq (block : BitVec w × BitVec w) :
    initialPart block = Prod.map rotateUp id (maskedSwap 0 0xaaaaaaaa (Prod.map id rotateUp
      (maskedSwap 8 0x00ff00ff (maskedSwap 2 0x33333333
        (maskedSwap 16 0x0000ffff (maskedSwap 4 0x0f0f0f0f block)).swap)).swap)) := by
  rw [maskedSwap_zero]
  rfl

theorem finalPart_eq (halves : BitVec w × BitVec w) :
    finalPart halves = maskedSwap 4 0x0f0f0f0f (maskedSwap 16 0x0000ffff
      (maskedSwap 2 0x33333333 (maskedSwap 8 0x00ff00ff (Prod.map rotateDown id
        (maskedSwap 0 0xaaaaaaaa (Prod.map id rotateDown halves))))).swap) := by
  rw [maskedSwap_zero]
  rfl

theorem getLsbD_rotateUp (hwidth : 32 ≤ w) (word : BitVec w) {i : ℕ} (hi : i < 32) :
    (rotateUp word).getLsbD i = word.getLsbD (if i = 0 then 31 else i - 1) := by
  have hmask : (0xffffffff : BitVec w).getLsbD i = true := by
    change (BitVec.ofNat w 0xffffffff).getLsbD i = true
    rw [getLsbD_ofNat, show 0xffffffff = 2 ^ 32 - 1 by decide, Nat.testBit_two_pow_sub_one]
    simp [hi, hi.trans_le hwidth]
  have hone : (1 : BitVec w).getLsbD i = decide (i = 0) := by
    change (BitVec.ofNat w 1).getLsbD i = _
    rw [getLsbD_ofNat]
    rcases Nat.eq_zero_or_pos i with rfl | hpos
    · simp [show 0 < w by omega]
    · simp [Nat.testBit_lt_two_pow (Nat.one_lt_two_pow hpos.ne'), hpos.ne']
  simp only [rotateUp, getLsbD_and, getLsbD_or, getLsbD_shiftLeft, getLsbD_ushiftRight, hmask, hone]
  rcases Nat.eq_zero_or_pos i with rfl | hpos
  · simp
  · simp [hpos.ne', hi.trans_le hwidth, show ¬i < 1 by omega]

theorem getLsbD_rotateDown (hwidth : 32 ≤ w) {word : BitVec w} (hshort : IsShort 32 word) {i : ℕ}
    (hi : i < 32) :
    (rotateDown word).getLsbD i = word.getLsbD (if i = 31 then 0 else i + 1) := by
  have habove : word.getLsbD 32 = false := by
    rw [← hshort]
    simp
  simp only [rotateDown, getLsbD_or, getLsbD_shiftLeft, getLsbD_ushiftRight]
  by_cases hlast : i = 31
  · subst hlast
    simp [habove, show 31 < w by omega]
  · simp [hlast, show i < 31 by omega, Nat.add_comm]

theorem isShort_of_le {word : BitVec w} (hwidth : w ≤ 32) : IsShort 32 word := by
  rw [IsShort, setWidth_setWidth_of_le word hwidth, setWidth_eq]

theorem rotateDown_rotateUp (word : BitVec 32) : rotateDown (rotateUp word) = word := by
  refine eq_of_getLsbD_eq fun i hi ↦ ?_
  rw [getLsbD_rotateDown le_rfl (isShort_of_le le_rfl) hi]
  split_ifs with hlast
  · rw [getLsbD_rotateUp le_rfl word (by omega), if_pos rfl, hlast]
  · rw [getLsbD_rotateUp le_rfl word (by omega), if_neg (by omega), Nat.add_sub_cancel]

theorem rotateUp_rotateDown (word : BitVec 32) : rotateUp (rotateDown word) = word := by
  refine eq_of_getLsbD_eq fun i hi ↦ ?_
  rw [getLsbD_rotateUp le_rfl (rotateDown word) hi]
  split_ifs with hzero
  · rw [getLsbD_rotateDown le_rfl (isShort_of_le le_rfl) (by omega), if_pos rfl, hzero]
  · rw [getLsbD_rotateDown le_rfl (isShort_of_le le_rfl) (by omega), if_neg (by omega),
      Nat.sub_add_cancel (by omega)]

/-- What comes after the loop undoes what comes before it, with the halves exchanged. -/
theorem finalPart_initialPart (block : BitVec 32 × BitVec 32) :
    finalPart (initialPart block).swap = block := by
  have hright (halves : BitVec 32 × BitVec 32) :
      Prod.map id rotateDown (Prod.map rotateUp id halves).swap = halves.swap :=
    Prod.ext rfl (rotateDown_rotateUp halves.1)
  have hleftt (halves : BitVec 32 × BitVec 32) :
      Prod.map rotateDown id (Prod.map id rotateUp halves.swap).swap = halves :=
    Prod.ext (rotateDown_rotateUp halves.1) rfl
  rw [finalPart_eq, initialPart_eq, hright, maskedSwap_zero_swap,
    maskedSwap_maskedSwap (by decide), hleftt, maskedSwap_maskedSwap (by decide),
    maskedSwap_maskedSwap (by decide), Prod.swap_swap, maskedSwap_maskedSwap (by decide),
    maskedSwap_maskedSwap (by decide)]

theorem initialPart_finalPart (halves : BitVec 32 × BitVec 32) :
    initialPart (finalPart halves) = halves.swap := by
  have hright (halves : BitVec 32 × BitVec 32) :
      Prod.map id rotateUp (Prod.map rotateDown id halves).swap = halves.swap :=
    Prod.ext rfl (rotateUp_rotateDown halves.1)
  have hleftt (halves : BitVec 32 × BitVec 32) :
      Prod.map rotateUp id (Prod.map id rotateDown halves).swap = halves.swap :=
    Prod.ext (rotateUp_rotateDown halves.2) rfl
  rw [initialPart_eq, finalPart_eq, maskedSwap_maskedSwap (by decide),
    maskedSwap_maskedSwap (by decide), Prod.swap_swap, maskedSwap_maskedSwap (by decide),
    maskedSwap_maskedSwap (by decide), hright, maskedSwap_zero_swap,
    maskedSwap_maskedSwap (by decide), hleftt]

/-! ### The low bits -/

section Low

variable (hwidth : 32 ≤ w)

include hwidth

theorem setWidth_rotateUp (word : BitVec w) :
    setWidth 32 (rotateUp word) = rotateUp (setWidth 32 word) := by
  refine eq_of_getLsbD_eq fun i hi ↦ ?_
  rw [getLsbD_setWidth, getLsbD_rotateUp hwidth word hi, getLsbD_rotateUp le_rfl _ hi,
    getLsbD_setWidth]
  split_ifs
  · simp [hi]
  · simp [hi, show i - 1 < 32 by omega]

theorem setWidth_rotateDown {word : BitVec w} (hshort : IsShort 32 word) :
    setWidth 32 (rotateDown word) = rotateDown (setWidth 32 word) := by
  refine eq_of_getLsbD_eq fun i hi ↦ ?_
  rw [getLsbD_setWidth, getLsbD_rotateDown hwidth hshort hi,
    getLsbD_rotateDown le_rfl (isShort_of_le le_rfl) hi, getLsbD_setWidth]
  split_ifs
  · simp [hi]
  · simp [hi, show i + 1 < 32 by omega]

theorem low_maskedSwap {n mask : ℕ} (hmask : mask < 2 ^ (32 - n)) (words : BitVec w × BitVec w) :
    low (maskedSwap n mask words) = maskedSwap n mask (low words) :=
  setWidth_maskedSwap hwidth hmask words

theorem low_initialPart (block : BitVec w × BitVec w) :
    low (initialPart block) = initialPart (low block) := by
  have hfirst (words : BitVec w × BitVec w) :
      low (Prod.map rotateUp id words) = Prod.map rotateUp id (low words) := by
    simp [low, Prod.map, setWidth_rotateUp hwidth]
  have hsecond (words : BitVec w × BitVec w) :
      low (Prod.map id rotateUp words.swap) = Prod.map id rotateUp (low words).swap := by
    simp [low, Prod.map, setWidth_rotateUp hwidth]
  have hswap (words : BitVec w × BitVec w) : low words.swap = (low words).swap := rfl
  rw [initialPart_eq, initialPart_eq, hfirst, low_maskedSwap hwidth (by decide), hsecond,
    low_maskedSwap hwidth (by decide), low_maskedSwap hwidth (by decide), hswap,
    low_maskedSwap hwidth (by decide), low_maskedSwap hwidth (by decide)]

/-- Behind the loop only the halves themselves have to be short. -/
theorem low_finalPart {halves : BitVec w × BitVec w} (hleftt : IsShort 32 halves.1)
    (hright : IsShort 32 halves.2) : low (finalPart halves) = finalPart (low halves) := by
  have hsecond : low (Prod.map id rotateDown halves) = Prod.map id rotateDown (low halves) := by
    simp [low, Prod.map, setWidth_rotateDown hwidth hright]
  have hfirst {words : BitVec w × BitVec w} (hshort : IsShort 32 words.1) :
      low (Prod.map rotateDown id words) = Prod.map rotateDown id (low words) := by
    simp [low, Prod.map, setWidth_rotateDown hwidth hshort]
  have hswap (words : BitVec w × BitVec w) : low words.swap = (low words).swap := rfl
  have hshort : IsShort 32 (maskedSwap 0 0xaaaaaaaa (Prod.map id rotateDown halves)).1 := by
    rw [maskedSwap_zero]
    exact hleftt.xor (isShort_and (by decide) _)
  rw [finalPart_eq, finalPart_eq, low_maskedSwap hwidth (by decide),
    low_maskedSwap hwidth (by decide), hswap, low_maskedSwap hwidth (by decide),
    low_maskedSwap hwidth (by decide), hfirst hshort, low_maskedSwap hwidth (by decide), hsecond]

end Low

/-! ### The rounds -/

theorem isShort_initialPart (block : BitVec w × BitVec w) :
    IsShort 32 (initialPart block).1 ∧ IsShort 32 (initialPart block).2 := by
  rw [initialPart_eq, maskedSwap_zero]
  exact ⟨isShort_and (by decide) _, (isShort_and (by decide) _).xor (isShort_and (by decide) _)⟩

/-- All entries of a table are words of 32 bits. -/
theorem isShort_lookup {table : List ℕ} (htable : ∀ entry ∈ table, entry < 2 ^ 32)
    (index : BitVec w) : IsShort 32 (lookup table index) := by
  have hentry : table.getD index.toNat 0 < 2 ^ 32 := by
    by_cases hindex : index.toNat < table.length
    · rw [List.getD_eq_getElem _ _ hindex]
      exact htable _ (List.getElem_mem hindex)
    · rw [List.getD_eq_default _ _ (by omega)]
      decide
  have hmod : table.getD index.toNat 0 % 2 ^ w < 2 ^ 32 := (Nat.mod_le _ _).trans_lt hentry
  refine eq_of_toNat_eq ?_
  rw [lookup, toNat_setWidth, toNat_setWidth, toNat_ofNat, Nat.mod_eq_of_lt hmod, Nat.mod_mod]

theorem isShort_fval (half : BitVec w) (keys : BitVec w × BitVec w) :
    IsShort 32 (fval half keys) := by
  have hSP1 (index : BitVec w) : IsShort 32 (lookup SP1 index) :=
    isShort_lookup (by decide) index
  have hSP2 (index : BitVec w) : IsShort 32 (lookup SP2 index) :=
    isShort_lookup (by decide) index
  have hSP3 (index : BitVec w) : IsShort 32 (lookup SP3 index) :=
    isShort_lookup (by decide) index
  have hSP4 (index : BitVec w) : IsShort 32 (lookup SP4 index) :=
    isShort_lookup (by decide) index
  have hSP5 (index : BitVec w) : IsShort 32 (lookup SP5 index) :=
    isShort_lookup (by decide) index
  have hSP6 (index : BitVec w) : IsShort 32 (lookup SP6 index) :=
    isShort_lookup (by decide) index
  have hSP7 (index : BitVec w) : IsShort 32 (lookup SP7 index) :=
    isShort_lookup (by decide) index
  have hSP8 (index : BitVec w) : IsShort 32 (lookup SP8 index) :=
    isShort_lookup (by decide) index
  exact (((((((hSP7 _).or (hSP5 _)).or (hSP3 _)).or (hSP1 _)).or (hSP8 _)).or (hSP6 _)).or
    (hSP4 _)).or (hSP2 _)

/-- `fval` on words of 32 bits. -/
def roundFunction (half : BitVec 32) (keys : BitVec w × BitVec w) : BitVec 32 :=
  setWidth 32 (fval (setWidth w half) keys)

/-- The words of `KnL`, as the rounds use them. -/
def keyPair (keys : List (BitVec w)) (i : ℕ) : BitVec w × BitVec w :=
  (keys.getD (2 * i) 0, keys.getD (2 * i + 1) 0)

/-- A half changed by `fval` of the other half. -/
theorem setWidth_round {first second : BitVec w} (hsecond : IsShort 32 second)
    (keys : BitVec w × BitVec w) :
    setWidth 32 (first ^^^ fval second keys) =
      setWidth 32 first ^^^ roundFunction (setWidth 32 second) keys := by
  rw [setWidth_xor, roundFunction, hsecond]

/-- A round of the loop of `desfunc` is two rounds of a Feistel network, and leaves nothing above
the low bits. -/
theorem low_loopRound (keys : List (BitVec w)) {halves : BitVec w × BitVec w}
    (hleftt : IsShort 32 halves.1) (hright : IsShort 32 halves.2) (round : ℕ) :
    IsShort 32 (loopRound keys halves round).1 ∧ IsShort 32 (loopRound keys halves round).2 ∧
      low (loopRound keys halves round) = feistel (· ^^^ ·) roundFunction
        [keyPair keys (2 * round), keyPair keys (2 * round + 1)] (low halves) := by
  have hfour : 4 * round = 2 * (2 * round) := by omega
  have hnew : IsShort 32 (loopRound keys halves round).1 := hleftt.xor (isShort_fval _ _)
  have hfirst : setWidth 32 (loopRound keys halves round).1 = setWidth 32 halves.1 ^^^
      roundFunction (setWidth 32 halves.2) (keyPair keys (2 * round)) := by
    rw [keyPair, ← hfour]
    exact setWidth_round hright _
  -- The second half is changed by the new first half.
  have hsecond : setWidth 32 (loopRound keys halves round).2 = setWidth 32 halves.2 ^^^
      roundFunction (setWidth 32 (loopRound keys halves round).1)
        (keyPair keys (2 * round + 1)) := by
    rw [keyPair, Nat.mul_succ, ← hfour]
    exact setWidth_round hnew _
  refine ⟨hnew, hright.xor (isShort_fval _ _), ?_⟩
  simp only [low, Prod.map, feistel, hsecond, hfirst]

/-- The loop of `desfunc` is a Feistel network. -/
theorem loopRound_eq_feistel (keys : List (BitVec w)) {halves : BitVec w × BitVec w}
    (hleftt : IsShort 32 halves.1) (hright : IsShort 32 halves.2) (rounds : ℕ) :
    let result := (List.range rounds).foldl (loopRound keys) halves
    IsShort 32 result.1 ∧ IsShort 32 result.2 ∧
      low result = feistel (· ^^^ ·) roundFunction ((List.range (2 * rounds)).map (keyPair keys))
        (low halves) := by
  induction rounds with
  | zero => exact ⟨hleftt, hright, rfl⟩
  | succ rounds ih =>
    obtain ⟨hfirst, hsecond, hlow⟩ := ih
    obtain ⟨hnewFirst, hnewSecond, hround⟩ := low_loopRound keys hfirst hsecond rounds
    have hrange : List.range (2 * (rounds + 1)) = List.range (2 * rounds) ++
        [2 * rounds, 2 * rounds + 1] := by
      rw [Nat.mul_succ, List.range_succ, List.range_succ, List.append_assoc]
      rfl
    rw [List.range_succ, List.foldl_append, List.foldl_cons, List.foldl_nil, hrange,
      List.map_append, feistel_append, ← hlow]
    exact ⟨hnewFirst, hnewSecond, hround⟩

/-- `desfunc` in its low 32 bits. -/
theorem low_desfunc (hwidth : 32 ≤ w) (block : BitVec w × BitVec w) (keys : List (BitVec w)) :
    low (desfunc block keys) = finalPart (feistel (· ^^^ ·) roundFunction
      ((List.range 16).map (keyPair keys)) (initialPart (low block))) := by
  obtain ⟨hleftt, hright⟩ := isShort_initialPart block
  obtain ⟨hfirst, hsecond, hlow⟩ := loopRound_eq_feistel keys hleftt hright 8
  rw [desfunc, low_finalPart hwidth hfirst hsecond, hlow, low_initialPart hwidth]

/-! ### Bytes and words -/

theorem low_scrunch (hwidth : 32 ≤ w) (block : Block) :
    low (scrunch w block) = scrunch 32 block :=
  Prod.ext (setWidth_joinBytes hwidth _ _ _ _) (setWidth_joinBytes hwidth _ _ _ _)

theorem unscrun_eq (words : BitVec w × BitVec w) :
    unscrun words = #v[UInt8.ofBitVec (byteAt 24 words.1), UInt8.ofBitVec (byteAt 16 words.1),
      UInt8.ofBitVec (byteAt 8 words.1), UInt8.ofBitVec (byteAt 0 words.1),
      UInt8.ofBitVec (byteAt 24 words.2), UInt8.ofBitVec (byteAt 16 words.2),
      UInt8.ofBitVec (byteAt 8 words.2), UInt8.ofBitVec (byteAt 0 words.2)] := by
  simp [unscrun, byteAt]

theorem unscrun_low (hwidth : 32 ≤ w) (words : BitVec w × BitVec w) :
    unscrun (low words) = unscrun words := by
  have hbyte (n : ℕ) (hn : n ≤ 24) (word : BitVec w) :
      byteAt n (setWidth 32 word) = byteAt n word :=
    byteAt_setWidth (by omega) hwidth (by omega) word
  rw [unscrun_eq, unscrun_eq]
  simp only [low, Prod.map_fst, Prod.map_snd, hbyte 24 (by omega), hbyte 16 (by omega),
    hbyte 8 (by omega), hbyte 0 (by omega)]

theorem unscrun_scrunch (block : Block) : unscrun (scrunch 32 block) = block := by
  obtain ⟨h0, h1, h2, h3⟩ := byteAt_joinBytes (block.get 0).toBitVec (block.get 1).toBitVec
    (block.get 2).toBitVec (block.get 3).toBitVec
  obtain ⟨h4, h5, h6, h7⟩ := byteAt_joinBytes (block.get 4).toBitVec (block.get 5).toBitVec
    (block.get 6).toBitVec (block.get 7).toBitVec
  have hwords : scrunch 32 block =
      (joinBytes 32 (block.get 0).toBitVec (block.get 1).toBitVec (block.get 2).toBitVec
        (block.get 3).toBitVec,
      joinBytes 32 (block.get 4).toBitVec (block.get 5).toBitVec (block.get 6).toBitVec
        (block.get 7).toBitVec) := rfl
  rw [unscrun_eq, hwords]
  simp only [h0, h1, h2, h3, h4, h5, h6, h7]
  refine Vector.ext fun i hi ↦ ?_
  interval_cases i <;> rfl

theorem scrunch_unscrun (words : BitVec 32 × BitVec 32) : scrunch 32 (unscrun words) = words := by
  rw [unscrun_eq]
  exact Prod.ext (joinBytes_byteAt words.1) (joinBytes_byteAt words.2)

/-! ### Keys -/

/-- The places that a loop fills in different rounds are different. -/
def Apart (m : ℕ → ℕ) : Prop :=
  ∀ i < 16, m i + 1 < 32 ∧ ∀ j < 16, i ≠ j → m i ≠ m j ∧ m i ≠ m j + 1 ∧ m i + 1 ≠ m j

theorem fillPairs_spec {m : ℕ → ℕ} (hm : Apart m) (first second : ℕ → BitVec w) :
    (fillPairs m first second).length = 32 ∧ ∀ i < 16,
      (fillPairs m first second).getD (m i) 0 = first i ∧
        (fillPairs m first second).getD (m i + 1) 0 = second i := by
  -- The same after every number of rounds, for the places filled by then.
  have hrounds : ∀ rounds ≤ 16, ∀ array, array = (List.range rounds).foldl (fun array i ↦
      (array.set (m i) (first i)).set (m i + 1) (second i)) (List.replicate 32 0) →
      array.length = 32 ∧ ∀ i < rounds, array.getD (m i) 0 = first i ∧
        array.getD (m i + 1) 0 = second i := by
    intro rounds hrounds
    induction rounds with
    | zero =>
      rintro array rfl
      exact ⟨by simp, fun i hi ↦ by omega⟩
    | succ rounds ih =>
      rintro array rfl
      obtain ⟨hlength, hfilled⟩ := ih (by omega) _ rfl
      rw [List.range_succ, List.foldl_append, List.foldl_cons, List.foldl_nil]
      generalize (List.range rounds).foldl (fun array i ↦
        (array.set (m i) (first i)).set (m i + 1) (second i)) (List.replicate 32 0) = array at *
      refine ⟨by simpa using hlength, fun i hi ↦ ?_⟩
      obtain ⟨hin, -⟩ := hm rounds (by omega)
      rcases Nat.lt_succ_iff_lt_or_eq.mp hi with hold | rfl
      · obtain ⟨hne, hnext, hother⟩ := (hm i (by omega)).2 rounds (by omega) (by omega)
        simp only [List.getD_eq_getElem?_getD] at hfilled ⊢
        rw [List.getElem?_set_ne (by omega), List.getElem?_set_ne (by omega),
          List.getElem?_set_ne (by omega), List.getElem?_set_ne (by omega)]
        exact hfilled i hold
      · simp only [List.getD_eq_getElem?_getD]
        rw [List.getElem?_set_ne (by omega), List.getElem?_set_self (by omega),
          List.getElem?_set_self (by simp; omega)]
        exact ⟨rfl, rfl⟩
  exact hrounds 16 le_rfl _ rfl

theorem apart_double : Apart fun i ↦ 2 * i := by
  intro i hi
  dsimp only
  exact ⟨by omega, fun j hj hne ↦ by omega⟩

theorem apart_position (md : Mode) : Apart md.position := by
  intro i hi
  cases md with
  | encrypt =>
    simp only [Mode.position, Nat.shiftLeft_eq]
    exact ⟨by omega, fun j hj hne ↦ by omega⟩
  | decrypt =>
    simp only [Mode.position, Nat.shiftLeft_eq]
    exact ⟨by omega, fun j hj hne ↦ by omega⟩

theorem keyPair_cookey (raw : List (BitVec w)) :
    (cookey raw).length = 32 ∧ ∀ i < 16, keyPair (cookey raw) i =
      cook (raw.getD (2 * i) 0) (raw.getD (2 * i + 1) 0) := by
  obtain ⟨hlength, hdough⟩ := fillPairs_spec apart_double
    (fun i ↦ (cook (raw.getD (2 * i) 0) (raw.getD (2 * i + 1) 0)).1)
    fun i ↦ (cook (raw.getD (2 * i) 0) (raw.getD (2 * i + 1) 0)).2
  rw [cookey]
  refine ⟨hlength, fun i hi ↦ ?_⟩
  rw [keyPair, (hdough i hi).1, (hdough i hi).2]

/-- The words that `deskey` makes in round `j` are at the place of that round in its mode. -/
theorem keyPair_deskey (key : Block) (md : Mode) {i j : ℕ} (hi : i < 16) (hj : j < 16)
    (hplace : md.position j = 2 * i) :
    keyPair (deskey w key md) i = cook (knPart w key j 0) (knPart w key j 24) := by
  obtain ⟨hlength, hcooked⟩ := keyPair_cookey (kn w key md)
  obtain ⟨-, hkn⟩ := fillPairs_spec (apart_position md) (fun i ↦ knPart w key i 0)
    fun i ↦ knPart w key i 24
  obtain ⟨hraw0, hraw1⟩ := hkn j hj
  rw [hplace] at hraw0 hraw1
  rw [deskey, usekey, List.take_of_length_le hlength.le, hcooked i hi, kn, hraw0, hraw1]

/-- Decryption has the words of encryption in reverse order. -/
theorem keyPairs_deskey (key : Block) :
    (List.range 16).map (keyPair (deskey w key .decrypt)) =
      ((List.range 16).map (keyPair (deskey w key .encrypt))).reverse := by
  have hreverse : (List.range 16).reverse = (List.range 16).map fun i ↦ 15 - i := by decide
  rw [← List.map_reverse, hreverse, List.map_map]
  refine List.map_congr_left fun i hi ↦ ?_
  have hlt := List.mem_range.mp hi
  have hencrypt : keyPair (deskey w key .encrypt) (15 - i) =
      cook (knPart w key (15 - i) 0) (knPart w key (15 - i) 24) :=
    keyPair_deskey key .encrypt (by omega) (by omega)
      (by simp only [Mode.position, Nat.shiftLeft_eq]; omega)
  have hdecrypt : keyPair (deskey w key .decrypt) i =
      cook (knPart w key (15 - i) 0) (knPart w key (15 - i) 24) :=
    keyPair_deskey key .decrypt (by omega) (by omega)
      (by simp only [Mode.position, Nat.shiftLeft_eq]; omega)
  rw [Function.comp_apply, hencrypt, hdecrypt]

/-- `des_block` for decryption undoes `des_block` for encryption. -/
theorem desBlock_desBlock (hwidth : 32 ≤ w) (key : Block) (block : Block) :
    desBlock (deskey w key .decrypt) (desBlock (deskey w key .encrypt) block) = block := by
  have hblock (md : Mode) (input : Block) : desBlock (deskey w key md) input =
      unscrun (finalPart (feistel (· ^^^ ·) roundFunction
        ((List.range 16).map (keyPair (deskey w key md))) (initialPart (scrunch 32 input)))) := by
    rw [desBlock, ← unscrun_low hwidth, low_desfunc hwidth, low_scrunch hwidth]
  have hxor (half value : BitVec 32) : half ^^^ value ^^^ value = half := by
    rw [BitVec.xor_assoc, BitVec.xor_self, BitVec.xor_zero]
  rw [hblock, hblock, scrunch_unscrun, initialPart_finalPart, keyPairs_deskey, feistel_reverse hxor,
    finalPart_initialPart, unscrun_scrunch]

end Exc.Des
