import Mathlib.Data.BitVec
import Mathlib.Logic.Function.Iterate

/-!
# Cyclic redundancy checks

A CRC with reflected bits, of any width and any polynomial. `bitSerial` feeds a message into the
register bit by bit, and each bit costs one `shiftStep`. The step is linear in exclusive or, so that
two messages that go into two registers are one message, their difference, that goes into the
difference of the registers (`bitSerial_xor`); and up to as many bits as the register has can be
added at once before they are shifted (`bitSerial_eq_iterate`).

The two results are what programs rely on. A table with an entry for each byte replaces eight steps
(`shiftStep_iterate_low`). And when the polynomial has its highest bit, so that a step loses
nothing, messages that differ in a burst no longer than the register have different checks
(`bitSerial_ne_of_burst`).
-/

set_option autoImplicit false
set_option relaxedAutoImplicit false

namespace Exc.Lib

open BitVec

variable {w : ℕ}

/-- The low bit of the register is shifted out, and the polynomial is added when it was set. -/
def shiftStep (poly register : BitVec w) : BitVec w :=
  if register.getLsbD 0 then (register >>> 1) ^^^ poly else register >>> 1

/-- A register with one bit. -/
def lowBit (w : ℕ) (bit : Bool) : BitVec w := setWidth w (ofBool bit)

/-- A bit of the message is added to the low bit of the register, which is shifted then. -/
def bitStep (poly register : BitVec w) (bit : Bool) : BitVec w :=
  shiftStep poly (register ^^^ lowBit w bit)

/-- The register after the bits of a message. -/
def bitSerial (poly register : BitVec w) (bits : List Bool) : BitVec w :=
  bits.foldl (bitStep poly) register

/-- Bits as a register, the first one lowest. -/
def packBits (w : ℕ) : List Bool → BitVec w
  | [] => 0#w
  | bit :: bits => lowBit w bit ^^^ (packBits w bits <<< 1)

/-- The bits of a byte, the least significant one first. -/
def byteBits (byte : UInt8) : List Bool := (List.range 8).map byte.toBitVec.getLsbD

@[simp] theorem length_byteBits (byte : UInt8) : (byteBits byte).length = 8 := by
  rw [byteBits, List.length_map, List.length_range]

theorem getLsbD_lowBit (bit : Bool) (i : ℕ) :
    (lowBit w bit).getLsbD i = (decide (i < w) && (decide (i = 0) && bit)) := by
  rw [lowBit, getLsbD_setWidth, getLsbD_ofBool]

@[simp] theorem lowBit_false : lowBit w false = 0#w := by
  refine eq_of_getLsbD_eq fun i _ ↦ ?_
  simp [getLsbD_lowBit]

theorem lowBit_xor (first second : Bool) :
    lowBit w (first ^^ second) = lowBit w first ^^^ lowBit w second := by
  refine eq_of_getLsbD_eq fun i hi ↦ ?_
  rw [getLsbD_xor, getLsbD_lowBit, getLsbD_lowBit, getLsbD_lowBit]
  cases first <;> cases second <;> simp

theorem getLsbD_packBits (bits : List Bool) (i : ℕ) :
    (packBits w bits).getLsbD i = (decide (i < w) && bits[i]?.getD false) := by
  induction bits generalizing i with
  | nil => simp [packBits]
  | cons bit bits ih =>
    rw [packBits, getLsbD_xor, getLsbD_lowBit, getLsbD_shiftLeft, ih]
    cases i with
    | zero => simp
    | succ i =>
      by_cases hi : i + 1 < w
      · simp [hi, show i < w by omega]
      · simp [hi]

/-- A byte is packed from its bits. -/
theorem packBits_byteBits (byte : UInt8) :
    packBits w (byteBits byte) = setWidth w byte.toBitVec := by
  refine eq_of_getLsbD_eq fun i hi ↦ ?_
  rw [getLsbD_packBits, getLsbD_setWidth, byteBits]
  by_cases hbyte : i < 8
  · simp [hi, hbyte]
  · simp [hbyte, getLsbD_of_ge byte.toBitVec i (by omega)]

/-! ### The step -/

theorem shiftStep_xor (poly first second : BitVec w) :
    shiftStep poly (first ^^^ second) = shiftStep poly first ^^^ shiftStep poly second := by
  simp only [shiftStep, getLsbD_xor, ushiftRight_xor_distrib]
  cases first.getLsbD 0 <;> cases second.getLsbD 0 <;>
    simp only [Bool.false_xor, Bool.true_xor, Bool.not_true, Bool.not_false, if_true,
      Bool.false_eq_true, if_false]
  · ac_rfl
  · ac_rfl
  · -- both low bits are set, and the polynomial is added twice
    rw [BitVec.xor_assoc, BitVec.xor_comm poly, BitVec.xor_assoc, BitVec.xor_self, BitVec.xor_zero]

@[simp] theorem shiftStep_zero (poly : BitVec w) : shiftStep poly 0#w = 0#w := by
  simp [shiftStep]

theorem shiftStep_iterate_xor (poly : BitVec w) (count : ℕ) (first second : BitVec w) :
    (shiftStep poly)^[count] (first ^^^ second) =
      (shiftStep poly)^[count] first ^^^ (shiftStep poly)^[count] second := by
  induction count generalizing first second with
  | zero => rfl
  | succ count ih => rw [Function.iterate_succ_apply, shiftStep_xor, ih]; rfl

/-- A step undoes a shift that loses no bit. -/
theorem shiftStep_shiftLeft (poly : BitVec w) {register : BitVec w}
    (hhigh : register.getLsbD (w - 1) = false) : shiftStep poly (register <<< 1) = register := by
  have hlow : (register <<< 1).getLsbD 0 = false := by simp
  rw [shiftStep, hlow, if_neg Bool.false_ne_true]
  refine eq_of_getLsbD_eq fun i hi ↦ ?_
  rw [getLsbD_ushiftRight, getLsbD_shiftLeft, Nat.add_sub_cancel_left]
  by_cases hlast : i = w - 1
  · subst hlast
    simp [hhigh]
  · simp [show 1 + i < w by omega]

/-- A register whose low bits are clear only moves down. -/
theorem shiftStep_iterate_of_low (poly : BitVec w) {register : BitVec w} {count : ℕ}
    (hlow : ∀ i < count, register.getLsbD i = false) :
    (shiftStep poly)^[count] register = register >>> count := by
  induction count with
  | zero => simp
  | succ count ih =>
    have hbit : (register >>> count).getLsbD 0 = false := by
      rw [getLsbD_ushiftRight]
      exact hlow count (Nat.lt_succ_self count)
    rw [Function.iterate_succ_apply', ih fun i hi ↦ hlow i (Nat.lt_succ_of_lt hi), shiftStep, hbit,
      if_neg Bool.false_ne_true, shiftRight_add]

/-- Eight steps: those of the low byte, and the rest of the register moves down. -/
theorem shiftStep_iterate_low (poly register : BitVec w) :
    (shiftStep poly)^[8] register =
      (register >>> 8) ^^^ (shiftStep poly)^[8] (register &&& BitVec.ofNat w 255) := by
  have hmask (i : ℕ) : (BitVec.ofNat w 255).getLsbD i = (decide (i < w) && decide (i < 8)) := by
    rw [getLsbD_ofNat, show (255 : ℕ) = 2 ^ 8 - 1 from rfl, Nat.testBit_two_pow_sub_one]
  have hsplit : register =
      (register &&& ~~~(BitVec.ofNat w 255)) ^^^ (register &&& BitVec.ofNat w 255) := by
    refine eq_of_getLsbD_eq fun i hi ↦ ?_
    rw [getLsbD_xor, getLsbD_and, getLsbD_and, getLsbD_not]
    cases register.getLsbD i <;> cases (BitVec.ofNat w 255).getLsbD i <;> simp [hi]
  have hclear (i : ℕ) (hi : i < 8) :
      (register &&& ~~~(BitVec.ofNat w 255)).getLsbD i = false := by
    rw [getLsbD_and, getLsbD_not, hmask]
    by_cases hwidth : i < w <;> simp [hi, hwidth]
  have hhigh : (register &&& ~~~(BitVec.ofNat w 255)) >>> 8 = register >>> 8 := by
    refine eq_of_getLsbD_eq fun i _ ↦ ?_
    rw [getLsbD_ushiftRight, getLsbD_ushiftRight, getLsbD_and, getLsbD_not, hmask]
    by_cases hwidth : 8 + i < w
    · simp [hwidth]
    · simp [getLsbD_of_ge register (8 + i) (by omega)]
  conv_lhs => rw [hsplit]
  rw [shiftStep_iterate_xor, shiftStep_iterate_of_low poly hclear, hhigh]

/-- With the highest bit in the polynomial a step loses nothing. -/
theorem shiftStep_ne_zero {poly register : BitVec w} (hpoly : poly.msb = true)
    (hregister : register ≠ 0#w) : shiftStep poly register ≠ 0#w := by
  intro hzero
  have hpos : 0 < w := by
    by_contra hw
    obtain rfl : w = 0 := by omega
    exact hregister (Subsingleton.elim _ _)
  cases hlow : register.getLsbD 0 with
  | true =>
    rw [shiftStep, hlow, if_pos rfl] at hzero
    have hbit := congrArg BitVec.msb hzero
    rw [msb_xor, hpoly, msb_eq_getLsbD_last, getLsbD_ushiftRight,
      getLsbD_of_ge register (1 + (w - 1)) (by omega)] at hbit
    simp at hbit
  | false =>
    rw [shiftStep, hlow, if_neg Bool.false_ne_true] at hzero
    refine hregister (eq_of_getLsbD_eq fun i hi ↦ ?_)
    obtain _ | i := i
    · simpa using hlow
    · have hbit := congrArg (fun result ↦ result.getLsbD i) hzero
      simpa [getLsbD_ushiftRight, Nat.add_comm 1 i] using hbit

/-! ### Messages -/

theorem bitSerial_append (poly register : BitVec w) (first second : List Bool) :
    bitSerial poly register (first ++ second) =
      bitSerial poly (bitSerial poly register first) second := List.foldl_append

/-- The difference of two messages in the difference of two registers. -/
theorem bitSerial_xor (poly : BitVec w) {first second : List Bool}
    (hlength : first.length = second.length) (left right : BitVec w) :
    bitSerial poly (left ^^^ right) (List.zipWith xor first second) =
      bitSerial poly left first ^^^ bitSerial poly right second := by
  induction first generalizing second left right with
  | nil =>
    obtain rfl := List.length_eq_zero_iff.mp hlength.symm
    rfl
  | cons bit first ih =>
    obtain _ | ⟨other, second⟩ := second
    · simp at hlength
    · have hstep : bitStep poly (left ^^^ right) (bit ^^ other) =
          bitStep poly left bit ^^^ bitStep poly right other := by
        rw [bitStep, bitStep, bitStep, ← shiftStep_xor, lowBit_xor]
        congr 1
        ac_rfl
      simp only [bitSerial, List.zipWith_cons_cons, List.foldl_cons, hstep]
      exact ih (by simpa using hlength) _ _

/-- As many bits as the register has can be added before they are shifted. By induction over the
bits: the first one is added, and the others wait one place higher. -/
theorem bitSerial_eq_iterate (poly register : BitVec w) {bits : List Bool}
    (hbits : bits.length ≤ w) :
    bitSerial poly register bits =
      (shiftStep poly)^[bits.length] (register ^^^ packBits w bits) := by
  induction bits generalizing register with
  | nil => simp [bitSerial, packBits]
  | cons bit bits ih =>
    rw [List.length_cons] at hbits
    have hhigh : (packBits w bits).getLsbD (w - 1) = false := by
      rw [getLsbD_packBits, List.getElem?_eq_none (by omega), Option.getD_none, Bool.and_false]
    have hstep : bitStep poly register bit ^^^ packBits w bits =
        shiftStep poly (register ^^^ packBits w (bit :: bits)) := by
      rw [packBits, ← BitVec.xor_assoc, shiftStep_xor, shiftStep_shiftLeft poly hhigh, bitStep]
    rw [List.length_cons, Function.iterate_succ_apply, ← hstep, ← ih _ (by omega)]
    rfl

/-- A byte is added to the register, and its bits are shifted out. -/
theorem bitSerial_byteBits (hwidth : 8 ≤ w) (poly register : BitVec w) (byte : UInt8) :
    bitSerial poly register (byteBits byte) =
      (shiftStep poly)^[8] (register ^^^ setWidth w byte.toBitVec) := by
  rw [bitSerial_eq_iterate poly register (by rwa [length_byteBits]), length_byteBits,
    packBits_byteBits]

/-- Bits that are not set only shift the register. -/
theorem bitSerial_replicate (poly register : BitVec w) (count : ℕ) :
    bitSerial poly register (List.replicate count false) =
      (shiftStep poly)^[count] register := by
  induction count generalizing register with
  | zero => rfl
  | succ count ih =>
    have hstep : bitStep poly register false = shiftStep poly register := by
      rw [bitStep, lowBit_false, BitVec.xor_zero]
    rw [List.replicate_succ, Function.iterate_succ_apply, ← hstep, ← ih]
    rfl

/-- A message that is a burst no longer than the register leaves a register that is not zero. -/
theorem bitSerial_burst_ne_zero {poly : BitVec w} (hpoly : poly.msb = true) (before after : ℕ)
    {burst : List Bool} (hburst : burst.length ≤ w) (hset : true ∈ burst) :
    bitSerial poly 0#w (List.replicate before false ++ burst ++ List.replicate after false) ≠
      0#w := by
  have hiterate (count : ℕ) (register : BitVec w) (hregister : register ≠ 0#w) :
      (shiftStep poly)^[count] register ≠ 0#w := by
    induction count with
    | zero => exact hregister
    | succ count ih =>
      rw [Function.iterate_succ_apply']
      exact shiftStep_ne_zero hpoly ih
  have hquiet : bitSerial poly 0#w (List.replicate before false) = 0#w := by
    rw [bitSerial_replicate]
    exact Function.iterate_fixed (shiftStep_zero poly) before
  have hpack : packBits w burst ≠ 0#w := by
    intro hzero
    obtain ⟨i, hi, hbit⟩ := List.getElem_of_mem hset
    have hlsb := getLsbD_packBits (w := w) burst i
    rw [hzero, List.getElem?_eq_getElem hi, hbit] at hlsb
    simp [hi.trans_le hburst] at hlsb
  have hmiddle : bitSerial poly 0#w (List.replicate before false ++ burst) ≠ 0#w := by
    rw [bitSerial_append, hquiet, bitSerial_eq_iterate poly 0#w hburst, BitVec.zero_xor]
    exact hiterate _ _ hpack
  rw [bitSerial_append, bitSerial_replicate]
  exact hiterate _ _ hmiddle

/-- The bits that are set in the difference of two messages are those in which they differ. -/
theorem getElem?_zipWith_xor {first second : List Bool} (hlength : first.length = second.length)
    (i : ℕ) : (List.zipWith xor first second)[i]? = some true ↔ first[i]? ≠ second[i]? := by
  rw [List.getElem?_zipWith_eq_some]
  constructor
  · rintro ⟨bit, other, hbit, hother, hxor⟩ hsame
    rw [hbit, hother] at hsame
    rw [Option.some.inj hsame, Bool.xor_self] at hxor
    cases hxor
  · intro hdiffer
    by_cases hi : i < first.length
    · rw [List.getElem?_eq_getElem hi, List.getElem?_eq_getElem (hlength ▸ hi)] at hdiffer
      exact ⟨_, _, List.getElem?_eq_getElem hi, List.getElem?_eq_getElem (hlength ▸ hi),
        by simpa using hdiffer⟩
    · rw [List.getElem?_eq_none (not_lt.mp hi),
        List.getElem?_eq_none (hlength ▸ not_lt.mp hi)] at hdiffer
      exact absurd rfl hdiffer

theorem eq_replicate_false {bits : List Bool} (hbits : true ∉ bits) :
    bits = List.replicate bits.length false :=
  List.eq_replicate_of_mem fun bit hmem ↦ by
    cases bit with
    | false => rfl
    | true => exact absurd hmem hbits

/-- Bits of which only those of a window are set are a burst between bits that are not. -/
theorem eq_burst {bits : List Bool} {start width : ℕ}
    (hwindow : ∀ i, bits[i]? = some true → start ≤ i ∧ i < start + width) :
    ∃ before after, bits = List.replicate before false ++ (bits.drop start).take width ++
      List.replicate after false := by
  have hbefore : true ∉ bits.take start := fun hmem ↦ by
    obtain ⟨i, hi, htrue⟩ := List.mem_take_iff_getElem.mp hmem
    have hget := List.getElem?_eq_getElem (hi.trans_le (Nat.min_le_right _ _))
    rw [htrue] at hget
    exact absurd (hwindow i hget).1 (by omega)
  have hafter : true ∉ (bits.drop start).drop width := fun hmem ↦ by
    obtain ⟨i, hi⟩ := List.mem_iff_getElem?.mp hmem
    rw [List.getElem?_drop, List.getElem?_drop] at hi
    exact absurd (hwindow _ hi).2 (by omega)
  refine ⟨(bits.take start).length, ((bits.drop start).drop width).length, ?_⟩
  rw [← eq_replicate_false hbefore, ← eq_replicate_false hafter, List.append_assoc,
    List.take_append_drop, List.take_append_drop]

/-- Messages of equal length that differ, and only within as many consecutive bits as the register
has, have different checks. -/
theorem bitSerial_ne_of_burst {poly : BitVec w} (hpoly : poly.msb = true) (register : BitVec w)
    {first second : List Bool} (hlength : first.length = second.length) (hne : first ≠ second)
    {start : ℕ} (hwindow : ∀ i, first[i]? ≠ second[i]? → start ≤ i ∧ i < start + w) :
    bitSerial poly register first ≠ bitSerial poly register second := by
  intro heq
  have hdifference : bitSerial poly 0#w (List.zipWith xor first second) = 0#w := by
    have hxor := bitSerial_xor poly hlength register register
    rwa [heq, BitVec.xor_self, BitVec.xor_self] at hxor
  obtain ⟨before, after, hsplit⟩ := eq_burst fun i hset ↦
    hwindow i ((getElem?_zipWith_xor hlength i).mp hset)
  have hburst : true ∈ ((List.zipWith xor first second).drop start).take w := by
    obtain ⟨i, hdiffer⟩ : ∃ i, first[i]? ≠ second[i]? := by
      by_contra hsame
      exact hne (List.ext_getElem? fun i ↦ by_contra fun hdiffer ↦ hsame ⟨i, hdiffer⟩)
    obtain ⟨hstart, hend⟩ := hwindow i hdiffer
    refine List.mem_iff_getElem?.mpr ⟨i - start, ?_⟩
    rw [List.getElem?_take_of_lt (by omega), List.getElem?_drop, Nat.add_sub_cancel' hstart]
    exact (getElem?_zipWith_xor hlength i).mpr hdiffer
  refine bitSerial_burst_ne_zero hpoly before after (List.length_take_le w _) hburst ?_
  rwa [← hsplit]

end Exc.Lib
