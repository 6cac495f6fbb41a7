import Exc.Lib.Nearest
import Exc.Timer.Wheel
import Mathlib.Algebra.Order.Ring.Int
import Mathlib.Data.Int.ConditionallyCompleteOrder

/-!
# The sizes of the wheel

`open_i` turns two `unsigned int` arguments into numbers of bits with `power2bits`, whose parameter
is an `int`. An argument from 2^31 on arrives as a negative number. The loop that counts bits shifts
it to the right until it is zero, and a negative number never is (`countBits_none_of_neg`).

For other arguments the loop finds the highest bit (`countBits_spec`), and of the two powers of two
around the argument `power2bits` takes the nearer one, which is the nearest of all powers within the
limits (`power2bits_nearest`). So `open_i` gets its sizes exactly for arguments below 2^31
(`sizesNearest_iff`), and what it gets is a `WheelConfig` (`exists_wheelConfig`).
-/

set_option autoImplicit false
set_option relaxedAutoImplicit false

namespace Exc.Timer

open Lib

/-- The powers of two, by the number of bits. -/
def powers (bits : ℕ) : ℤ := 2 ^ bits

theorem powers_strictMono : StrictMono powers := pow_right_strictMono₀ (by decide)

theorem countBits_none_of_neg : ∀ (rounds : ℕ) (tmp : ℤ) (i : ℕ), tmp < 0 →
    countBits rounds tmp i = none
  | 0, _, _, _ => rfl
  | rounds + 1, tmp, i, hneg => by
    have hshift : tmp >>> (1 : ℕ) < 0 := by
      rw [Int.shiftRight_eq_div_pow]
      omega
    rw [countBits, if_neg hshift.ne]
    exact countBits_none_of_neg rounds _ _ hshift

/-- The loop counts up to the highest bit, and counts one bit for zero. -/
theorem countBits_spec (rounds : ℕ) (tmp : ℤ) (i : ℕ) (hnonneg : 0 ≤ tmp) (hrounds : 1 ≤ rounds)
    (hlt : tmp < 2 ^ rounds) :
    ∃ bits, 1 ≤ bits ∧ countBits rounds tmp i = some (i + bits) ∧ tmp < 2 ^ bits ∧
      (bits = 1 ∨ 2 ^ (bits - 1) ≤ tmp) := by
  induction rounds generalizing tmp i with
  | zero => omega
  | succ rounds ih =>
    have hshift : tmp >>> (1 : ℕ) = tmp / 2 := Int.shiftRight_eq_div_pow tmp 1
    rw [countBits, hshift]
    split_ifs with hzero
    · exact ⟨1, le_rfl, rfl, by omega, .inl rfl⟩
    · rw [pow_succ] at hlt
      have hrest : 1 ≤ rounds := by
        by_contra hnone
        obtain rfl : rounds = 0 := by omega
        omega
      obtain ⟨bits, hbits, hcount, hbelow, habove⟩ :=
        ih (tmp / 2) (i + 1) (by omega) hrest (by omega)
      have hpow : (2 : ℤ) ^ (bits + 1) = 2 ^ bits * 2 := pow_succ 2 bits
      refine ⟨bits + 1, by omega, ?_, by omega, .inr ?_⟩
      · rw [hcount, Nat.add_assoc, Nat.add_comm 1 bits]
      · rw [Nat.add_sub_cancel]
        rcases habove with rfl | hle
        · omega
        · obtain ⟨rest, rfl⟩ : ∃ rest, bits = rest + 1 := ⟨bits - 1, by omega⟩
          rw [Nat.add_sub_cancel] at hle
          rw [pow_succ]
          omega

theorem countBits_eq_some {n : ℤ} (hnonneg : 0 ≤ n) (hlt : n < 2 ^ 31) :
    ∃ i, 1 ≤ i ∧ countBits 32 n 0 = some i ∧ n < powers i ∧ (i = 1 ∨ powers (i - 1) ≤ n) := by
  obtain ⟨i, hi, hcount, hbelow, habove⟩ :=
    countBits_spec 32 n 0 hnonneg (by omega) (hlt.trans (by decide))
  exact ⟨i, hi, by rw [hcount, Nat.zero_add], hbelow, habove⟩

/-- On an argument that is not negative, `power2bits` returns the bits of the nearest power of two
within its limits. -/
theorem power2bits_nearest {n : ℤ} {minBits maxBits : ℕ} (hmin : 1 ≤ minBits)
    (hle : minBits ≤ maxBits) (hnonneg : 0 ≤ n) (hlt : n < 2 ^ 31) :
    ∃ bits, power2bits n minBits maxBits = some bits ∧
      IsNearest powers (Set.Icc minBits maxBits) n bits := by
  unfold power2bits
  split_ifs with hlarge
  · refine ⟨maxBits, rfl, isNearest_last powers_strictMono ⟨hle, le_rfl⟩ (fun _ h ↦ h.2) ?_⟩
    unfold powers
    omega
  · obtain ⟨i, hi, hcount, hbelow, habove⟩ := countBits_eq_some hnonneg hlt
    rw [hcount, Option.map_some]
    refine ⟨_, rfl, ?_⟩
    by_cases hsmall : i ≤ minBits
    · rw [if_pos hsmall]
      exact isNearest_first powers_strictMono ⟨le_rfl, hle⟩ (fun _ h ↦ h.1)
        (hbelow.le.trans (powers_strictMono.monotone hsmall))
    · have hlow : powers (i - 1) ≤ n := habove.resolve_left (by omega)
      have hmax : i - 1 < maxBits := by
        refine powers_strictMono.lt_iff_lt.mp (hlow.trans_lt ?_)
        unfold powers
        omega
      rw [if_neg hsmall]
      exact isNearest_between powers_strictMono ⟨by omega, by omega⟩ ⟨by omega, by omega⟩ (by omega)
        (fun other _ ↦ by omega) hlow hbelow.le

theorem toInt_of_lt {n : ℕ} (hlt : n < 2 ^ 31) : toInt n = n :=
  toInt_eq_self (by omega) (by exact_mod_cast hlt)

theorem toInt_neg {n : ℕ} (hge : 2 ^ 31 ≤ n) (hlt : n < 2 ^ 32) : toInt n < 0 := by
  rw [toInt, ← Int.sub_bmod_right, Int.bmod_eq_of_le (by omega) (by omega)]
  omega

theorem power2bits_eq_none {n : ℤ} (minBits maxBits : ℕ) (hneg : n < 0) :
    power2bits n minBits maxBits = none := by
  have hpow : (1 : ℤ) ≤ 2 ^ maxBits := one_le_pow₀ (by decide)
  rw [power2bits, if_neg (by omega), countBits_none_of_neg 32 n 0 hneg, Option.map_none]

theorem openBits_eq_some_iff {spokes res spokeBits resBits : ℕ} :
    openBits spokes res = some (spokeBits, resBits) ↔
      power2bits (toInt spokes) 3 12 = some spokeBits ∧
        power2bits (toInt res) 1 20 = some resBits := by
  simp only [openBits, Option.bind_eq_bind, Option.bind_eq_some_iff, Option.pure_def,
    Option.some.injEq, Prod.mk.injEq, exists_eq_right_right]

/-- The calls return the bits of the powers of two that are nearest to the arguments. -/
def SizesNearest (spokes res : ℕ) : Prop :=
  ∃ spokeBits resBits, openBits spokes res = some (spokeBits, resBits) ∧
    IsNearest powers (Set.Icc 3 12) spokes spokeBits ∧ IsNearest powers (Set.Icc 1 20) res resBits

theorem lt_of_power2bits {n minBits maxBits bits : ℕ} (hn : n < 2 ^ 32)
    (hbits : power2bits (toInt n) minBits maxBits = some bits) : n < 2 ^ 31 := by
  by_contra hge
  rw [power2bits_eq_none minBits maxBits (toInt_neg (not_lt.mp hge) hn)] at hbits
  cases hbits

theorem power2bits_toInt_iff {n minBits maxBits : ℕ} (hmin : 1 ≤ minBits) (hle : minBits ≤ maxBits)
    (hn : n < 2 ^ 32) :
    (∃ bits, power2bits (toInt n) minBits maxBits = some bits ∧
      IsNearest powers (Set.Icc minBits maxBits) n bits) ↔ n < 2 ^ 31 := by
  constructor
  · rintro ⟨bits, hbits, -⟩
    exact lt_of_power2bits hn hbits
  · intro hlt
    rw [toInt_of_lt hlt]
    exact power2bits_nearest hmin hle (by omega) (by exact_mod_cast hlt)

/-- The sizes are found and nearest if and only if both arguments fit into an `int`. -/
theorem sizesNearest_iff (spokes res : UInt32) :
    SizesNearest spokes.toNat res.toNat ↔ spokes.toNat < 2 ^ 31 ∧ res.toNat < 2 ^ 31 := by
  rw [← power2bits_toInt_iff (by decide : 1 ≤ 3) (by decide : 3 ≤ 12) spokes.toNat_lt,
    ← power2bits_toInt_iff le_rfl (by decide : 1 ≤ 20) res.toNat_lt]
  constructor
  · rintro ⟨spokeBits, resBits, hopen, hspokes, hres⟩
    obtain ⟨hfirst, hsecond⟩ := openBits_eq_some_iff.mp hopen
    exact ⟨⟨_, hfirst, hspokes⟩, _, hsecond, hres⟩
  · rintro ⟨⟨spokeBits, hfirst, hspokes⟩, resBits, hsecond, hres⟩
    exact ⟨spokeBits, resBits, openBits_eq_some_iff.mpr ⟨hfirst, hsecond⟩, hspokes, hres⟩

/-- What `open_i` computes is the configuration of a wheel. -/
theorem exists_wheelConfig (platform : Platform) {spokes res : UInt32} {spokeBits resBits : ℕ}
    (hopen : openBits spokes.toNat res.toNat = some (spokeBits, resBits)) :
    ∃ cfg : WheelConfig, cfg.toPlatform = platform ∧ cfg.spokeBits = spokeBits ∧
      cfg.resBits = resBits := by
  have hfits : spokes.toNat < 2 ^ 31 ∧ res.toNat < 2 ^ 31 := by
    obtain ⟨hfirst, hsecond⟩ := openBits_eq_some_iff.mp hopen
    exact ⟨lt_of_power2bits spokes.toNat_lt hfirst, lt_of_power2bits res.toNat_lt hsecond⟩
  obtain ⟨_, _, hsame, hspokes, hres⟩ := (sizesNearest_iff spokes res).mpr hfits
  obtain ⟨rfl, rfl⟩ := Prod.mk.inj (Option.some.inj (hopen.symm.trans hsame))
  exact ⟨⟨platform, spokeBits, resBits, hspokes.1, hres.1⟩, rfl, rfl, rfl⟩

/-- With 2^31 spokes the loop that counts bits never ends. -/
theorem not_sizesNearest_large :
    (∀ rounds, countBits rounds (toInt (2 ^ 31 : ℕ)) 0 = none) ∧
      ¬∀ spokes res : UInt32, SizesNearest spokes.toNat res.toNat := by
  have hneg : toInt (2 ^ 31 : ℕ) < 0 := toInt_neg le_rfl (by decide)
  refine ⟨fun rounds ↦ countBits_none_of_neg rounds _ 0 hneg, fun hall ↦ ?_⟩
  obtain ⟨spokeBits, resBits, hopen, -⟩ := hall (UInt32.ofNat (2 ^ 31)) 1024
  have hfirst := (openBits_eq_some_iff.mp hopen).1
  rw [UInt32.toNat_ofNat_of_lt' (by decide), power2bits_eq_none 3 12 hneg] at hfirst
  cases hfirst

end Exc.Timer
