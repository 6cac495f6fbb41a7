import Mathlib.Data.Int.Notation
import Mathlib.Data.List.Basic
import Mathlib.Data.Nat.Notation
import Mathlib.Data.UInt

/-!
# Integers in memory and in network order

The four bytes of a 32-bit integer as a machine stores them, for either byte order, and the
conversions between host and network order. A number that is converted to network order and stored
gives its bytes with the most significant first, whatever the order of the machine is
(`store_hostToNet`), and a machine of either order that loads these bytes and converts them back
gets the number (`netToHost_load`).

A number of any size is in memory as `memory` has it, and `load` gets it back (`load_memory`).

`toInt` is the conversion of a wider integer to a signed one of 32 bits, and `intMax` the largest of
these.
-/

set_option autoImplicit false
set_option relaxedAutoImplicit false

namespace Exc.Lib

/-- The conversion of a wider integer to a signed one of 32 bits. -/
def toInt (value : ℤ) : ℤ := value.bmod (2 ^ 32)

/-- The largest signed integer of 32 bits. -/
def intMax : ℤ := 2 ^ 31 - 1

theorem toInt_eq_self {value : ℤ} (hmin : -2 ^ 31 ≤ value) (hmax : value < 2 ^ 31) :
    toInt value = value := by
  unfold toInt
  rw [Int.bmod_eq_of_le] <;> omega

/-- The byte order of a machine. -/
inductive ByteOrder
  | little
  | big
  deriving DecidableEq, Repr

namespace ByteOrder

/-- A byte of a number, counted from the least significant one. -/
def byte (index value : ℕ) : UInt8 := UInt8.ofNat (value / 256 ^ index)

/-- The bytes of a 32-bit integer in memory. -/
def store : ByteOrder → ℕ → List UInt8
  | little, value => [byte 0 value, byte 1 value, byte 2 value, byte 3 value]
  | big, value => [byte 3 value, byte 2 value, byte 1 value, byte 0 value]

/-- The integer that bytes in memory stand for. -/
def load : ByteOrder → List UInt8 → ℕ
  | little, bytes => bytes.foldr (fun next rest ↦ next.toNat + 256 * rest) 0
  | big, bytes => bytes.foldl (fun front next ↦ 256 * front + next.toNat) 0

/-- The four bytes the other way round. -/
def swap (value : ℕ) : ℕ := load big (store little value)

/-- `htonl` and `ntohl`. -/
def hostToNet : ByteOrder → ℕ → ℕ
  | little, value => swap value
  | big, value => value

/-- The bytes of a number, the least significant one first. -/
def littleEndian (count value : ℕ) : List UInt8 :=
  (List.range count).map fun index ↦ byte index value

/-- Only the low bytes of the number count. -/
theorem littleEndian_mod (count value : ℕ) :
    littleEndian count (value % 256 ^ count) = littleEndian count value := by
  refine List.map_congr_left fun index hindex ↦ ?_
  have hlt := List.mem_range.mp hindex
  have hpow : 256 ^ count = 256 ^ index * 256 ^ (count - index) := by
    rw [← Nat.pow_add]
    congr 1
    omega
  have hdvd : 256 ∣ 256 ^ (count - index) := dvd_pow_self 256 (by omega)
  apply UInt8.toNat_inj.mp
  rw [byte, byte, UInt8.toNat_ofNat', UInt8.toNat_ofNat', hpow, Nat.mod_mul_right_div_self]
  exact Nat.mod_mod_of_dvd _ hdvd

theorem byte_zero (first rest : ℕ) : byte 0 (first + 256 * rest) = UInt8.ofNat first := by
  rw [byte, pow_zero, Nat.div_one]
  apply UInt8.toNat_inj.mp
  simp only [UInt8.toNat_ofNat']
  omega

theorem byte_succ (index first rest : ℕ) (hfirst : first < 256) :
    byte (index + 1) (first + 256 * rest) = byte index rest := by
  rw [byte, byte, pow_succ', ← Nat.div_div_eq_div_mul, Nat.add_mul_div_left _ _ (by decide),
    Nat.div_eq_of_lt hfirst, Nat.zero_add]

/-- Storing what was loaded gives the bytes again, least significant first. -/
theorem store_little_load_little (a b c d : UInt8) :
    store little (load little [a, b, c, d]) = [a, b, c, d] := by
  simp only [store, load, List.foldr_cons, List.foldr_nil]
  rw [byte_zero, byte_succ 0 _ _ a.toNat_lt, byte_succ 1 _ _ a.toNat_lt,
    byte_succ 2 _ _ a.toNat_lt, byte_zero, byte_succ 0 _ _ b.toNat_lt, byte_succ 1 _ _ b.toNat_lt,
    byte_zero, byte_succ 0 _ _ c.toNat_lt, byte_zero]
  simp

theorem load_big_eq (a b c d : UInt8) : load big [a, b, c, d] = load little [d, c, b, a] := by
  simp only [load, List.foldl_cons, List.foldl_nil, List.foldr_cons, List.foldr_nil]
  omega

/-- A number in network order is stored most significant byte first. -/
theorem store_hostToNet (order : ByteOrder) (value : ℕ) :
    store order (hostToNet order value) = store big value := by
  cases order with
  | little =>
    change store little (load big [byte 0 value, byte 1 value, byte 2 value, byte 3 value]) = _
    rw [load_big_eq, store_little_load_little]
    rfl
  | big => rfl

/-- The most significant byte first is loaded as the number itself. -/
theorem load_store_big {value : ℕ} (hvalue : value < 2 ^ 32) :
    load big (store big value) = value := by
  simp only [store, load, List.foldl_cons, List.foldl_nil, byte, UInt8.toNat_ofNat']
  omega

/-- A machine of either order gets the number from its bytes in network order. -/
theorem netToHost_load (order : ByteOrder) {value : ℕ} (hvalue : value < 2 ^ 32) :
    hostToNet order (load order (store big value)) = value := by
  cases order with
  | little =>
    have hstored : store little (load little (store big value)) = store big value :=
      store_little_load_little _ _ _ _
    rw [hostToNet, swap, hstored, load_store_big hvalue]
  | big => rw [hostToNet, load_store_big hvalue]

@[simp] theorem length_store (order : ByteOrder) (value : ℕ) : (store order value).length = 4 := by
  cases order <;> rfl

/-! ### Any number of bytes -/

/-- The bytes of a number in memory. -/
def memory : ByteOrder → ℕ → ℕ → List UInt8
  | little, count, value => littleEndian count value
  | big, count, value => (littleEndian count value).reverse

theorem length_memory (order : ByteOrder) (count value : ℕ) :
    (memory order count value).length = count := by
  cases order with
  | little => rw [memory, littleEndian, List.length_map, List.length_range]
  | big => rw [memory, littleEndian, List.length_reverse, List.length_map, List.length_range]

/-- The other order loads the bytes from the other end. -/
theorem load_big_reverse (bytes : List UInt8) : load big bytes.reverse = load little bytes := by
  rw [load, load, List.foldl_reverse]
  congr 1
  funext next rest
  exact Nat.add_comm _ _

theorem littleEndian_succ (count value : ℕ) :
    littleEndian (count + 1) value = byte 0 value :: littleEndian count (value / 256) := by
  rw [littleEndian, List.range_succ_eq_map, List.map_cons, List.map_map, littleEndian]
  congr 1
  refine List.map_congr_left fun index _ ↦ ?_
  rw [Function.comp_apply, byte, byte, Nat.succ_eq_add_one, pow_succ', ← Nat.div_div_eq_div_mul]

theorem load_littleEndian (count value : ℕ) :
    load little (littleEndian count value) = value % 256 ^ count := by
  induction count generalizing value with
  | zero => rw [pow_zero, Nat.mod_one]; rfl
  | succ count ih =>
    have hload : load little (littleEndian (count + 1) value) =
        (byte 0 value).toNat + 256 * load little (littleEndian count (value / 256)) := by
      rw [littleEndian_succ]
      rfl
    rw [hload, ih, pow_succ', Nat.mod_mul, byte, pow_zero, Nat.div_one, UInt8.toNat_ofNat']

theorem load_memory (order : ByteOrder) {count value : ℕ} (hvalue : value < 256 ^ count) :
    load order (memory order count value) = value := by
  cases order with
  | little => rw [memory, load_littleEndian, Nat.mod_eq_of_lt hvalue]
  | big => rw [memory, load_big_reverse, load_littleEndian, Nat.mod_eq_of_lt hvalue]

theorem littleEndian_load (bytes : List UInt8) :
    littleEndian bytes.length (load little bytes) = bytes := by
  induction bytes with
  | nil => rfl
  | cons first bytes ih =>
    have hload : load little (first :: bytes) = first.toNat + 256 * load little bytes := rfl
    have hfirst := first.toNat_lt
    rw [List.length_cons, littleEndian_succ, hload, byte_zero, UInt8.ofNat_toNat,
      Nat.add_mul_div_left _ _ (by decide), Nat.div_eq_of_lt hfirst, Nat.zero_add, ih]

theorem memory_load (order : ByteOrder) (bytes : List UInt8) :
    memory order bytes.length (load order bytes) = bytes := by
  cases order with
  | little => exact littleEndian_load bytes
  | big =>
    have hload : load big bytes = load little bytes.reverse := by
      rw [← load_big_reverse, List.reverse_reverse]
    rw [memory, hload, ← List.length_reverse, littleEndian_load, List.reverse_reverse]

theorem load_lt (order : ByteOrder) (bytes : List UInt8) :
    load order bytes < 256 ^ bytes.length := by
  have hlittle (bytes : List UInt8) : load little bytes < 256 ^ bytes.length := by
    induction bytes with
    | nil => exact Nat.one_pos
    | cons first bytes ih =>
      have hload : load little (first :: bytes) = first.toNat + 256 * load little bytes := rfl
      have hfirst := first.toNat_lt
      rw [hload, List.length_cons, pow_succ']
      omega
  cases order with
  | little => exact hlittle bytes
  | big =>
    have hlength : bytes.reverse.reverse.length = bytes.reverse.length := List.length_reverse
    rw [← List.reverse_reverse bytes, load_big_reverse, hlength]
    exact hlittle bytes.reverse

end ByteOrder

end Exc.Lib
