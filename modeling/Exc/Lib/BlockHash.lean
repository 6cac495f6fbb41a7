import Mathlib.Data.List.Basic
import Mathlib.Order.Lattice.Nat
import Mathlib.Order.Bounds.Basic

/-!
# Hashing block by block

An iterated hash function pads a text to full blocks and compresses one block after the other into
a state (`Standard.hash`). The padding is a mark, as few zeros as can be, and the number of bits of
the text.

The state after the full blocks of a text (`absorb`) and what is left of the text behind them
(`leftover`) are all that a hash function has to remember of it: `absorb_append` continues from
there. `absorb_fill` is one more block, `absorb_short` is what comes before the next one.
-/

set_option autoImplicit false
set_option relaxedAutoImplicit false

namespace Exc.Lib.BlockHash

variable {σ β : Type*} {compress : σ → List β → σ} {size : ℕ} {state : σ}

/-- The state after the full blocks of a text. -/
def absorb (compress : σ → List β → σ) (size : ℕ) (state : σ) (text : List β) : σ :=
  (List.range (text.length / size)).foldl
    (fun state i ↦ compress state ((text.drop (size * i)).take size)) state

/-- What is left of a text behind its full blocks. -/
def leftover (size : ℕ) (text : List β) : List β := text.drop (size * (text.length / size))

@[simp]
theorem absorb_nil : absorb compress size state [] = state := by
  rw [absorb, List.length_nil, Nat.zero_div]
  rfl

@[simp]
theorem leftover_nil : leftover size ([] : List β) = [] := List.drop_nil

theorem absorb_of_lt {text : List β} (hshort : text.length < size) :
    absorb compress size state text = state := by
  rw [absorb, Nat.div_eq_of_lt hshort]
  rfl

theorem leftover_of_lt {text : List β} (hshort : text.length < size) :
    leftover size text = text := by
  rw [leftover, Nat.div_eq_of_lt hshort]
  rfl

theorem length_leftover (size : ℕ) (text : List β) :
    (leftover size text).length = text.length % size := by
  rw [leftover, List.length_drop]
  have hdiv := Nat.div_add_mod text.length size
  omega

/-- One block in front. -/
theorem absorb_block (compress : σ → List β → σ) (state : σ) (hsize : 0 < size) {block : List β}
    (hblock : block.length = size) (text : List β) :
    absorb compress size state (block ++ text) =
      absorb compress size (compress state block) text := by
  have hcount : (block ++ text).length / size = text.length / size + 1 := by
    rw [List.length_append, hblock, Nat.add_div_left _ hsize]
  have hfirst : ((block ++ text).drop (size * 0)).take size = block := by
    rw [Nat.mul_zero, List.drop_zero, ← hblock, List.take_left]
  have hrest (i : ℕ) : (block ++ text).drop (size * (i + 1)) = text.drop (size * i) := by
    rw [Nat.mul_succ, Nat.add_comm, ← List.drop_drop, ← hblock, List.drop_left]
  rw [absorb, hcount, List.range_succ_eq_map, List.foldl_cons, List.foldl_map, hfirst]
  simp only [hrest]
  rfl

theorem leftover_block (hsize : 0 < size) {block : List β} (hblock : block.length = size)
    (text : List β) : leftover size (block ++ text) = leftover size text := by
  rw [leftover, List.length_append, hblock, Nat.add_div_left _ hsize, Nat.mul_succ, Nat.add_comm,
    ← List.drop_drop, ← hblock, List.drop_left, hblock]
  rfl

/-- The state and what is left are all that has to be remembered of a text. By induction on its
length, block by block. -/
theorem absorb_append (compress : σ → List β → σ) (hsize : 0 < size) (front rest : List β)
    (state : σ) :
    absorb compress size state (front ++ rest) =
      absorb compress size (absorb compress size state front) (leftover size front ++ rest) ∧
    leftover size (front ++ rest) = leftover size (leftover size front ++ rest) := by
  induction hlength : front.length using Nat.strong_induction_on generalizing front state with
  | _ length ih =>
    by_cases hshort : front.length < size
    · rw [absorb_of_lt hshort, leftover_of_lt hshort]
      exact ⟨rfl, rfl⟩
    · have hblock : (front.take size).length = size := by
        rw [List.length_take]
        omega
      have hdrop : (front.drop size).length < length := by
        rw [List.length_drop]
        omega
      obtain ⟨habsorb, hleft⟩ := ih _ hdrop (front.drop size) (compress state (front.take size)) rfl
      have hfront := (List.take_append_drop size front).symm
      rw [hfront, List.append_assoc, absorb_block compress _ hsize hblock,
        absorb_block compress _ hsize hblock, leftover_block hsize hblock,
        leftover_block hsize hblock]
      exact ⟨habsorb, hleft⟩

/-- What is left of a text is filled up to a block. -/
theorem absorb_fill (compress : σ → List β → σ) (state : σ) (hsize : 0 < size) {text front : List β}
    (hblock : (leftover size text ++ front).length = size) :
    absorb compress size state (text ++ front) =
        compress (absorb compress size state text) (leftover size text ++ front) ∧
      leftover size (text ++ front) = [] := by
  have happend := absorb_append compress hsize text front state
  have habsorb := absorb_block compress (absorb compress size state text) hsize hblock []
  have hleft := leftover_block hsize hblock []
  rw [List.append_nil, absorb_nil] at habsorb
  rw [List.append_nil, leftover_nil] at hleft
  rw [habsorb, hleft] at happend
  exact happend

/-- There is not enough for a block. -/
theorem absorb_short (compress : σ → List β → σ) (state : σ) (hsize : 0 < size)
    {text rest : List β} (hshort : (leftover size text ++ rest).length < size) :
    absorb compress size state (text ++ rest) = absorb compress size state text ∧
      leftover size (text ++ rest) = leftover size text ++ rest := by
  have happend := absorb_append compress hsize text rest state
  rw [absorb_of_lt hshort, leftover_of_lt hshort] at happend
  exact happend

/-- Two compression functions that agree on full blocks. -/
theorem absorb_congr {other : σ → List β → σ}
    (hblock : ∀ state block, block.length = size → compress state block = other state block)
    (state : σ) (text : List β) :
    absorb compress size state text = absorb other size state text := by
  have hblocks (count : ℕ) (hcount : size * count ≤ text.length) :
      (List.range count).foldl (fun state i ↦ compress state ((text.drop (size * i)).take size))
        state =
      (List.range count).foldl (fun state i ↦ other state ((text.drop (size * i)).take size))
        state := by
    induction count with
    | zero => rfl
    | succ count ih =>
      rw [Nat.mul_succ] at hcount
      rw [List.range_succ, List.foldl_append, List.foldl_append, ih (by omega), List.foldl_cons,
        List.foldl_nil, List.foldl_cons, List.foldl_nil, hblock]
      rw [List.length_take, List.length_drop]
      omega
  exact hblocks _ (Nat.mul_div_le _ _)

/-- An iterated hash function. -/
structure Standard (σ β : Type*) where
  size : ℕ
  init : σ
  compress : σ → List β → σ
  mark : β
  zero : β
  lengthBytes : ℕ
  encodeLength : ℕ → List β
  output : σ → List β

/-- How many zeros the padding has: as few as can be. -/
noncomputable def zeros (size lengthBytes length : ℕ) : ℕ :=
  sInf {count | size ∣ length + 1 + count + lengthBytes}

namespace Standard

variable (standard : Standard σ β)

/-- A text with its padding; the length is in bits. -/
noncomputable def pad (text : List β) : List β :=
  text ++ standard.mark ::
    List.replicate (zeros standard.size standard.lengthBytes text.length) standard.zero ++
      standard.encodeLength (8 * text.length)

/-- The hash of a text. -/
noncomputable def hash (text : List β) : List β :=
  standard.output
    (absorb standard.compress standard.size standard.init (standard.pad text))

end Standard

/-- The number of zeros by arithmetic. -/
theorem zeros_eq {size lengthBytes : ℕ} (hlength : lengthBytes < size) (length : ℕ) :
    zeros size lengthBytes length = (2 * size - lengthBytes - 1 - length % size) % size := by
  have hdiv := Nat.div_add_mod length size
  have hmod : length % size < size := Nat.mod_lt _ (by omega)
  set wanted := 2 * size - lengthBytes - 1 - length % size with hwanted
  have hsplit := Nat.div_add_mod wanted size
  have htotal : length + 1 + wanted + lengthBytes = size * (length / size + 2) := by
    rw [Nat.mul_add]
    omega
  have hmem : size ∣ length + 1 + wanted % size + lengthBytes := by
    have hrest : length + 1 + wanted % size + lengthBytes + size * (wanted / size) =
        size * (length / size + 2) := by omega
    exact (Nat.dvd_add_left (Dvd.intro _ rfl)).mp (hrest ▸ Dvd.intro _ rfl)
  refine le_antisymm (Nat.sInf_le hmem) (le_csInf ⟨_, hmem⟩ fun count hcount ↦ ?_)
  -- Two such numbers differ by a multiple of the size, and the first of them is below it.
  by_contra hlt
  have hless : count < wanted % size := Nat.lt_of_not_le hlt
  have hdvd : size ∣ wanted % size - count := by
    have hdiff := Nat.dvd_sub hmem hcount
    have heq : length + 1 + wanted % size + lengthBytes - (length + 1 + count + lengthBytes) =
        wanted % size - count := by omega
    rwa [heq] at hdiff
  have hle := Nat.le_of_dvd (by omega) hdvd
  have hbound : wanted % size < size := Nat.mod_lt _ (by omega)
  omega

end Exc.Lib.BlockHash
