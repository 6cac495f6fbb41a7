import Mathlib.Logic.Function.Basic
import Mathlib.Data.List.Basic

/-!
# Blocks in memory

Memory is a function of addresses. A block is some bytes in a row; `readBlock` and `writeBlock` copy
one out of memory and into it, and `blocksAt` is the blocks from an address on. `transformBlocks`
goes over blocks and replaces each of them in its place, with a state that it takes from one to the
next. What that does to the blocks is `mapWith` on the list of them (`blocksAt_transformBlocks`),
and nothing else in memory changes. So a loop undoes another one if its step undoes the other's step
(`transformBlocks_transformBlocks`).
-/

set_option autoImplicit false
set_option relaxedAutoImplicit false

namespace Exc.Lib

variable {α : Type*} {size : ℕ}

/-- The block at an address. -/
def readBlock (size : ℕ) (memory : ℕ → α) (address : ℕ) : Vector α size :=
  Vector.ofFn fun j ↦ memory (address + j)

/-- The memory with a block at an address. -/
def writeBlock (memory : ℕ → α) (address : ℕ) (block : Vector α size) : ℕ → α :=
  fun a ↦ if h : address ≤ a ∧ a - address < size then block.get ⟨a - address, h.2⟩ else memory a

/-- Blocks in a row, from an address on. -/
def blocksAt (size : ℕ) (memory : ℕ → α) : ℕ → ℕ → List (Vector α size)
  | _, 0 => []
  | address, count + 1 =>
    readBlock size memory address :: blocksAt size memory (address + size) count

variable {memory other : ℕ → α} {address : ℕ}

theorem writeBlock_of_lt {block : Vector α size} {a : ℕ} (hlt : a < address) :
    writeBlock memory address block a = memory a :=
  dif_neg fun h ↦ by omega

theorem writeBlock_of_ge {block : Vector α size} {a : ℕ} (hge : address + size ≤ a) :
    writeBlock memory address block a = memory a :=
  dif_neg fun h ↦ by omega

theorem readBlock_writeBlock (block : Vector α size) :
    readBlock size (writeBlock memory address block) address = block := by
  refine Vector.ext fun j hj ↦ ?_
  simp [readBlock, writeBlock, Vector.get]

theorem writeBlock_writeBlock (first second : Vector α size) :
    writeBlock (writeBlock memory address first) address second =
      writeBlock memory address second := by
  funext a
  simp only [writeBlock]
  split_ifs <;> rfl

theorem blocksAt_congr {count : ℕ}
    (hsame : ∀ a, address ≤ a → a < address + size * count → other a = memory a) :
    blocksAt size other address count = blocksAt size memory address count := by
  induction count generalizing address with
  | zero => rfl
  | succ count ih =>
    have hsize : size * (count + 1) = size * count + size := Nat.mul_succ size count
    rw [hsize] at hsame
    have hhead : readBlock size other address = readBlock size memory address := by
      refine Vector.ext fun j hj ↦ ?_
      simpa [readBlock] using hsame (address + j) (by omega) (by omega)
    have htail : blocksAt size other (address + size) count =
        blocksAt size memory (address + size) count :=
      ih fun a hge hlt ↦ hsame a (by omega) (by omega)
    rw [blocksAt, blocksAt, hhead, htail]

/-- Memories with the same blocks that agree elsewhere are the same. -/
theorem blocksAt_ext {count : ℕ}
    (hblocks : blocksAt size other address count = blocksAt size memory address count)
    (houtside : ∀ a, a < address ∨ address + size * count ≤ a → other a = memory a) :
    other = memory := by
  have hinside : ∀ a, address ≤ a → a < address + size * count → other a = memory a := by
    clear houtside
    induction count generalizing address with
    | zero => exact fun a hge hlt ↦ by omega
    | succ count ih =>
      have hsize : size * (count + 1) = size * count + size := Nat.mul_succ size count
      rw [blocksAt, blocksAt, List.cons.injEq] at hblocks
      intro a hge hlt
      rw [hsize] at hlt
      by_cases hhead : a < address + size
      · have hread := Vector.ext_iff.mp hblocks.1 (a - address) (by omega)
        simpa [readBlock, Nat.add_sub_cancel' hge] using hread
      · exact ih hblocks.2 a (by omega) (by omega)
  funext a
  by_cases ha : address ≤ a ∧ a < address + size * count
  · exact hinside a ha.1 ha.2
  · exact houtside a (by omega)

/-! ### Loops over blocks -/

section Loops

variable {σ β : Type*}

/-- Replace the elements of a list one after the other, with a state. -/
def mapWith (step : σ → β → β × σ) : σ → List β → List β
  | _, [] => []
  | state, block :: blocks => (step state block).1 :: mapWith step (step state block).2 blocks

/-- A step that gives back the element, and the same next state, undoes the other one. -/
theorem mapWith_mapWith {step undo : σ → β → β × σ}
    (hundo : ∀ state block, undo state (step state block).1 = (block, (step state block).2))
    (state : σ) (blocks : List β) : mapWith undo state (mapWith step state blocks) = blocks := by
  induction blocks generalizing state with
  | nil => rfl
  | cons block blocks ih => rw [mapWith, mapWith, hundo, ih]

/-- The same for blocks in memory, each in its place. -/
def transformBlocks (step : σ → Vector α size → Vector α size × σ) :
    ℕ → σ → ℕ → (ℕ → α) → ℕ → α
  | 0, _, _, memory => memory
  | count + 1, state, address, memory =>
    transformBlocks step count (step state (readBlock size memory address)).2 (address + size)
      (writeBlock memory address (step state (readBlock size memory address)).1)

variable {step undo : σ → Vector α size → Vector α size × σ} {count : ℕ}

theorem transformBlocks_outside {state : σ} {a : ℕ}
    (houtside : a < address ∨ address + size * count ≤ a) :
    transformBlocks step count state address memory a = memory a := by
  induction count generalizing state address memory with
  | zero => rfl
  | succ count ih =>
    have hsize : size * (count + 1) = size * count + size := Nat.mul_succ size count
    rw [hsize] at houtside
    rw [transformBlocks, ih (by omega)]
    rcases houtside with hlt | hge
    · exact writeBlock_of_lt hlt
    · exact writeBlock_of_ge (by omega)

theorem blocksAt_transformBlocks (state : σ) :
    blocksAt size (transformBlocks step count state address memory) address count =
      mapWith step state (blocksAt size memory address count) := by
  induction count generalizing state address memory with
  | zero => rfl
  | succ count ih =>
    rw [blocksAt, blocksAt, mapWith, transformBlocks, ih]
    generalize step state (readBlock size memory address) = result
    -- The loop goes on behind the block that it has just written.
    have hhead : readBlock size (transformBlocks step count result.2 (address + size)
        (writeBlock memory address result.1)) address = result.1 := by
      refine Vector.ext fun j hj ↦ ?_
      have hkept : transformBlocks step count result.2 (address + size)
          (writeBlock memory address result.1) (address + j) =
          writeBlock memory address result.1 (address + j) :=
        transformBlocks_outside (Or.inl (by omega))
      rw [readBlock, Vector.getElem_ofFn, hkept]
      simp [writeBlock, hj, Vector.get]
    have hrest : blocksAt size (writeBlock memory address result.1) (address + size) count =
        blocksAt size memory (address + size) count :=
      blocksAt_congr fun a hge _ ↦ writeBlock_of_ge hge
    rw [hhead, hrest]

/-- A loop in place is undone by one whose step undoes its step. -/
theorem transformBlocks_transformBlocks
    (hundo : ∀ state block, undo state (step state block).1 = (block, (step state block).2))
    (state : σ) :
    transformBlocks undo count state address
      (transformBlocks step count state address memory) = memory := by
  have hblocks : blocksAt size (transformBlocks undo count state address
      (transformBlocks step count state address memory)) address count =
      blocksAt size memory address count := by
    rw [blocksAt_transformBlocks, blocksAt_transformBlocks, mapWith_mapWith hundo]
  refine blocksAt_ext hblocks fun a houtside ↦ ?_
  rw [transformBlocks_outside houtside, transformBlocks_outside houtside]

end Loops

end Exc.Lib
