import Mathlib.Data.List.Basic
import Mathlib.Data.Prod.Basic

/-!
# Feistel networks

A Feistel network changes one half of a block by a function of the other half and a round key, and
exchanges the halves. The same network undoes it, with the keys in reverse order and the halves of
the block exchanged (`feistel_reverse`); nothing is needed of the round function. `mix` is the
operation that joins a half to a value of the round function, and all that is used of it is that the
value joined twice is gone.
-/

set_option autoImplicit false
set_option relaxedAutoImplicit false

namespace Exc.Lib

variable {α κ : Type*} {mix : α → α → α} {roundFunction : α → κ → α}

/-- A round for each key. -/
def feistel (mix : α → α → α) (roundFunction : α → κ → α) : List κ → α × α → α × α
  | [], block => block
  | key :: keys, block =>
    feistel mix roundFunction keys (block.2, mix block.1 (roundFunction block.2 key))

theorem feistel_append (first last : List κ) (block : α × α) :
    feistel mix roundFunction (first ++ last) block =
      feistel mix roundFunction last (feistel mix roundFunction first block) := by
  induction first generalizing block with
  | nil => rfl
  | cons key first ih => exact ih _

/-- The keys in reverse order undo a network, with the halves exchanged before and after. -/
theorem feistel_reverse (hmix : ∀ half value, mix (mix half value) value = half) (keys : List κ)
    (block : α × α) :
    feistel mix roundFunction keys.reverse (feistel mix roundFunction keys block).swap =
      block.swap := by
  induction keys generalizing block with
  | nil => rfl
  | cons key keys ih =>
    rw [List.reverse_cons, feistel_append]
    change feistel mix roundFunction [key] (feistel mix roundFunction keys.reverse
      (feistel mix roundFunction keys (block.2, mix block.1 (roundFunction block.2 key))).swap) = _
    rw [ih]
    simp only [feistel, Prod.swap_prod_mk, hmix]
    rfl

end Exc.Lib
