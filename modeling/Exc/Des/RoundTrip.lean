import Exc.Des.DesBlock

/-!
# DES decryption undoes encryption

`des`, `cbc_enc` and `cbc_dec` are called with the same buffer for input and output. In place each
of them is a loop that replaces one block after the other (`des_eq`, `cbcEnc_eq`, `cbcDec_eq`);
chained decryption keeps the encrypted block that it overwrites for the next one. One step of
decryption undoes one step of encryption by `desBlock_desBlock`, so the whole of it does
(`decrypt_encrypt`).
-/

set_option autoImplicit false
set_option relaxedAutoImplicit false

namespace Exc.Des

open Lib

variable {w : ℕ}

/-- A block on its own. -/
def blockStep (keys : List (BitVec w)) (_ : Unit) (block : Block) : Block × Unit :=
  (desBlock keys block, ())

/-- A block of `cbc_enc`. -/
def encStep (keys : List (BitVec w)) (cbcVector block : Block) : Block × Block :=
  (desBlock keys (xorBlock cbcVector block), desBlock keys (xorBlock cbcVector block))

/-- A block of `cbc_dec`. -/
def decStep (keys : List (BitVec w)) (cbcVector block : Block) : Block × Block :=
  (xorBlock cbcVector (desBlock keys block), block)

/-! ### The loops in place -/

theorem des_eq (keys : List (BitVec w)) (blocks data : ℕ) (memory : Memory) :
    des keys blocks data data memory = transformBlocks (blockStep keys) blocks () data memory := by
  induction blocks generalizing data memory with
  | zero => rfl
  | succ blocks ih => exact ih _ _

theorem cbcEncLoop_eq (keys : List (BitVec w)) (blocks data : ℕ) (cbcVector : Block)
    (memory : Memory) :
    cbcEncLoop keys blocks cbcVector data data memory =
      transformBlocks (encStep keys) blocks cbcVector data memory := by
  induction blocks generalizing data cbcVector memory with
  | zero => rfl
  | succ blocks ih =>
    rw [cbcEncLoop, transformBlocks, readBlock_writeBlock, ih]
    rfl

theorem cbcDecLoop_eq (keys : List (BitVec w)) (blocks data : ℕ) (cbcVector : Block)
    (memory : Memory) :
    cbcDecLoop keys blocks cbcVector data data memory =
      transformBlocks (decStep keys) blocks cbcVector data memory := by
  induction blocks generalizing data cbcVector memory with
  | zero => rfl
  | succ blocks ih =>
    rw [cbcDecLoop, transformBlocks, readBlock_writeBlock, writeBlock_writeBlock, ih]
    rfl

theorem xorBlock_zero (block : Block) : xorBlock (Vector.replicate 8 0) block = block := by
  refine Vector.ext fun i hi ↦ ?_
  simp [xorBlock]

theorem xorBlock_xorBlock (cbcVector block : Block) :
    xorBlock cbcVector (xorBlock cbcVector block) = block := by
  refine Vector.ext fun i hi ↦ ?_
  simp only [xorBlock, Vector.getElem_zipWith]
  rw [← UInt8.xor_assoc, UInt8.xor_self, UInt8.zero_xor]

theorem cbcEnc_eq (keys : List (BitVec w)) (blocks data : ℕ) (memory : Memory) :
    cbcEnc keys blocks data data memory =
      transformBlocks (encStep keys) blocks (Vector.replicate 8 0) data memory :=
  cbcEncLoop_eq keys blocks data _ memory

/-- The first block of `cbc_dec` is one with a vector of zeros. -/
theorem cbcDec_eq (keys : List (BitVec w)) {blocks : ℕ} (hblocks : 0 < blocks) (data : ℕ)
    (memory : Memory) :
    cbcDec keys blocks data data memory =
      transformBlocks (decStep keys) blocks (Vector.replicate 8 0) data memory := by
  obtain ⟨rest, rfl⟩ := Nat.exists_eq_succ_of_ne_zero hblocks.ne'
  rw [cbcDec, Nat.succ_sub_one, cbcDecLoop_eq, transformBlocks, decStep, xorBlock_zero]

/-! ### Decryption after encryption -/

theorem des_des (hwidth : 32 ≤ w) (key : Block) (blocks data : ℕ) (memory : Memory) :
    des (deskey w key .decrypt) blocks data data
      (des (deskey w key .encrypt) blocks data data memory) = memory := by
  rw [des_eq, des_eq]
  refine transformBlocks_transformBlocks (fun _ block ↦ ?_) ()
  rw [blockStep, blockStep, desBlock_desBlock hwidth]

theorem cbcDec_cbcEnc (hwidth : 32 ≤ w) (key : Block) {blocks : ℕ} (hblocks : 0 < blocks)
    (data : ℕ) (memory : Memory) :
    cbcDec (deskey w key .decrypt) blocks data data
      (cbcEnc (deskey w key .encrypt) blocks data data memory) = memory := by
  rw [cbcDec_eq _ hblocks, cbcEnc_eq]
  refine transformBlocks_transformBlocks (fun cbcVector block ↦ ?_) _
  rw [decStep, encStep, desBlock_desBlock hwidth, xorBlock_xorBlock]

/-- `DES::encrypt` changes only the blocks that it is given. -/
theorem encrypt_outside (w : ℕ) (key : Block) (data : ℕ) (blocks mode : ℤ) (memory : Memory) {a : ℕ}
    (houtside : a < data ∨ data + 8 * blocks.toNat ≤ a) :
    (encrypt w key (some data) blocks mode memory).2 a = memory a := by
  simp only [encrypt]
  split_ifs
  · rfl
  · rw [cbcEnc_eq]
    exact transformBlocks_outside houtside
  · rw [des_eq]
    exact transformBlocks_outside houtside

/-- Decryption undoes encryption, for words of 32 bits or more. -/
theorem decrypt_undoes_encrypt (hwidth : 32 ≤ w) (key : Block) (data : ℕ) {blocks : ℤ}
    (hblocks : 1 ≤ blocks) (mode : ℤ) (memory : Memory) :
    decrypt w key (some data) blocks mode (encrypt w key (some data) blocks mode memory).2 =
      (1, memory) := by
  have hnot : ¬blocks < 1 := by omega
  simp only [encrypt, decrypt, if_neg hnot]
  split_ifs
  · rw [cbcDec_cbcEnc hwidth key (by omega)]
  · rw [des_des hwidth]

/-- `DES::encrypt` and then `DES::decrypt` on the same buffer, in any mode and with an
`unsigned long` of 32 or 64 bits, leave the memory as it was. -/
theorem decrypt_encrypt (hwidth : w = 32 ∨ w = 64) (key : Block) (data : ℕ) {blocks : ℤ}
    (hblocks : 1 ≤ blocks) (mode : ℤ) (memory : Memory) :
    ∃ encrypted, encrypt w key (some data) blocks mode memory = (1, encrypted) ∧
      decrypt w key (some data) blocks mode encrypted = (1, memory) := by
  refine ⟨(encrypt w key (some data) blocks mode memory).2, ?_, ?_⟩
  · have hnot : ¬blocks < 1 := by omega
    simp only [encrypt, if_neg hnot]
    split_ifs <;> rfl
  · exact decrypt_undoes_encrypt (by omega) key data hblocks mode memory

/-- Two blocks at address 16, chained, with an `unsigned long` of 64 bits. -/
theorem decrypt_encrypt_two :
    ∃ encrypted, encrypt 64 #v[1, 2, 3, 4, 5, 6, 7, 8] (some 16) 2 1 (fun a ↦ UInt8.ofNat a) =
        (1, encrypted) ∧
      decrypt 64 #v[1, 2, 3, 4, 5, 6, 7, 8] (some 16) 2 1 encrypted =
        (1, fun a ↦ UInt8.ofNat a) :=
  decrypt_encrypt (Or.inr rfl) _ 16 (by decide) 1 _

end Exc.Des
