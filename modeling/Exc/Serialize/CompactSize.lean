import Exc.Lib.ByteOrder
import Exc.Lib.ByteStream

/-!
# Compact sizes

`WriteCompactSize` and `ReadCompactSize`, for a machine of either byte order. A size is read back
from the bytes that were written for it unless it is above `MAX_SIZE` (`reads_compactSize`), and
nothing else is read as that size (`takes_compactSize`): the longer forms of a size are refused.
-/

set_option autoImplicit false
set_option relaxedAutoImplicit false

namespace Exc.Serialize

open Lib ByteOrder

def MAX_SIZE : ℕ := 0x02000000

/-- `GetSizeOfCompactSize`. -/
def getSizeOfCompactSize (nSize : ℕ) : ℕ :=
  if nSize < 253 then 1
  else if nSize ≤ 0xffff then 1 + 2
  else if nSize ≤ 0xffffffff then 1 + 4
  else 1 + 8

/-- `WriteCompactSize`. -/
def writeCompactSize (order : ByteOrder) (nSize : ℕ) : List UInt8 :=
  if nSize < 253 then memory order 1 nSize
  else if nSize ≤ 0xffff then memory order 1 253 ++ memory order 2 nSize
  else if nSize ≤ 0xffffffff then memory order 1 254 ++ memory order 4 nSize
  else memory order 1 255 ++ memory order 8 nSize

/-- `READDATA` of an unsigned number of some bytes. -/
def readData {σ : Type} [ByteStream σ] (order : ByteOrder) (count : ℕ) : Program σ ℕ := do
  let bytes ← ByteStream.read count
  return load order bytes

/-- The check at the end of `ReadCompactSize`. -/
def checkSize {σ : Type} (nSizeRet : ℕ) : Program σ ℕ :=
  if MAX_SIZE < nSizeRet then throw (.exception "ReadCompactSize() : size too large")
  else return nSizeRet

/-- `ReadCompactSize`. -/
def readCompactSize {σ : Type} [ByteStream σ] (order : ByteOrder) : Program σ ℕ := do
  let chSize ← readData order 1
  if chSize < 253 then checkSize chSize
  else if chSize = 253 then
    let nSizeRet ← readData order 2
    if nSizeRet < 253 then throw (.exception "non-canonical ReadCompactSize()")
    else checkSize nSizeRet
  else if chSize = 254 then
    let nSizeRet ← readData order 4
    if nSizeRet < 0x10000 then throw (.exception "non-canonical ReadCompactSize()")
    else checkSize nSizeRet
  else
    let nSizeRet ← readData order 8
    if nSizeRet < 0x100000000 then throw (.exception "non-canonical ReadCompactSize()")
    else checkSize nSizeRet

theorem length_writeCompactSize (order : ByteOrder) (nSize : ℕ) :
    (writeCompactSize order nSize).length = getSizeOfCompactSize nSize := by
  unfold writeCompactSize getSizeOfCompactSize
  split_ifs
  · exact length_memory order 1 nSize
  · rw [List.length_append, length_memory, length_memory]
  · rw [List.length_append, length_memory, length_memory]
  · rw [List.length_append, length_memory, length_memory]

section

variable {σ : Type} [LawfulByteStream σ]

open LawfulByteStream

theorem reads_readData (order : ByteOrder) {count value : ℕ} (hvalue : value < 256 ^ count)
    (hlimit : count < limit σ) :
    Reads (readData order count : Program σ ℕ) (memory order count value) value := by
  have hread : Reads (ByteStream.read count : Program σ (List UInt8)) (memory order count value)
      (memory order count value) := by
    have hlength := length_memory order count value
    have hread := Reads.read (σ := σ) (show (memory order count value).length < limit σ by
      rwa [hlength])
    rwa [hlength] at hread
  have hmap := hread.map (load order)
  rwa [load_memory order hvalue] at hmap

theorem takes_readData (order : ByteOrder) {count : ℕ} (hlimit : count < limit σ) :
    Takes (readData order count : Program σ ℕ) fun value bytes ↦
      bytes = memory order count value ∧ value < 256 ^ count := by
  refine (Takes.read hlimit).bind fun bytes front ⟨hbytes, hlength⟩ ↦ Takes.pure ?_
  subst hbytes
  rw [List.append_nil, ← hlength, memory_load]
  exact ⟨rfl, load_lt order bytes⟩

theorem reads_checkSize {nSize : ℕ} (hmax : nSize ≤ MAX_SIZE) :
    Reads (checkSize nSize : Program σ ℕ) [] nSize := by
  rw [checkSize, if_neg (Nat.not_lt.mpr hmax)]
  exact Reads.pure nSize

theorem takes_checkSize (nSize : ℕ) :
    Takes (checkSize nSize : Program σ ℕ) fun value bytes ↦
      value = nSize ∧ nSize ≤ MAX_SIZE ∧ bytes = [] := by
  rw [checkSize]
  split_ifs with hmax
  · exact Takes.throw _ _
  · exact Takes.pure ⟨rfl, Nat.not_lt.mp hmax, rfl⟩

/-- A size that is not too large is read back. -/
theorem reads_compactSize (order : ByteOrder) {nSize : ℕ} (hmax : nSize ≤ MAX_SIZE)
    (hlimit : 8 < limit σ) :
    Reads (readCompactSize order : Program σ ℕ) (writeCompactSize order nSize) nSize := by
  have hbound : nSize ≤ 0xffffffff := hmax.trans (by decide)
  unfold writeCompactSize
  by_cases hone : nSize < 253
  · rw [if_pos hone, ← List.append_nil (memory order 1 nSize)]
    refine (reads_readData order (by omega) (by omega)).bind ?_
    rw [if_pos hone]
    exact reads_checkSize hmax
  rw [if_neg hone]
  by_cases htwo : nSize ≤ 0xffff
  · rw [if_pos htwo]
    refine (reads_readData order (by decide) (by omega)).bind ?_
    rw [if_neg (by decide), if_pos rfl, ← List.append_nil (memory order 2 nSize)]
    refine (reads_readData order (by omega) (by omega)).bind ?_
    rw [if_neg hone]
    exact reads_checkSize hmax
  · rw [if_neg htwo, if_pos hbound]
    refine (reads_readData order (by decide) (by omega)).bind ?_
    rw [if_neg (by decide), if_neg (by decide), if_pos rfl,
      ← List.append_nil (memory order 4 nSize)]
    refine (reads_readData order (by omega) (by omega)).bind ?_
    rw [if_neg (by omega)]
    exact reads_checkSize hmax

/-- The part behind the marker. -/
theorem takes_marked (order : ByteOrder) {count least : ℕ} (message : String)
    (hlimit : count < limit σ) :
    Takes (do
      let nSizeRet ← readData order count
      if nSizeRet < least then throw (.exception message) else checkSize nSizeRet : Program σ ℕ)
      fun value bytes ↦ bytes = memory order count value ∧ least ≤ value ∧ value < 256 ^ count ∧
        value ≤ MAX_SIZE := by
  refine (takes_readData order hlimit).bind fun nSize front ⟨hfront, hnSize⟩ ↦ ?_
  split_ifs with hleast
  · exact Takes.throw _ _
  · refine (takes_checkSize nSize).mono ?_
    rintro value bytes ⟨rfl, hmax, rfl⟩
    exact ⟨by rw [hfront, List.append_nil], Nat.not_lt.mp hleast, hnSize, hmax⟩

/-- What is read as a size is what is written for it. -/
theorem takes_compactSize (order : ByteOrder) (hlimit : 8 < limit σ) :
    Takes (readCompactSize order : Program σ ℕ) fun nSize bytes ↦
      bytes = writeCompactSize order nSize ∧ nSize ≤ MAX_SIZE := by
  refine (takes_readData order (by omega)).bind fun chSize front ⟨hfront, hchSize⟩ ↦ ?_
  subst hfront
  unfold writeCompactSize
  split_ifs with hone htwo hfour
  · refine (takes_checkSize chSize).mono ?_
    rintro value bytes ⟨rfl, hmax, rfl⟩
    rw [if_pos hone, List.append_nil]
    exact ⟨rfl, hmax⟩
  · subst htwo
    refine (takes_marked order _ (by omega)).mono ?_
    rintro value bytes ⟨rfl, hleast, hvalue, hmax⟩
    rw [if_neg (by omega), if_pos (by omega)]
    exact ⟨rfl, hmax⟩
  · subst hfour
    refine (takes_marked order _ (by omega)).mono ?_
    rintro value bytes ⟨rfl, hleast, hvalue, hmax⟩
    rw [if_neg (by omega), if_neg (by omega), if_pos (by omega)]
    exact ⟨rfl, hmax⟩
  · obtain rfl : chSize = 255 := by omega
    refine (takes_marked order _ (by omega)).mono ?_
    rintro value bytes ⟨rfl, hleast, hvalue, hmax⟩
    rw [if_neg (by omega), if_neg (by omega), if_neg (by omega)]
    exact ⟨rfl, hmax⟩

end

end Exc.Serialize
