import Exc.Serialize.CompactSize
import Mathlib.Data.List.Flatten

/-!
# Serialize, Unserialize and GetSerializeSize

The templates of `serialize.h`, for the types that they can be used at (`Ty`): the fundamental
integers, `bool`, strings, and what is built of these by vectors, pairs, tuples, maps and sets.

The byte order of the machine, and how large the objects of a type are in memory, are given by a
`Platform`: a vector is read in blocks of some megabytes. When an element alone has more than
5000000 bytes the loop that reads a vector makes no step (`Stop.endless`), so `BlocksFit` is what
reading a type asks of a platform. Floating-point numbers are not modelled.
-/

set_option autoImplicit false
set_option relaxedAutoImplicit false

namespace Exc.Serialize

open Lib ByteOrder

/-! ### Types -/

/-- The fundamental integers. -/
inductive Fundamental
  | char | signedChar | unsignedChar
  | short | unsignedShort
  | int | unsignedInt
  | long | unsignedLong
  | longLong | unsignedLongLong
  deriving DecidableEq, Repr

/-- `sizeof`, on a machine whose `long` has 64 bits. -/
def Fundamental.sizeof : Fundamental → ℕ
  | .char | .signedChar | .unsignedChar => 1
  | .short | .unsignedShort => 2
  | .int | .unsignedInt => 4
  | .long | .unsignedLong | .longLong | .unsignedLongLong => 8

def Fundamental.isSigned : Fundamental → Bool
  | .char | .signedChar | .short | .int | .long | .longLong => true
  | .unsignedChar | .unsignedShort | .unsignedInt | .unsignedLong | .unsignedLongLong => false

/-- The types. A vector of a fundamental type has an overload of its own. -/
inductive Ty
  | fundamental (element : Fundamental)
  | bool
  | string
  | vectorFundamental (element : Fundamental)
  | vector (element : Ty)
  | pair (first second : Ty)
  | tuple3 (first second third : Ty)
  | tuple4 (first second third fourth : Ty)
  | map (key value : Ty)
  | set (key : Ty)
  deriving DecidableEq, Repr

/-- The values of a fundamental type. -/
abbrev Fundamental.Value (element : Fundamental) : Type := BitVec (8 * element.sizeof)

/-- The values of a type. A map and a set are lists, in the order of the keys. -/
def Ty.Value : Ty → Type
  | .fundamental element => element.Value
  | .bool => Bool
  | .string => List UInt8
  | .vectorFundamental element => List element.Value
  | .vector element => List element.Value
  | .pair first second => first.Value × second.Value
  | .tuple3 first second third => first.Value × second.Value × third.Value
  | .tuple4 first second third fourth => first.Value × second.Value × third.Value × fourth.Value
  | .map key value => List (key.Value × value.Value)
  | .set key => List key.Value

/-! ### The order of keys -/

/-- `std::lexicographical_compare`. -/
def lexLess {α : Type} (less : α → α → Bool) : List α → List α → Bool
  | _, [] => false
  | [], _ :: _ => true
  | first :: rest, other :: others =>
    if less first other then true
    else if less other first then false
    else lexLess less rest others

/-- The order of a pair, by its parts. -/
def pairLess {α β : Type} (lessFirst : α → α → Bool) (lessSecond : β → β → Bool)
    (item other : α × β) : Bool :=
  lessFirst item.1 other.1 || (!lessFirst other.1 item.1 && lessSecond item.2 other.2)

def Fundamental.less (element : Fundamental) (value other : element.Value) : Bool :=
  if element.isSigned then value.slt other else value.ult other

/-- `std::less`. -/
def Ty.less : (ty : Ty) → ty.Value → ty.Value → Bool
  | .fundamental element => element.less
  | .bool => fun value other ↦ !value && other
  | .string => lexLess fun value other ↦ decide (value < other)
  | .vectorFundamental element => lexLess element.less
  | .vector element => lexLess element.less
  | .pair first second => pairLess first.less second.less
  | .tuple3 first second third => pairLess first.less (pairLess second.less third.less)
  | .tuple4 first second third fourth =>
    pairLess first.less (pairLess second.less (pairLess third.less fourth.less))
  | .map key value => lexLess (pairLess key.less value.less)
  | .set key => lexLess key.less

/-- `insert` of a map or a set, where items are compared by their keys: an item with an equivalent
key stays. -/
def insert {α : Type} (less : α → α → Bool) (item : α) : List α → List α
  | [] => [item]
  | other :: others =>
    if less item other then item :: other :: others
    else if less other item then other :: insert less item others
    else other :: others

/-! ### Platforms -/

/-- What the templates depend on, besides the code. -/
structure Platform where
  order : ByteOrder
  sizeof : Ty → ℕ
  sizeof_pos : ∀ ty, 0 < sizeof ty

/-- No element of a vector has more than 5000000 bytes in memory. -/
def BlocksFit (platform : Platform) : Ty → Prop
  | .fundamental _ | .bool | .string | .vectorFundamental _ => True
  | .vector element => platform.sizeof element ≤ 5000000 ∧ BlocksFit platform element
  | .pair first second => BlocksFit platform first ∧ BlocksFit platform second
  | .tuple3 first second third =>
    BlocksFit platform first ∧ BlocksFit platform second ∧ BlocksFit platform third
  | .tuple4 first second third fourth =>
    BlocksFit platform first ∧ BlocksFit platform second ∧ BlocksFit platform third ∧
      BlocksFit platform fourth
  | .map key value => BlocksFit platform key ∧ BlocksFit platform value
  | .set key => BlocksFit platform key

/-- Two members of a structure, as size and alignment. -/
def members (first second : ℕ × ℕ) : ℕ × ℕ :=
  let align := max first.2 second.2
  let roundUp (size align : ℕ) : ℕ := (size + align - 1) / align * align
  (roundUp (roundUp first.1 second.2 + second.1) align, align)

/-- The size and the alignment of a type with the standard library of GCC for 64 bits; a
`boost::tuple` is a list of pairs. -/
def layout : Ty → ℕ × ℕ
  | .fundamental element => (element.sizeof, element.sizeof)
  | .bool => (1, 1)
  | .string => (32, 8)
  | .vectorFundamental _ | .vector _ => (24, 8)
  | .pair first second => members (layout first) (layout second)
  | .tuple3 first second third => members (layout first) (members (layout second) (layout third))
  | .tuple4 first second third fourth =>
    members (layout first) (members (layout second) (members (layout third) (layout fourth)))
  | .map _ _ | .set _ => (48, 8)

theorem members_pos {first second : ℕ × ℕ} (hfirst : 0 < first.1 ∧ 0 < first.2)
    (hsecond : 0 < second.1 ∧ 0 < second.2) :
    0 < (members first second).1 ∧ 0 < (members first second).2 := by
  have halign : 0 < max first.2 second.2 := hfirst.2.trans_le (le_max_left ..)
  refine ⟨Nat.mul_pos (Nat.div_pos ?_ halign) halign, halign⟩
  omega

theorem layout_pos (ty : Ty) : 0 < (layout ty).1 ∧ 0 < (layout ty).2 := by
  induction ty with
  | fundamental element => cases element <;> decide
  | bool | string | vectorFundamental | vector | map | set =>
    exact ⟨Nat.zero_lt_succ _, Nat.zero_lt_succ _⟩
  | pair first second ihFirst ihSecond => exact members_pos ihFirst ihSecond
  | tuple3 first second third ih0 ih1 ih2 => exact members_pos ih0 (members_pos ih1 ih2)
  | tuple4 first second third fourth ih0 ih1 ih2 ih3 =>
    exact members_pos ih0 (members_pos ih1 (members_pos ih2 ih3))

/-- A little-endian machine with 64 bits. -/
def littlePlatform : Platform := ⟨.little, fun ty ↦ (layout ty).1, fun ty ↦ (layout_pos ty).1⟩

example : littlePlatform.sizeof (.pair (.fundamental .int) .string) = 40 := rfl

/-! ### Writing -/

variable (platform : Platform)

/-- The bytes of a fundamental value in memory. -/
def Fundamental.bytes (order : ByteOrder) (element : Fundamental) (value : element.Value) :
    List UInt8 :=
  memory order element.sizeof value.toNat

/-- `Serialize`: what is written to the stream. -/
def serialize : (ty : Ty) → ty.Value → List UInt8
  | .fundamental element => element.bytes platform.order
  | .bool => fun (value : Bool) ↦ memory platform.order 1 value.toNat
  | .string => fun (str : List UInt8) ↦ writeCompactSize platform.order str.length ++ str
  | .vectorFundamental element => fun (v : List element.Value) ↦
    writeCompactSize platform.order v.length ++ v.flatMap (element.bytes platform.order)
  | .vector element => fun (v : List element.Value) ↦
    writeCompactSize platform.order v.length ++ v.flatMap (serialize element)
  | .pair first second => fun item ↦ serialize first item.1 ++ serialize second item.2
  | .tuple3 first second third => fun item ↦
    serialize first item.1 ++ serialize second item.2.1 ++ serialize third item.2.2
  | .tuple4 first second third fourth => fun item ↦
    serialize first item.1 ++ serialize second item.2.1 ++ serialize third item.2.2.1 ++
      serialize fourth item.2.2.2
  | .map key value => fun (m : List (key.Value × value.Value)) ↦
    writeCompactSize platform.order m.length ++
      m.flatMap fun item ↦ serialize key item.1 ++ serialize value item.2
  | .set key => fun (m : List key.Value) ↦
    writeCompactSize platform.order m.length ++ m.flatMap (serialize key)

/-- The loops of `GetSerializeSize`, in a number of 32 bits. -/
def addSizes {α : Type} (size : α → ℕ) (nSize : ℕ) (items : List α) : ℕ :=
  items.foldl (fun nSize item ↦ (nSize + size item) % 2 ^ 32) nSize

/-- `GetSerializeSize`. -/
def getSerializeSize : (ty : Ty) → ty.Value → ℕ
  | .fundamental element => fun _ ↦ element.sizeof
  | .bool => fun _ ↦ 1
  | .string => fun (str : List UInt8) ↦
    (getSizeOfCompactSize str.length + str.length * 1) % 2 ^ 32
  | .vectorFundamental element => fun (v : List element.Value) ↦
    (getSizeOfCompactSize v.length + v.length * element.sizeof) % 2 ^ 32
  | .vector element => fun (v : List element.Value) ↦
    addSizes (getSerializeSize element) (getSizeOfCompactSize v.length) v
  | .pair first second => fun item ↦
    (getSerializeSize first item.1 + getSerializeSize second item.2) % 2 ^ 32
  | .tuple3 first second third => fun item ↦
    ((getSerializeSize first item.1 + getSerializeSize second item.2.1) % 2 ^ 32 +
      getSerializeSize third item.2.2) % 2 ^ 32
  | .tuple4 first second third fourth => fun item ↦
    (((getSerializeSize first item.1 + getSerializeSize second item.2.1) % 2 ^ 32 +
      getSerializeSize third item.2.2.1) % 2 ^ 32 + getSerializeSize fourth item.2.2.2) % 2 ^ 32
  | .map key value => fun (m : List (key.Value × value.Value)) ↦
    addSizes
      (fun item ↦ (getSerializeSize key item.1 + getSerializeSize value item.2) % 2 ^ 32)
      (getSizeOfCompactSize m.length) m
  | .set key => fun (m : List key.Value) ↦
    addSizes (getSerializeSize key) (getSizeOfCompactSize m.length) m

/-! ### Reading -/

section

variable {σ : Type} [ByteStream σ]

/-- `READDATA` of a fundamental value. -/
def readFundamental (order : ByteOrder) (element : Fundamental) : Program σ element.Value := do
  let value ← readData order element.sizeof
  return BitVec.ofNat _ value

/-- The elements that consecutive memory holds. -/
def elements (order : ByteOrder) (element : Fundamental) (count : ℕ) (bytes : List UInt8) :
    List element.Value :=
  (List.range count).map fun index ↦
    BitVec.ofNat _ (load order ((bytes.drop (index * element.sizeof)).take element.sizeof))

/-- The loop of the overload for a vector of a fundamental type, from an index on. -/
def readBlocks (order : ByteOrder) (element : Fundamental) (nSize i : ℕ) :
    Program σ (List element.Value) :=
  if i < nSize then do
    let blk := min (nSize - i) (1 + 4999999 / element.sizeof)
    let bytes ← ByteStream.read (blk * element.sizeof)
    let rest ← readBlocks order element nSize (i + blk)
    return elements order element blk bytes ++ rest
  else
    return []
termination_by nSize - i
decreasing_by
  have hnonneg := Nat.zero_le (4999999 / element.sizeof)
  omega

/-- A number of objects, one after the other. -/
def readMany {α : Type} (one : Program σ α) : ℕ → Program σ (List α)
  | 0 => return []
  | count + 1 => do
    let item ← one
    let items ← readMany one count
    return item :: items

/-- The loop of the overload for other vectors: `step` is `5000000 / sizeof(T)`. -/
def readSteps {α : Type} (one : Program σ α) (step nSize nMid : ℕ) : Program σ (List α) :=
  if nMid < nSize then
    if step = 0 then throw .endless
    else do
      let next := if nSize < nMid + step then nSize else nMid + step
      let items ← readMany one (next - nMid)
      let rest ← readSteps one step nSize next
      return items ++ rest
  else
    return []
termination_by nSize - nMid
decreasing_by split <;> omega

/-- `Unserialize`. -/
def unserialize : (ty : Ty) → Program σ ty.Value
  | .fundamental element => readFundamental platform.order element
  | .bool => (do
    let f ← readData platform.order 1
    return f ≠ 0 : Program σ Bool)
  | .string => (do
    let nSize ← readCompactSize platform.order
    if nSize ≠ 0 then ByteStream.read nSize else return [] : Program σ (List UInt8))
  | .vectorFundamental element => (do
    let nSize ← readCompactSize platform.order
    readBlocks platform.order element nSize 0 : Program σ (List element.Value))
  | .vector element => (do
    let nSize ← readCompactSize platform.order
    readSteps (unserialize element) (5000000 / platform.sizeof element) nSize 0 :
      Program σ (List element.Value))
  | .pair first second => (do
    let item ← unserialize first
    let other ← unserialize second
    return (item, other) : Program σ (first.Value × second.Value))
  | .tuple3 first second third => (do
    let item0 ← unserialize first
    let item1 ← unserialize second
    let item2 ← unserialize third
    return (item0, item1, item2) : Program σ (first.Value × second.Value × third.Value))
  | .tuple4 first second third fourth => (do
    let item0 ← unserialize first
    let item1 ← unserialize second
    let item2 ← unserialize third
    let item3 ← unserialize fourth
    return (item0, item1, item2, item3) :
      Program σ (first.Value × second.Value × third.Value × fourth.Value))
  | .map key value => (do
    let nSize ← readCompactSize platform.order
    let items ← readMany (do
      let item ← unserialize key
      let other ← unserialize value
      return (item, other) : Program σ (key.Value × value.Value)) nSize
    return items.foldl
        (fun m item ↦ insert (fun first second ↦ key.less first.1 second.1) item m) []
      : Program σ (List (key.Value × value.Value)))
  | .set key => (do
    let nSize ← readCompactSize platform.order
    let keys ← readMany (unserialize key) nSize
    return keys.foldl (fun m item ↦ insert key.less item m) [] : Program σ (List key.Value))

end

end Exc.Serialize
