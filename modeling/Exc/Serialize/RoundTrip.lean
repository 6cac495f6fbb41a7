import Exc.Serialize.CDataStream
import Exc.Serialize.Serialize

/-!
# What is written is read back

`Unserialize` against `Serialize`, for every type: from any stream an object is read back from its
bytes (`reads_unserialize`), and `GetSerializeSize` is the number of them
(`getSerializeSize_eq`). An object that is too large, with more than `MAX_SIZE` elements in a vector
of it, is written and not read.

Without `bool`, maps and sets no other bytes are read as the object (`takes_unserialize`). A `bool`
is read from any byte, and the items of a map from any order.
-/

set_option autoImplicit false
set_option relaxedAutoImplicit false

namespace Exc.Serialize

open Lib ByteOrder

/-! ### Values that are read back -/

/-- The values with not more than `MAX_SIZE` elements; the items of a map are in order. -/
def Valid : (ty : Ty) → ty.Value → Prop
  | .fundamental _ => fun _ ↦ True
  | .bool => fun _ ↦ True
  | .string => fun (str : List UInt8) ↦ str.length ≤ MAX_SIZE
  | .vectorFundamental element => fun (v : List element.Value) ↦ v.length ≤ MAX_SIZE
  | .vector element => fun (v : List element.Value) ↦
    v.length ≤ MAX_SIZE ∧ ∀ item ∈ v, Valid element item
  | .pair first second => fun item ↦ Valid first item.1 ∧ Valid second item.2
  | .tuple3 first second third => fun item ↦
    Valid first item.1 ∧ Valid second item.2.1 ∧ Valid third item.2.2
  | .tuple4 first second third fourth => fun item ↦
    Valid first item.1 ∧ Valid second item.2.1 ∧ Valid third item.2.2.1 ∧ Valid fourth item.2.2.2
  | .map key value => fun (m : List (key.Value × value.Value)) ↦
    m.length ≤ MAX_SIZE ∧ m.Pairwise (fun item other ↦ key.less item.1 other.1 = true) ∧
      ∀ item ∈ m, Valid key item.1 ∧ Valid value item.2
  | .set key => fun (m : List key.Value) ↦
    m.length ≤ MAX_SIZE ∧ m.Pairwise (fun item other ↦ key.less item other = true) ∧
      ∀ item ∈ m, Valid key item

/-- An order in which no two values are less than each other. -/
def Asymm {α : Type} (less : α → α → Bool) : Prop :=
  ∀ value other, less value other = true → less other value = false

theorem asymm_lexLess {α : Type} {less : α → α → Bool} (hless : Asymm less) :
    Asymm (lexLess less) := by
  intro value other
  fun_induction lexLess less value other with
  | case1 => nofun
  | case2 => exact fun _ ↦ rfl
  | case3 first rest other others hlt =>
    intro _
    rw [lexLess, hless first other hlt, hlt]
    rfl
  | case4 => nofun
  | case5 first rest other others hlt hgt ih =>
    intro hrest
    rw [lexLess, if_neg hgt, if_neg hlt]
    exact ih hrest

theorem asymm_pairLess {α β : Type} {lessFirst : α → α → Bool} {lessSecond : β → β → Bool}
    (hfirst : Asymm lessFirst) (hsecond : Asymm lessSecond) :
    Asymm (pairLess lessFirst lessSecond) := by
  intro item other hless
  have hforward := hfirst item.1 other.1
  have hbackward := hfirst other.1 item.1
  have hlast := hsecond item.2 other.2
  simp only [pairLess] at hless ⊢
  cases hfo : lessFirst item.1 other.1 <;> cases hof : lessFirst other.1 item.1 <;> simp_all

theorem asymm_fundamental (element : Fundamental) : Asymm element.less := by
  intro value other hless
  rw [Fundamental.less] at hless ⊢
  split_ifs at hless ⊢ with hsigned
  · rw [BitVec.slt_iff_toInt_lt] at hless
    rw [← Bool.not_eq_true, BitVec.slt_iff_toInt_lt]
    omega
  · rw [BitVec.ult_iff_lt] at hless
    rw [← Bool.not_eq_true, BitVec.ult_iff_lt]
    exact fun hgt ↦ absurd (BitVec.lt_trans hless hgt) (BitVec.lt_irrefl _)

theorem asymm_less (ty : Ty) : Asymm ty.less := by
  induction ty with
  | fundamental element => exact asymm_fundamental element
  | bool =>
    intro value other
    revert value other
    exact (by decide : ∀ value other : Bool,
      (!value && other) = true → (!other && value) = false)
  | string =>
    refine asymm_lexLess fun value other hless ↦ ?_
    rw [decide_eq_true_eq] at hless
    rw [decide_eq_false_iff_not]
    exact UInt8.lt_asymm hless
  | vectorFundamental element => exact asymm_lexLess (asymm_fundamental element)
  | vector element ih => exact asymm_lexLess ih
  | pair first second ihFirst ihSecond => exact asymm_pairLess ihFirst ihSecond
  | tuple3 first second third ih0 ih1 ih2 => exact asymm_pairLess ih0 (asymm_pairLess ih1 ih2)
  | tuple4 first second third fourth ih0 ih1 ih2 ih3 =>
    exact asymm_pairLess ih0 (asymm_pairLess ih1 (asymm_pairLess ih2 ih3))
  | map key value ihKey ihValue => exact asymm_lexLess (asymm_pairLess ihKey ihValue)
  | set key ih => exact asymm_lexLess ih

/-- An item behind all others is inserted at the end. -/
theorem insert_of_forall_less {α : Type} {less : α → α → Bool} (hless : Asymm less) {item : α}
    {items : List α} (hitems : ∀ other ∈ items, less other item = true) :
    insert less item items = items ++ [item] := by
  induction items with
  | nil => rfl
  | cons other items ih =>
    obtain ⟨hother, hrest⟩ := List.forall_mem_cons.mp hitems
    rw [insert, hless other item hother, if_neg Bool.false_ne_true, if_pos hother, ih hrest,
      List.cons_append]

/-- Items that come in order stay in order. -/
theorem foldl_insert {α : Type} {less : α → α → Bool} (hless : Asymm less) {items front : List α}
    (hpairwise : (front ++ items).Pairwise fun item other ↦ less item other = true) :
    items.foldl (fun m item ↦ insert less item m) front = front ++ items := by
  induction items generalizing front with
  | nil => rw [List.foldl_nil, List.append_nil]
  | cons item items ih =>
    have hfront : ∀ other ∈ front, less other item = true := fun other hmem ↦
      (List.pairwise_append.mp hpairwise).2.2 other hmem item (List.mem_cons_self ..)
    rw [List.append_cons] at hpairwise
    rw [List.foldl_cons, insert_of_forall_less hless hfront, ih hpairwise, ← List.append_cons]

/-! ### Sizes -/

variable {α : Type}

theorem addSizes_eq {size : α → ℕ} {code : α → List UInt8}
    (hsize : ∀ item, size item = (code item).length % 2 ^ 32) {nSize : ℕ} (hnSize : nSize < 2 ^ 32)
    (items : List α) :
    addSizes size nSize items = (nSize + (items.flatMap code).length) % 2 ^ 32 := by
  induction items generalizing nSize with
  | nil => exact (Nat.mod_eq_of_lt hnSize).symm
  | cons item items ih =>
    have hstep : addSizes size nSize (item :: items) =
        addSizes size ((nSize + size item) % 2 ^ 32) items := rfl
    rw [hstep, ih (Nat.mod_lt _ (by decide)), hsize, List.flatMap_cons, List.length_append]
    omega

theorem getSizeOfCompactSize_lt (nSize : ℕ) : getSizeOfCompactSize nSize < 2 ^ 32 := by
  unfold getSizeOfCompactSize
  split_ifs
  · decide
  · decide
  · decide
  · decide

/-- Items behind their number. -/
theorem addSizes_counted (order : ByteOrder) {size : α → ℕ} {code : α → List UInt8}
    (hsize : ∀ item, size item = (code item).length % 2 ^ 32) (items : List α) :
    addSizes size (getSizeOfCompactSize items.length) items =
      (writeCompactSize order items.length ++ items.flatMap code).length % 2 ^ 32 := by
  rw [addSizes_eq hsize (getSizeOfCompactSize_lt _), List.length_append, length_writeCompactSize]

theorem length_bytes (order : ByteOrder) (element : Fundamental) (value : element.Value) :
    (element.bytes order value).length = element.sizeof := length_memory _ _ _

theorem length_flatMap_bytes (order : ByteOrder) (element : Fundamental) (v : List element.Value) :
    (v.flatMap (element.bytes order)).length = v.length * element.sizeof := by
  induction v with
  | nil => exact (Nat.zero_mul _).symm
  | cons value v ih =>
    rw [List.flatMap_cons, List.length_append, ih, length_bytes, List.length_cons, Nat.succ_mul,
      Nat.add_comm]

/-- Two sizes are added as the bytes of the two are put together. -/
theorem add_sizes_mod {front back : List UInt8} {first second : ℕ}
    (hfirst : first = front.length % 2 ^ 32) (hsecond : second = back.length % 2 ^ 32) :
    (first + second) % 2 ^ 32 = (front ++ back).length % 2 ^ 32 := by
  rw [hfirst, hsecond, List.length_append, ← Nat.add_mod]

variable (platform : Platform)

/-- `GetSerializeSize` is the number of bytes, in 32 bits. -/
theorem getSerializeSize_eq (ty : Ty) : ∀ value : ty.Value,
    getSerializeSize ty value = (serialize platform ty value).length % 2 ^ 32 := by
  induction ty with
  | fundamental element =>
    intro value
    have hlength := length_bytes platform.order element value
    change element.sizeof = (element.bytes platform.order value).length % 2 ^ 32
    rw [hlength]
    cases element <;> rfl
  | bool => exact fun value ↦ (congrArg (· % 2 ^ 32) (length_memory platform.order 1 _)).symm
  | string =>
    intro (str : List UInt8)
    change (getSizeOfCompactSize str.length + str.length * 1) % 2 ^ 32 =
      (writeCompactSize platform.order str.length ++ str).length % 2 ^ 32
    rw [List.length_append, length_writeCompactSize, Nat.mul_one]
  | vectorFundamental element =>
    intro (v : List element.Value)
    change _ = (writeCompactSize platform.order v.length ++
      v.flatMap (element.bytes platform.order)).length % 2 ^ 32
    rw [List.length_append, length_writeCompactSize, length_flatMap_bytes]
    rfl
  | vector element ih => exact addSizes_counted platform.order ih
  | pair first second ihFirst ihSecond =>
    exact fun item ↦ add_sizes_mod (ihFirst item.1) (ihSecond item.2)
  | tuple3 first second third ih0 ih1 ih2 =>
    exact fun item ↦ add_sizes_mod (add_sizes_mod (ih0 item.1) (ih1 item.2.1)) (ih2 item.2.2)
  | tuple4 first second third fourth ih0 ih1 ih2 ih3 =>
    exact fun item ↦ add_sizes_mod
      (add_sizes_mod (add_sizes_mod (ih0 item.1) (ih1 item.2.1)) (ih2 item.2.2.1)) (ih3 item.2.2.2)
  | map key value ihKey ihValue =>
    exact addSizes_counted platform.order fun item ↦
      add_sizes_mod (ihKey item.1) (ihValue item.2)
  | set key ih => exact addSizes_counted platform.order ih

/-! ### Reading -/

section

variable {σ : Type} [LawfulByteStream σ]

open LawfulByteStream

theorem reads_readMany {one : Program σ α} {code : α → List UInt8} {items : List α}
    (hone : ∀ item ∈ items, Reads one (code item) item) :
    Reads (readMany one items.length) (items.flatMap code) items := by
  induction items with
  | nil => exact Reads.pure []
  | cons item items ih =>
    obtain ⟨hitem, hitems⟩ := List.forall_mem_cons.mp hone
    exact hitem.bind ((ih hitems).map (item :: ·))

/-- The steps of the loop do not matter. By induction on what is left. -/
theorem reads_readSteps {one : Program σ α} {code : α → List UInt8} {step : ℕ} (hstep : 0 < step)
    {items : List α} (hone : ∀ item ∈ items, Reads one (code item) item) (nMid : ℕ) :
    Reads (readSteps one step (nMid + items.length) nMid) (items.flatMap code) items := by
  induction hleft : items.length using Nat.strong_induction_on generalizing items nMid with
  | _ left ih =>
    subst hleft
    rw [readSteps]
    by_cases hitems : items = []
    · subst hitems
      rw [List.length_nil, Nat.add_zero, if_neg (Nat.lt_irrefl nMid)]
      exact Reads.pure []
    · have hpos := List.length_pos_iff.mpr hitems
      rw [if_pos (by omega), if_neg hstep.ne']
      have hsplit := List.take_append_drop step items
      have htake : (if nMid + items.length < nMid + step then nMid + items.length
          else nMid + step) = nMid + (items.take step).length := by
        rw [List.length_take]
        split_ifs <;> omega
      have hrest : nMid + items.length =
          nMid + (items.take step).length + (items.drop step).length := by
        rw [Nat.add_assoc, ← List.length_append, hsplit]
      have hdrop : (items.drop step).length < items.length := by
        rw [List.length_drop]
        omega
      have hfirst : Reads (readMany one (items.take step).length) ((items.take step).flatMap code)
          (items.take step) :=
        reads_readMany fun item hmem ↦ hone item (List.mem_of_mem_take hmem)
      have hnext := ih _ hdrop (fun item hmem ↦ hone item (List.mem_of_mem_drop hmem))
        (nMid + (items.take step).length) rfl
      have hcode : items.flatMap code =
          (items.take step).flatMap code ++ (items.drop step).flatMap code := by
        rw [← List.flatMap_append, hsplit]
      have hmap := hnext.map (items.take step ++ ·)
      rw [hsplit, ← hrest] at hmap
      simp only [htake, Nat.add_sub_cancel_left]
      rw [hcode]
      exact hfirst.bind hmap

theorem toNat_lt_pow (element : Fundamental) (value : element.Value) :
    value.toNat < 256 ^ element.sizeof := by
  have hlt := value.isLt
  rwa [pow_mul] at hlt

theorem reads_readFundamental (order : ByteOrder) (element : Fundamental) (value : element.Value)
    (hlimit : 8 < limit σ) :
    Reads (readFundamental order element : Program σ element.Value) (element.bytes order value)
      value := by
  have hsize : element.sizeof < limit σ := by
    cases element <;> exact lt_of_le_of_lt (by decide) hlimit
  have hvalue := toNat_lt_pow element value
  have hmap := (reads_readData (σ := σ) order hvalue hsize).map (BitVec.ofNat (8 * element.sizeof))
  rwa [BitVec.ofNat_toNat, BitVec.setWidth_eq] at hmap

/-- The first element in memory. -/
theorem elements_succ (order : ByteOrder) (element : Fundamental) (count : ℕ)
    {front : List UInt8} (hfront : front.length = element.sizeof) (rest : List UInt8) :
    elements order element (count + 1) (front ++ rest) =
      BitVec.ofNat _ (load order front) :: elements order element count rest := by
  rw [elements, List.range_succ_eq_map, List.map_cons, List.map_map, Nat.zero_mul, List.drop_zero,
    List.take_left' hfront]
  congr 1
  refine List.map_congr_left fun index _ ↦ ?_
  have hindex : (index + 1) * element.sizeof = element.sizeof + index * element.sizeof := by
    rw [Nat.succ_mul, Nat.add_comm]
  rw [Function.comp_apply, Nat.succ_eq_add_one, hindex, ← List.drop_drop, List.drop_left' hfront]

theorem ofNat_load_bytes (order : ByteOrder) (element : Fundamental) (value : element.Value) :
    BitVec.ofNat (8 * element.sizeof) (load order (element.bytes order value)) = value := by
  rw [Fundamental.bytes, load_memory order (toNat_lt_pow element value), BitVec.ofNat_toNat,
    BitVec.setWidth_eq]

/-- Consecutive memory holds the elements. -/
theorem elements_flatMap (order : ByteOrder) (element : Fundamental) (v : List element.Value) :
    elements order element v.length (v.flatMap (element.bytes order)) = v := by
  induction v with
  | nil => rfl
  | cons value v ih =>
    rw [List.length_cons, List.flatMap_cons, elements_succ order element _ (length_bytes _ _ _), ih,
      ofNat_load_bytes]

/-- A block is not much larger than 5000000 bytes. -/
theorem block_le (element : Fundamental) :
    (1 + 4999999 / element.sizeof) * element.sizeof ≤ 5000007 := by
  cases element <;> decide

/-- The blocks of the loop do not matter. By induction on what is left. -/
theorem reads_readBlocks (order : ByteOrder) (element : Fundamental) (hlimit : 2 ^ 26 ≤ limit σ)
    (v : List element.Value) (i : ℕ) :
    Reads (readBlocks order element (i + v.length) i : Program σ (List element.Value))
      (v.flatMap (element.bytes order)) v := by
  induction hleft : v.length using Nat.strong_induction_on generalizing v i with
  | _ left ih =>
    subst hleft
    rw [readBlocks]
    by_cases hv : v = []
    · subst hv
      rw [List.length_nil, Nat.add_zero, if_neg (Nat.lt_irrefl i)]
      exact Reads.pure []
    · have hpos := List.length_pos_iff.mpr hv
      rw [if_pos (by omega), Nat.add_sub_cancel_left]
      have hblkPos : 0 < 1 + 4999999 / element.sizeof := Nat.add_pos_left Nat.one_pos _
      have hblkLe := block_le element
      generalize 1 + 4999999 / element.sizeof = blk at hblkPos hblkLe ⊢
      have hsplit := List.take_append_drop blk v
      have htake : min v.length blk = (v.take blk).length := by
        rw [List.length_take, Nat.min_comm]
      have hrest : i + v.length = i + (v.take blk).length + (v.drop blk).length := by
        rw [Nat.add_assoc, ← List.length_append, hsplit]
      have hdrop : (v.drop blk).length < v.length := by
        rw [List.length_drop]
        omega
      have hbytes := length_flatMap_bytes order element (v.take blk)
      have hsmall : ((v.take blk).flatMap (element.bytes order)).length < limit σ := by
        rw [hbytes]
        have hle := Nat.mul_le_mul_right element.sizeof (List.length_take_le blk v)
        omega
      have hcode : v.flatMap (element.bytes order) =
          (v.take blk).flatMap (element.bytes order) ++
            (v.drop blk).flatMap (element.bytes order) := by
        rw [← List.flatMap_append, hsplit]
      have hmap := (ih _ hdrop (v.drop blk) (i + (v.take blk).length) rfl).map
        (elements order element (v.take blk).length
          ((v.take blk).flatMap (element.bytes order)) ++ ·)
      rw [elements_flatMap, hsplit, ← hrest] at hmap
      simp only [htake, ← hbytes]
      rw [hcode]
      exact (Reads.read hsmall).bind (by
        simp only [elements_flatMap]
        exact hmap)

/-- Two objects one after the other. -/
theorem reads_two {β : Type} {first : Program σ α} {second : Program σ β} {front back : List UInt8}
    {item : α} {other : β} (hfirst : Reads first front item) (hsecond : Reads second back other) :
    Reads (do
      let item ← first
      let other ← second
      return (item, other) : Program σ (α × β)) (front ++ back) (item, other) :=
  hfirst.bind (hsecond.map (item, ·))

/-- The objects of a map or of a set, in order. -/
theorem reads_counted {one : Program σ α} {code : α → List UInt8} {less : α → α → Bool}
    (hlimit : 8 < limit σ) (hless : Asymm less) {items : List α} (hmax : items.length ≤ MAX_SIZE)
    (hpairwise : items.Pairwise fun item other ↦ less item other = true)
    (hone : ∀ item ∈ items, Reads one (code item) item) :
    Reads (do
      let nSize ← readCompactSize platform.order
      let items ← readMany one nSize
      return items.foldl (fun m item ↦ insert less item m) [] : Program σ (List α))
      (writeCompactSize platform.order items.length ++ items.flatMap code) items := by
  have hmany := (reads_readMany hone).map fun items ↦
    items.foldl (fun m item ↦ insert less item m) []
  have hfold : items.foldl (fun m item ↦ insert less item m) [] = [] ++ items :=
    foldl_insert hless (by rwa [List.nil_append])
  rw [hfold, List.nil_append] at hmany
  exact (reads_compactSize platform.order hmax hlimit).bind hmany

/-- `Unserialize` gives what was serialized. By induction on the type. -/
theorem reads_unserialize (hlimit : 2 ^ 26 ≤ limit σ) (ty : Ty) (hblocks : BlocksFit platform ty) :
    ∀ value : ty.Value, Valid ty value →
      Reads (unserialize platform ty : Program σ ty.Value) (serialize platform ty value) value := by
  have height : 8 < limit σ := lt_of_lt_of_le (by decide) hlimit
  induction ty with
  | fundamental element =>
    exact fun value _ ↦ reads_readFundamental platform.order element value height
  | bool =>
    intro (value : Bool) _
    have hvalue : value.toNat < 256 ^ 1 := by cases value <;> decide
    have hread := (reads_readData (σ := σ) platform.order hvalue (by omega)).map
      fun f ↦ decide (f ≠ 0)
    have hbool : decide (value.toNat ≠ 0) = value := by cases value <;> rfl
    rw [hbool] at hread
    exact hread
  | string =>
    intro (str : List UInt8) (hmax : str.length ≤ MAX_SIZE)
    refine (reads_compactSize platform.order hmax height).bind ?_
    by_cases hempty : str.length = 0
    · obtain rfl := List.length_eq_zero_iff.mp hempty
      exact Reads.pure []
    · rw [if_pos hempty]
      exact Reads.read (lt_of_lt_of_le (lt_of_le_of_lt hmax (by decide)) hlimit)
  | vectorFundamental element =>
    intro (v : List element.Value) (hmax : v.length ≤ MAX_SIZE)
    have hblocks := reads_readBlocks (σ := σ) platform.order element hlimit v 0
    rw [Nat.zero_add] at hblocks
    exact (reads_compactSize platform.order hmax height).bind hblocks
  | vector element ih =>
    intro (v : List element.Value) ⟨hmax, hitems⟩
    have hstep : 0 < 5000000 / platform.sizeof element :=
      Nat.div_pos hblocks.1 (platform.sizeof_pos element)
    have hsteps := reads_readSteps (σ := σ) hstep
      (fun item hmem ↦ ih hblocks.2 item (hitems item hmem)) 0
    rw [Nat.zero_add] at hsteps
    exact (reads_compactSize platform.order hmax height).bind hsteps
  | pair first second ihFirst ihSecond =>
    intro item ⟨hfirst, hsecond⟩
    exact reads_two (ihFirst hblocks.1 _ hfirst) (ihSecond hblocks.2 _ hsecond)
  | tuple3 first second third ih0 ih1 ih2 =>
    intro item ⟨h0, h1, h2⟩
    change Reads _ (serialize platform first item.1 ++ serialize platform second item.2.1 ++
      serialize platform third item.2.2) _
    rw [List.append_assoc]
    refine (ih0 hblocks.1 _ h0).bind ((ih1 hblocks.2.1 _ h1).bind ?_)
    exact (ih2 hblocks.2.2 _ h2).map fun item2 ↦ (item.1, item.2.1, item2)
  | tuple4 first second third fourth ih0 ih1 ih2 ih3 =>
    intro item ⟨h0, h1, h2, h3⟩
    change Reads _ (serialize platform first item.1 ++ serialize platform second item.2.1 ++
      serialize platform third item.2.2.1 ++ serialize platform fourth item.2.2.2) _
    rw [List.append_assoc, List.append_assoc]
    refine (ih0 hblocks.1 _ h0).bind ((ih1 hblocks.2.1 _ h1).bind
      ((ih2 hblocks.2.2.1 _ h2).bind ?_))
    exact (ih3 hblocks.2.2.2 _ h3).map fun item3 ↦ (item.1, item.2.1, item.2.2.1, item3)
  | map key value ihKey ihValue =>
    intro (m : List (key.Value × value.Value)) ⟨hmax, hpairwise, hitems⟩
    refine reads_counted platform height (fun item other ↦ asymm_less key item.1 other.1) hmax
      hpairwise fun item hmem ↦ ?_
    exact reads_two (ihKey hblocks.1 _ (hitems item hmem).1)
      (ihValue hblocks.2 _ (hitems item hmem).2)
  | set key ih =>
    intro (m : List key.Value) ⟨hmax, hpairwise, hitems⟩
    exact reads_counted platform height (asymm_less key) hmax hpairwise fun item hmem ↦
      ih hblocks item (hitems item hmem)

/-! ### Only what is written -/

theorem takes_readMany {one : Program σ α} {code : α → List UInt8} {Good : α → Prop}
    (hone : Takes one fun item bytes ↦ bytes = code item ∧ Good item) (count : ℕ) :
    Takes (readMany one count) fun items bytes ↦
      bytes = items.flatMap code ∧ items.length = count ∧ ∀ item ∈ items, Good item := by
  induction count with
  | zero => exact Takes.pure ⟨rfl, rfl, List.forall_mem_nil _⟩
  | succ count ih =>
    refine hone.bind fun item front ⟨hfront, hitem⟩ ↦
      ih.bind fun items back ⟨hback, hlength, hitems⟩ ↦
        Takes.pure ⟨?_, ?_, List.forall_mem_cons.mpr ⟨hitem, hitems⟩⟩
    · rw [List.append_nil, List.flatMap_cons, hfront, hback]
    · rw [List.length_cons, hlength]

theorem takes_readSteps {one : Program σ α} {code : α → List UInt8} {Good : α → Prop}
    (hone : Takes one fun item bytes ↦ bytes = code item ∧ Good item) (step : ℕ)
    {nSize nMid : ℕ} (hle : nMid ≤ nSize) :
    Takes (readSteps one step nSize nMid) fun items bytes ↦
      bytes = items.flatMap code ∧ items.length = nSize - nMid ∧ ∀ item ∈ items, Good item := by
  induction hleft : nSize - nMid using Nat.strong_induction_on generalizing nMid with
  | _ left ih =>
    subst hleft
    rw [readSteps]
    by_cases hmore : nMid < nSize
    · rw [if_pos hmore]
      by_cases hstep : step = 0
      · rw [if_pos hstep]
        exact Takes.throw _ _
      rw [if_neg hstep]
      generalize hnext : (if nSize < nMid + step then nSize else nMid + step) = next
      have hbounds : nMid < next ∧ next ≤ nSize := by
        rw [← hnext]
        split_ifs <;> omega
      refine (takes_readMany hone (next - nMid)).bind fun items front ⟨hfront, hlength, hitems⟩ ↦ ?_
      refine (ih (nSize - next) (by omega) hbounds.2 rfl).bind
        fun rest back ⟨hback, hrestLength, hrest⟩ ↦ Takes.pure ⟨?_, ?_, ?_⟩
      · rw [List.append_nil, List.flatMap_append, hfront, hback]
      · rw [List.length_append, hlength, hrestLength]
        omega
      · exact List.forall_mem_append.mpr ⟨hitems, hrest⟩
    · rw [if_neg hmore]
      exact Takes.pure ⟨rfl, by rw [List.length_nil]; omega, List.forall_mem_nil _⟩

theorem bytes_ofNat_load (order : ByteOrder) (element : Fundamental) {front : List UInt8}
    (hfront : front.length = element.sizeof) :
    element.bytes order (BitVec.ofNat _ (load order front)) = front := by
  have hlt : load order front < 2 ^ (8 * element.sizeof) := by
    have hload := load_lt order front
    rw [hfront] at hload
    rwa [pow_mul]
  rw [Fundamental.bytes, BitVec.toNat_ofNat, Nat.mod_eq_of_lt hlt, ← hfront, memory_load]

theorem takes_readFundamental (order : ByteOrder) (element : Fundamental) (hlimit : 8 < limit σ) :
    Takes (readFundamental order element : Program σ element.Value) fun value bytes ↦
      bytes = element.bytes order value := by
  have hsize : element.sizeof < limit σ := by
    cases element <;> exact lt_of_le_of_lt (by decide) hlimit
  refine (takes_readData order hsize).bind fun value front ⟨hfront, hvalue⟩ ↦ Takes.pure ?_
  have hlt : value < 2 ^ (8 * element.sizeof) := by rwa [pow_mul]
  rw [List.append_nil, Fundamental.bytes, BitVec.toNat_ofNat, Nat.mod_eq_of_lt hlt, hfront]

/-- The elements that memory holds are in that memory. -/
theorem flatMap_elements (order : ByteOrder) (element : Fundamental) {count : ℕ}
    {bytes : List UInt8} (hbytes : bytes.length = count * element.sizeof) :
    (elements order element count bytes).flatMap (element.bytes order) = bytes := by
  induction count generalizing bytes with
  | zero =>
    rw [Nat.zero_mul] at hbytes
    rw [List.length_eq_zero_iff.mp hbytes]
    rfl
  | succ count ih =>
    rw [Nat.succ_mul] at hbytes
    have hfront : (bytes.take element.sizeof).length = element.sizeof :=
      List.length_take_of_le (by omega)
    have hrest : (bytes.drop element.sizeof).length = count * element.sizeof := by
      rw [List.length_drop]
      omega
    have hsplit := List.take_append_drop element.sizeof bytes
    have helements := elements_succ order element count hfront (bytes.drop element.sizeof)
    rw [hsplit] at helements
    rw [helements, List.flatMap_cons, ih hrest, bytes_ofNat_load order element hfront, hsplit]

theorem takes_readBlocks (order : ByteOrder) (element : Fundamental) (hlimit : 2 ^ 26 ≤ limit σ)
    {nSize i : ℕ} (hle : i ≤ nSize) :
    Takes (readBlocks order element nSize i : Program σ (List element.Value)) fun v bytes ↦
      bytes = v.flatMap (element.bytes order) ∧ v.length = nSize - i := by
  induction hleft : nSize - i using Nat.strong_induction_on generalizing i with
  | _ left ih =>
    subst hleft
    rw [readBlocks]
    split_ifs with hmore
    · have hblkPos : 0 < 1 + 4999999 / element.sizeof := Nat.add_pos_left Nat.one_pos _
      have hblkLe := block_le element
      generalize 1 + 4999999 / element.sizeof = step at hblkPos hblkLe ⊢
      generalize hblk : min (nSize - i) step = blk
      have hsmall : blk * element.sizeof < limit σ := by
        have hmul := Nat.mul_le_mul_right element.sizeof (show blk ≤ step by omega)
        omega
      refine (Takes.read hsmall).bind fun bytes front ⟨hbytes, hlength⟩ ↦ ?_
      subst hbytes
      refine (ih (nSize - (i + blk)) (by omega) (by omega) rfl).bind
        fun rest back ⟨hback, hrest⟩ ↦ Takes.pure ⟨?_, ?_⟩
      · rw [List.append_nil, List.flatMap_append, flatMap_elements order element hlength, hback]
      · rw [List.length_append, hrest, elements, List.length_map, List.length_range]
        omega
    · exact Takes.pure ⟨rfl, by rw [List.length_nil]; omega⟩

/-- The types without `bool`, maps and sets. -/
def Canonical : Ty → Prop
  | .fundamental _ | .string | .vectorFundamental _ => True
  | .bool | .map _ _ | .set _ => False
  | .vector element => Canonical element
  | .pair first second => Canonical first ∧ Canonical second
  | .tuple3 first second third => Canonical first ∧ Canonical second ∧ Canonical third
  | .tuple4 first second third fourth =>
    Canonical first ∧ Canonical second ∧ Canonical third ∧ Canonical fourth

/-- What `Unserialize` takes is what is serialized. By induction on the type. -/
theorem takes_unserialize (hlimit : 2 ^ 26 ≤ limit σ) (ty : Ty) (hcanonical : Canonical ty) :
    Takes (unserialize platform ty : Program σ ty.Value) fun value bytes ↦
      bytes = serialize platform ty value ∧ Valid ty value := by
  have height : 8 < limit σ := lt_of_lt_of_le (by decide) hlimit
  induction ty with
  | fundamental element =>
    exact (takes_readFundamental platform.order element height).mono
      fun value bytes hbytes ↦ ⟨hbytes, trivial⟩
  | bool => exact hcanonical.elim
  | string =>
    refine (takes_compactSize platform.order height).bind fun nSize front ⟨hfront, hmax⟩ ↦ ?_
    split_ifs with hempty
    · refine (Takes.read (lt_of_lt_of_le (lt_of_le_of_lt hmax (by decide)) hlimit)).mono ?_
      rintro str bytes ⟨rfl, rfl⟩
      exact ⟨by rw [hfront]; rfl, hmax⟩
    · obtain rfl : nSize = 0 := not_not.mp hempty
      exact Takes.pure ⟨by rw [hfront]; rfl, hmax⟩
  | vectorFundamental element =>
    refine (takes_compactSize platform.order height).bind fun nSize front ⟨hfront, hmax⟩ ↦ ?_
    refine (takes_readBlocks platform.order element hlimit (Nat.zero_le nSize)).mono ?_
    rintro v bytes ⟨rfl, hlength⟩
    obtain rfl : v.length = nSize := hlength
    exact ⟨by rw [hfront]; rfl, hmax⟩
  | vector element ih =>
    refine (takes_compactSize platform.order height).bind fun nSize front ⟨hfront, hmax⟩ ↦ ?_
    refine (takes_readSteps (ih hcanonical) _ (Nat.zero_le nSize)).mono ?_
    rintro v bytes ⟨rfl, hlength, hitems⟩
    obtain rfl : v.length = nSize := hlength
    exact ⟨by rw [hfront]; rfl, hmax, hitems⟩
  | pair first second ihFirst ihSecond =>
    refine (ihFirst hcanonical.1).bind fun item front ⟨hfront, hitem⟩ ↦
      (ihSecond hcanonical.2).bind fun other back ⟨hback, hother⟩ ↦
        Takes.pure ⟨?_, hitem, hother⟩
    rw [List.append_nil, hfront, hback]
    rfl
  | tuple3 first second third ih0 ih1 ih2 =>
    refine (ih0 hcanonical.1).bind fun item0 front0 ⟨hfront0, hitem0⟩ ↦
      (ih1 hcanonical.2.1).bind fun item1 front1 ⟨hfront1, hitem1⟩ ↦
        (ih2 hcanonical.2.2).bind fun item2 front2 ⟨hfront2, hitem2⟩ ↦
          Takes.pure ⟨?_, hitem0, hitem1, hitem2⟩
    rw [List.append_nil, hfront0, hfront1, hfront2, ← List.append_assoc]
    rfl
  | tuple4 first second third fourth ih0 ih1 ih2 ih3 =>
    refine (ih0 hcanonical.1).bind fun item0 front0 ⟨hfront0, hitem0⟩ ↦
      (ih1 hcanonical.2.1).bind fun item1 front1 ⟨hfront1, hitem1⟩ ↦
        (ih2 hcanonical.2.2.1).bind fun item2 front2 ⟨hfront2, hitem2⟩ ↦
          (ih3 hcanonical.2.2.2).bind fun item3 front3 ⟨hfront3, hitem3⟩ ↦
            Takes.pure ⟨?_, hitem0, hitem1, hitem2, hitem3⟩
    rw [List.append_nil, hfront0, hfront1, hfront2, hfront3, ← List.append_assoc,
      ← List.append_assoc]
    rfl
  | map key value => exact hcanonical.elim
  | set key => exact hcanonical.elim

end

end Exc.Serialize
