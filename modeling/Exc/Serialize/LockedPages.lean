import Exc.Lib.ByteOrder
import Exc.Lib.OrderedMap
import Exc.Lib.Run
import Mathlib.Data.List.Count
import Mathlib.Data.Nat.Bitwise
import Mathlib.Data.Set.Card
import Std.Data.ExtTreeMap

/-!
# LockedPageManager

The class `LockedPageManagerBase`, which keeps pages of memory from being swapped out, and
`secure_allocator`, which locks what it allocates. The system calls `mlock` and `munlock` do not
stack: a page that was locked twice is unlocked by one call. The class counts.

As long as ranges are unlocked as they were locked, the class counts exactly the pages on which a
range that is allocated has a byte, whatever the order of the calls, and no call stops. It drops the
results of the system calls and counts a page also when `mlock` has failed. Only when all of them
succeed are the pages that it counts the locked ones (`locked_iff_of_run`).
-/

set_option autoImplicit false
set_option relaxedAutoImplicit false

namespace Exc.Serialize

open Lib Std

/-- A range of memory: its address and its size. -/
structure Range where
  base_addr : ℕ
  size : ℕ
  deriving DecidableEq, Repr

/-- `LockedPageManagerBase`, with the pages that the system has locked. The size of a page is a
power of two. -/
structure LockedPageManager where
  shift : ℕ
  histogram : ExtTreeMap ℕ ℤ
  locked : ℕ → Bool
  shift_lt : shift < 64

namespace LockedPageManager

def page_size (manager : LockedPageManager) : ℕ := 2 ^ manager.shift

/-- `~(page_size - 1)` in 64 bits. -/
def page_mask (manager : LockedPageManager) : ℕ := 2 ^ 64 - 1 - (manager.page_size - 1)

/-- A turn of the loop of `LockRange`, for the success of `Lock` for each page. -/
def lockPage (mlock : ℕ → Bool) (manager : LockedPageManager) (page : ℕ) :
    Option LockedPageManager :=
  match manager.histogram[page]? with
  | none =>
    some { manager with
      locked := if mlock page then Function.update manager.locked page true else manager.locked
      histogram := manager.histogram.insert page 1 }
  | some count =>
    some { manager with histogram := manager.histogram.insert page (toInt (count + 1)) }

/-- A turn of the loop of `UnlockRange`, for the success of `Unlock` for each page; no value means
that the assertion fails. -/
def unlockPage (munlock : ℕ → Bool) (manager : LockedPageManager) (page : ℕ) :
    Option LockedPageManager :=
  match manager.histogram[page]? with
  | none => none
  | some count =>
    if toInt (count - 1) = 0 then
      some { manager with
        locked := if munlock page then Function.update manager.locked page false else manager.locked
        histogram := manager.histogram.erase page }
    else some { manager with histogram := manager.histogram.insert page (toInt (count - 1)) }

/-- The loop over the pages from `page` to `end_page`. No value means that it stops, or that it
never ends as the address of a page overflows. -/
def forPages (visit : LockedPageManager → ℕ → Option LockedPageManager) (shift : ℕ)
    (manager : LockedPageManager) (page end_page : ℕ) : Option LockedPageManager :=
  if page ≤ end_page then
    (visit manager page).bind fun manager ↦
      if page + 2 ^ shift < 2 ^ 64 then forPages visit shift manager (page + 2 ^ shift) end_page
      else none
  else some manager
termination_by end_page + 1 - page
decreasing_by
  have hpos := Nat.two_pow_pos shift
  omega

/-- `LockRange` and `UnlockRange`, by what they do to a page. -/
def visitRange (visit : LockedPageManager → ℕ → Option LockedPageManager)
    (manager : LockedPageManager) (range : Range) : Option LockedPageManager :=
  if range.size = 0 then some manager
  else
    let start_page := range.base_addr &&& manager.page_mask
    let end_page := (range.base_addr + range.size - 1) % 2 ^ 64 &&& manager.page_mask
    forPages visit manager.shift manager start_page end_page

/-- `LockRange`. -/
def lockRange (mlock : ℕ → Bool) (manager : LockedPageManager) (range : Range) :
    Option LockedPageManager :=
  manager.visitRange (lockPage mlock) range

/-- `UnlockRange`. -/
def unlockRange (munlock : ℕ → Bool) (manager : LockedPageManager) (range : Range) :
    Option LockedPageManager :=
  manager.visitRange (unlockPage munlock) range

/-- `GetLockedPageCount`, which gives the size as an `int`. -/
def getLockedPageCount (manager : LockedPageManager) : ℤ := toInt manager.histogram.size

/-- The constructor, for a system on which nothing is locked. -/
def init (shift : ℕ) (hshift : shift < 64) : LockedPageManager :=
  ⟨shift, ∅, fun _ ↦ false, hshift⟩

/-! ### Pages -/

/-- A range has a byte on a page. -/
def Covers (page_size : ℕ) (range : Range) (page : ℕ) : Prop :=
  page_size ∣ page ∧ range.size ≠ 0 ∧ page < range.base_addr + range.size ∧
    range.base_addr < page + page_size

instance (page_size : ℕ) (range : Range) (page : ℕ) : Decidable (Covers page_size range page) :=
  inferInstanceAs (Decidable (_ ∧ _ ∧ _ ∧ _))

/-- A range does not reach into the last page, behind which addresses overflow. -/
def Fits (page_size : ℕ) (range : Range) : Prop :=
  range.base_addr + range.size + page_size ≤ 2 ^ 64

theorem and_page_mask (manager : LockedPageManager) {addr : ℕ} (haddr : addr < 2 ^ 64) :
    addr &&& manager.page_mask = manager.page_size * (addr / manager.page_size) := by
  have hshift := manager.shift_lt
  have hmask : manager.page_mask = (2 ^ (64 - manager.shift) - 1) <<< manager.shift := by
    have hpow : 2 ^ (64 - manager.shift) * 2 ^ manager.shift = 2 ^ 64 := by
      rw [← Nat.pow_add]
      congr 1
      omega
    have hpos := Nat.two_pow_pos manager.shift
    rw [page_mask, page_size, Nat.shiftLeft_eq, Nat.sub_mul, hpow, Nat.one_mul]
    omega
  have hdiv : manager.page_size * (addr / manager.page_size) =
      (addr >>> manager.shift) <<< manager.shift := by
    rw [page_size, Nat.shiftLeft_eq, Nat.shiftRight_eq_div_pow, Nat.mul_comm]
  rw [hmask, hdiv]
  refine Nat.eq_of_testBit_eq fun i ↦ ?_
  rw [Nat.testBit_and, Nat.testBit_shiftLeft, Nat.testBit_shiftLeft, Nat.testBit_two_pow_sub_one,
    Nat.testBit_shiftRight]
  by_cases hi : manager.shift ≤ i
  · have hindex : manager.shift + (i - manager.shift) = i := by omega
    rw [hindex]
    by_cases hlarge : i < 64
    · have hsmall : i - manager.shift < 64 - manager.shift := by omega
      simp [hi, hsmall]
    · have hzero : addr.testBit i = false :=
        Nat.testBit_lt_two_pow (haddr.trans_le (Nat.pow_le_pow_right (by decide) (by omega)))
      simp [hzero]
  · simp [hi]

/-- The pages from the first to the last byte of a range are those that it covers. -/
theorem covers_iff {page_size : ℕ} (hpos : 0 < page_size) {range : Range} (hsize : range.size ≠ 0)
    (page : ℕ) :
    Covers page_size range page ↔ ∃ index, range.base_addr / page_size ≤ index ∧
      index ≤ (range.base_addr + range.size - 1) / page_size ∧ page = page_size * index := by
  constructor
  · rintro ⟨⟨index, rfl⟩, -, hlast, hfirst⟩
    refine ⟨index, ?_, ?_, rfl⟩
    · rw [← Nat.lt_succ_iff, Nat.div_lt_iff_lt_mul hpos, Nat.succ_mul, Nat.mul_comm]
      exact hfirst
    · rw [Nat.le_div_iff_mul_le hpos, Nat.mul_comm]
      omega
  · rintro ⟨index, hfirst, hlast, rfl⟩
    rw [← Nat.lt_succ_iff, Nat.div_lt_iff_lt_mul hpos, Nat.succ_mul, Nat.mul_comm] at hfirst
    rw [Nat.le_div_iff_mul_le hpos, Nat.mul_comm] at hlast
    exact ⟨Nat.dvd_mul_right _ _, hsize, by omega, hfirst⟩

/-! ### The counts -/

variable {succeeds : Prop}

/-- How often every page is locked, and that the system has locked these pages if its calls
succeed. -/
structure Counts (succeeds : Prop) (manager : LockedPageManager) (count : ℕ → ℕ) : Prop where
  histogram : ∀ page, manager.histogram[page]? =
    if count page = 0 then none else some (count page : ℤ)
  locked : succeeds → ∀ page, manager.locked page = decide (count page ≠ 0)

/-- A page with a new count in the map. -/
theorem Counts.insert {manager : LockedPageManager} {count : ℕ → ℕ}
    (hcounts : Counts succeeds manager count) (page : ℕ) {next : ℕ} (hnext : next ≠ 0)
    {locked : ℕ → Bool} (hlocked : succeeds → locked = Function.update manager.locked page true) :
    Counts succeeds { manager with
      locked := locked
      histogram := manager.histogram.insert page (next : ℤ) }
      (Function.update count page next) where
  histogram other := by
    rw [getElem?_insert_eq]
    by_cases hother : page = other
    · subst hother
      rw [if_pos rfl, Function.update_self, if_neg hnext]
    · rw [if_neg hother, Function.update_of_ne (Ne.symm hother)]
      exact hcounts.histogram other
  locked hsucceeds other := by
    by_cases hother : page = other
    · subst hother
      simp only [hlocked hsucceeds, Function.update_self, ne_eq, hnext, not_false_eq_true,
        decide_true]
    · simp only [hlocked hsucceeds, Function.update_of_ne (Ne.symm hother)]
      exact hcounts.locked hsucceeds other

/-- A page that is locked already. -/
theorem Counts.update_locked {manager : LockedPageManager} {count : ℕ → ℕ}
    (hcounts : Counts succeeds manager count) {page : ℕ} (hpage : count page ≠ 0)
    (hsucceeds : succeeds) : manager.locked = Function.update manager.locked page true := by
  have hlocked : manager.locked page = true := by
    rw [hcounts.locked hsucceeds, decide_eq_true hpage]
  rw [← hlocked, Function.update_eq_self]

theorem lockPage_counts {mlock : ℕ → Bool} {manager : LockedPageManager} {count : ℕ → ℕ}
    (hcounts : Counts succeeds manager count) {page : ℕ}
    (hpage : count page + 1 < 2 ^ 31 ∧ (succeeds → mlock page = true)) :
    ∃ after, manager.lockPage mlock page = some after ∧ after.shift = manager.shift ∧
      Counts succeeds after (Function.update count page (count page + 1)) := by
  have hfound := hcounts.histogram page
  by_cases hzero : count page = 0
  · rw [if_pos hzero] at hfound
    simp only [lockPage, hfound]
    refine ⟨_, rfl, rfl, ?_⟩
    rw [hzero]
    exact hcounts.insert page Nat.one_ne_zero fun hsucceeds ↦ if_pos (hpage.2 hsucceeds)
  · rw [if_neg hzero] at hfound
    simp only [lockPage, hfound]
    refine ⟨_, rfl, rfl, ?_⟩
    rw [toInt_eq_self (by omega) (by omega)]
    exact hcounts.insert page (Nat.succ_ne_zero (count page)) (hcounts.update_locked hzero)

theorem unlockPage_counts {munlock : ℕ → Bool} {manager : LockedPageManager} {count : ℕ → ℕ}
    (hcounts : Counts succeeds manager count) {page : ℕ}
    (hpage : (0 < count page ∧ count page < 2 ^ 31) ∧ (succeeds → munlock page = true)) :
    ∃ after, manager.unlockPage munlock page = some after ∧ after.shift = manager.shift ∧
      Counts succeeds after (Function.update count page (count page - 1)) := by
  have hfound := hcounts.histogram page
  rw [if_neg (by omega)] at hfound
  have htoInt : toInt ((count page : ℤ) - 1) = (count page - 1 : ℕ) := by
    rw [toInt_eq_self (by omega) (by omega)]
    omega
  by_cases hone : count page = 1
  · have hzero : toInt ((count page : ℤ) - 1) = 0 := by rw [htoInt, hone]; rfl
    simp only [unlockPage, hfound, if_pos hzero]
    refine ⟨_, rfl, rfl, fun other ↦ ?_, fun hsucceeds other ↦ ?_⟩
    · simp only [ExtTreeMap.getElem?_erase]
      by_cases hother : page = other
      · subst hother
        rw [if_pos (by simp), Function.update_self, hone]
        rfl
      · rw [if_neg (by simpa using hother), Function.update_of_ne (Ne.symm hother)]
        exact hcounts.histogram other
    · simp only [if_pos (hpage.2 hsucceeds)]
      by_cases hother : page = other
      · subst hother
        simp only [Function.update_self, hone]
        rfl
      · simp only [Function.update_of_ne (Ne.symm hother)]
        exact hcounts.locked hsucceeds other
  · have hnot : ¬toInt ((count page : ℤ) - 1) = 0 := by rw [htoInt]; omega
    simp only [unlockPage, hfound, if_neg hnot]
    refine ⟨_, rfl, rfl, ?_⟩
    rw [htoInt]
    exact hcounts.insert page (show count page - 1 ≠ 0 by omega)
      (hcounts.update_locked (show count page ≠ 0 by omega))

/-! ### The loop -/

/-- What the loop does to the counts, when a turn of it does `change` to the count of its page. By
induction on the number of pages that are left. -/
theorem forPages_counts {visit : LockedPageManager → ℕ → Option LockedPageManager}
    {change : ℕ → ℕ} {Good : ℕ → ℕ → Prop}
    (hvisit : ∀ {manager : LockedPageManager} {count : ℕ → ℕ}, Counts succeeds manager count →
      ∀ {page : ℕ}, Good page (count page) → ∃ after, visit manager page = some after ∧
        after.shift = manager.shift ∧
        Counts succeeds after (Function.update count page (change (count page))))
    {shift last : ℕ} (hfits : 2 ^ shift * (last + 1) < 2 ^ 64) (left : ℕ) :
    ∀ {manager : LockedPageManager} {count : ℕ → ℕ} (first : ℕ), Counts succeeds manager count →
      last + 1 - first = left →
      (∀ index, first ≤ index → index ≤ last →
        Good (2 ^ shift * index) (count (2 ^ shift * index))) →
      ∃ after counted, forPages visit shift manager (2 ^ shift * first) (2 ^ shift * last) =
          some after ∧ after.shift = manager.shift ∧ Counts succeeds after counted ∧
        (∀ index, first ≤ index → index ≤ last →
          counted (2 ^ shift * index) = change (count (2 ^ shift * index))) ∧
        ∀ page, (∀ index, first ≤ index → index ≤ last → page ≠ 2 ^ shift * index) →
          counted page = count page := by
  have hpos := Nat.two_pow_pos shift
  induction left with
  | zero =>
    intro manager count first hcounts hleft _
    have hend : ¬2 ^ shift * first ≤ 2 ^ shift * last := by
      rw [Nat.mul_le_mul_left_iff hpos]
      omega
    refine ⟨manager, count, ?_, rfl, hcounts, fun index hfirst hlast ↦ by omega, fun _ _ ↦ rfl⟩
    rw [forPages, if_neg hend]
  | succ left ih =>
    intro manager count first hcounts hleft hgood
    have hle : 2 ^ shift * first ≤ 2 ^ shift * last := Nat.mul_le_mul_left _ (by omega)
    have hnext : 2 ^ shift * first + 2 ^ shift < 2 ^ 64 := by
      rw [Nat.mul_succ] at hfits
      omega
    obtain ⟨middle, hmiddle, hshift, hmiddleCounts⟩ :=
      hvisit hcounts (hgood first le_rfl (by omega))
    -- The pages that are left are not the page of this turn.
    have hother : ∀ index, first + 1 ≤ index → Function.update count (2 ^ shift * first)
        (change (count (2 ^ shift * first))) (2 ^ shift * index) =
          count (2 ^ shift * index) := by
      intro index hindex
      refine Function.update_of_ne (fun heq ↦ ?_) _ _
      have := Nat.eq_of_mul_eq_mul_left hpos heq
      omega
    obtain ⟨after, counted, hrun, hafterShift, hafter, hvisited, hrest⟩ :=
      ih (first + 1) hmiddleCounts (by omega) fun index hindex hlast ↦ by
        rw [hother index hindex]
        exact hgood index (by omega) hlast
    refine ⟨after, counted, ?_, hafterShift.trans hshift, hafter, fun index hfirst hlast ↦ ?_,
      fun page hpage ↦ ?_⟩
    · rw [forPages, if_pos hle, hmiddle, Option.bind_some, if_pos hnext, ← Nat.mul_succ]
      exact hrun
    · rcases Nat.eq_or_lt_of_le hfirst with rfl | hlater
      · rw [hrest _ fun index hindex _ heq ↦ by
          have := Nat.eq_of_mul_eq_mul_left hpos heq
          omega]
        exact Function.update_self ..
      · rw [hvisited index hlater hlast, hother index hlater]
    · rw [hrest page fun index hindex hlast ↦ hpage index (by omega) hlast]
      exact Function.update_of_ne (hpage first le_rfl (by omega)) _ _

/-- What `LockRange` and `UnlockRange` do to the counts. -/
theorem visitRange_counts {visit : LockedPageManager → ℕ → Option LockedPageManager}
    (change : ℕ → ℕ) (Good : ℕ → ℕ → Prop)
    (hvisit : ∀ {manager : LockedPageManager} {count : ℕ → ℕ}, Counts succeeds manager count →
      ∀ {page : ℕ}, Good page (count page) → ∃ after, visit manager page = some after ∧
        after.shift = manager.shift ∧
        Counts succeeds after (Function.update count page (change (count page))))
    {manager : LockedPageManager} {count : ℕ → ℕ} (hcounts : Counts succeeds manager count)
    {range : Range} (hfits : Fits manager.page_size range)
    (hgood : ∀ page, Covers manager.page_size range page → Good page (count page)) :
    ∃ after, manager.visitRange visit range = some after ∧ after.shift = manager.shift ∧
      Counts succeeds after fun page ↦
        if Covers manager.page_size range page then change (count page) else count page := by
  have hpos : 0 < manager.page_size := Nat.two_pow_pos _
  rw [Fits] at hfits
  rw [visitRange]
  split_ifs with hsize
  · refine ⟨manager, rfl, rfl, ?_⟩
    have hnone : ∀ page, ¬Covers manager.page_size range page := fun _ hcovers ↦
      hcovers.2.1 hsize
    simpa only [if_neg (hnone _)] using hcounts
  · have hend : (range.base_addr + range.size - 1) % 2 ^ 64 = range.base_addr + range.size - 1 :=
      Nat.mod_eq_of_lt (by omega)
    simp only [hend, and_page_mask manager (show range.base_addr < 2 ^ 64 by omega),
      and_page_mask manager (show range.base_addr + range.size - 1 < 2 ^ 64 by omega)]
    have hlast : manager.page_size * ((range.base_addr + range.size - 1) / manager.page_size + 1) <
        2 ^ 64 := by
      rw [Nat.mul_succ]
      have := Nat.mul_div_le (range.base_addr + range.size - 1) manager.page_size
      omega
    have hcovers := covers_iff hpos hsize
    obtain ⟨after, counted, hrun, hshift, hafter, hvisited, hrest⟩ :=
      forPages_counts hvisit hlast _ _ hcounts rfl fun index hfirst hlast ↦
        hgood _ ((hcovers _).mpr ⟨index, hfirst, hlast, rfl⟩)
    refine ⟨after, hrun, hshift, ?_⟩
    have hcounted : counted = fun page ↦
        if Covers manager.page_size range page then change (count page) else count page := by
      funext page
      split_ifs with hpage
      · obtain ⟨index, hfirst, hlast, rfl⟩ := (hcovers page).mp hpage
        exact hvisited index hfirst hlast
      · exact hrest page fun index hfirst hlast heq ↦
          hpage ((hcovers page).mpr ⟨index, hfirst, hlast, heq⟩)
    rw [← hcounted]
    exact hafter

theorem init_counts (shift : ℕ) (hshift : shift < 64) :
    Counts succeeds (init shift hshift) fun _ ↦ 0 where
  histogram page := by
    rw [if_pos rfl]
    exact ExtTreeMap.getElem?_empty
  locked _ _ := rfl

/-- The map has as many pages as have a count. -/
theorem Counts.getLockedPageCount_eq {manager : LockedPageManager} {count : ℕ → ℕ}
    (hcounts : Counts succeeds manager count) :
    manager.getLockedPageCount = toInt {page | count page ≠ 0}.ncard := by
  have hkeys : {page | count page ≠ 0} = (manager.histogram.keys.toFinset : Set ℕ) := by
    ext page
    rw [Set.mem_ofPred_eq, Finset.mem_coe, List.mem_toFinset, ExtTreeMap.mem_keys,
      mem_iff_exists_getElem?, hcounts.histogram page]
    by_cases hzero : count page = 0
    · simp [hzero]
    · simp [hzero]
  rw [getLockedPageCount, hkeys, Set.ncard_coe_finset,
    List.toFinset_card_of_nodup ExtTreeMap.nodup_keys, ExtTreeMap.length_keys]

/-! ### The allocator -/

/-- The calls of `secure_allocator`: for the memory that the allocator below it has given, and for
the memory that is to be given back, with the pages for which the system call would succeed. -/
inductive Call
  | allocate (range : Range) (mlock : ℕ → Bool)
  | deallocate (range : Range) (munlock : ℕ → Bool)

/-- What a call does to the pages. -/
def call (manager : LockedPageManager) : Call → Option LockedPageManager
  | .allocate range mlock => manager.lockRange mlock range
  | .deallocate range munlock => manager.unlockRange munlock range

/-- The ranges that are allocated after a call. Only these can be given back. -/
def nextLive (live : List Range) : Call → Option (List Range)
  | .allocate range _ => some (range :: live)
  | .deallocate range _ => if range ∈ live then some (live.erase range) else none

/-- The calls that are counted without overflow: the memory given ends before the last page, and an
`int` counts the ranges. -/
def Counted (page_size : ℕ) (live : List Range) : Call → Prop
  | .allocate range _ => Fits page_size range ∧ live.length + 1 < 2 ^ 31
  | .deallocate _ _ => True

instance (page_size : ℕ) (live : List Range) (request : Call) :
    Decidable (Counted page_size live request) :=
  match request with
  | .allocate range _ =>
    inferInstanceAs (Decidable (range.base_addr + range.size + page_size ≤ 2 ^ 64 ∧ _))
  | .deallocate _ _ => .isTrue trivial

/-- The system calls for the pages of a range succeed. -/
def Call.Succeeds (page_size : ℕ) : Call → Prop
  | .allocate range outcome | .deallocate range outcome =>
    ∀ page, Covers page_size range page → outcome page = true

/-- How many ranges have a byte on a page. -/
def covering (page_size : ℕ) (live : List Range) (page : ℕ) : ℕ :=
  live.countP fun range ↦ decide (Covers page_size range page)

theorem covering_ne_zero {page_size : ℕ} {live : List Range} {page : ℕ} :
    covering page_size live page ≠ 0 ↔ ∃ range ∈ live, Covers page_size range page := by
  rw [covering, ← Nat.pos_iff_ne_zero, List.countP_pos_iff]
  simp only [decide_eq_true_eq]

/-- The ranges that are allocated, as the manager counts them. -/
structure Invariant (succeeds : Prop) (shift : ℕ) (manager : LockedPageManager)
    (live : List Range) : Prop where
  shift_eq : manager.shift = shift
  counts : Counts succeeds manager (covering (2 ^ shift) live)
  fits : ∀ range ∈ live, Fits (2 ^ shift) range
  length_lt : live.length < 2 ^ 31

/-- A call that follows the discipline goes through and keeps the counts. -/
theorem call_invariant {shift : ℕ} {manager : LockedPageManager} {live next : List Range}
    {request : Call} (hinv : Invariant succeeds shift manager live)
    (hcounted : Counted (2 ^ shift) live request) (hnext : nextLive live request = some next)
    (hsucceeds : succeeds → request.Succeeds (2 ^ shift)) :
    ∃ after, manager.call request = some after ∧ Invariant succeeds shift after next := by
  obtain ⟨rfl, hcounts, hfits, hlength⟩ := hinv
  have hle (page : ℕ) : covering manager.page_size live page ≤ live.length := List.countP_le_length
  cases request with
  | allocate range mlock =>
    obtain ⟨hrange, hroom⟩ := hcounted
    obtain rfl := Option.some.inj hnext
    obtain ⟨after, hafter, hshift, hafterCounts⟩ :=
      visitRange_counts (fun count ↦ count + 1)
        (fun page count ↦ count + 1 < 2 ^ 31 ∧ (succeeds → mlock page = true))
        (fun hcounts _ hgood ↦ lockPage_counts hcounts hgood) hcounts hrange
        fun page hpage ↦ ⟨(Nat.succ_le_succ (hle page)).trans_lt hroom,
          fun hall ↦ hsucceeds hall page hpage⟩
    refine ⟨after, hafter, hshift, ?_, ?_, hroom⟩
    · have hcovering : covering (2 ^ manager.shift) (range :: live) = fun page ↦
          if Covers (2 ^ manager.shift) range page then
            covering (2 ^ manager.shift) live page + 1
          else covering (2 ^ manager.shift) live page := by
        funext page
        simp only [covering, List.countP_cons, decide_eq_true_eq]
        by_cases hpage : Covers (2 ^ manager.shift) range page
        · simp only [if_pos hpage]
        · simp only [if_neg hpage, Nat.add_zero]
      rw [hcovering]
      exact hafterCounts
    · intro other hother
      rcases List.mem_cons.mp hother with rfl | hlive
      · exact hrange
      · exact hfits other hlive
  | deallocate range munlock =>
    rw [nextLive] at hnext
    split_ifs at hnext with hlive
    obtain rfl := Option.some.inj hnext
    have hone (page : ℕ) (hpage : Covers manager.page_size range page) :
        0 < covering manager.page_size live page :=
      Nat.pos_of_ne_zero (covering_ne_zero.mpr ⟨range, hlive, hpage⟩)
    obtain ⟨after, hafter, hshift, hafterCounts⟩ :=
      visitRange_counts (fun count ↦ count - 1)
        (fun page count ↦ (0 < count ∧ count < 2 ^ 31) ∧ (succeeds → munlock page = true))
        (fun hcounts _ hgood ↦ unlockPage_counts hcounts hgood) hcounts (hfits range hlive)
        fun page hpage ↦ ⟨⟨hone page hpage, (hle page).trans_lt hlength⟩,
          fun hall ↦ hsucceeds hall page hpage⟩
    refine ⟨after, hafter, hshift, ?_,
      fun other hother ↦ hfits other (List.mem_of_mem_erase hother),
      List.length_erase_le.trans_lt hlength⟩
    have hcovering : covering (2 ^ manager.shift) (live.erase range) = fun page ↦
        if Covers (2 ^ manager.shift) range page then
          covering (2 ^ manager.shift) live page - 1
        else covering (2 ^ manager.shift) live page := by
      funext page
      simp only [covering, List.countP_erase, hlive, true_and, decide_eq_true_eq]
      by_cases hpage : Covers (2 ^ manager.shift) range page
      · simp only [if_pos hpage]
      · simp only [if_neg hpage, Nat.sub_zero]
    rw [hcovering]
    exact hafterCounts

/-- A run that follows the discipline goes through and keeps the counts. -/
theorem run_invariant {shift : ℕ} (hshift : shift < 64) {calls : List Call} {live : List Range}
    (hrun : Run (guarded (Counted (2 ^ shift)) (stepOf nextLive)) [] calls live)
    (hsucceeds : succeeds → ∀ request ∈ calls, request.Succeeds (2 ^ shift)) :
    ∃ manager, calls.foldlM call (init shift hshift) = some manager ∧
      Invariant succeeds shift manager live := by
  induction hrun with
  | refl =>
    exact ⟨_, rfl, rfl, init_counts shift hshift, List.forall_mem_nil _, Nat.two_pow_pos _⟩
  | tail _ hlast ih =>
    obtain ⟨manager, hmanager, hinv⟩ :=
      ih fun hall request hmem ↦ hsucceeds hall request (List.mem_append_left _ hmem)
    obtain ⟨after, hafter, hnext⟩ := call_invariant hinv hlast.1 hlast.2
      fun hall ↦ hsucceeds hall _ (List.mem_append_right _ (List.mem_singleton_self _))
    refine ⟨after, ?_, hnext⟩
    rw [List.foldlM_append, hmanager]
    simpa using hafter

/-- In whatever order ranges were allocated and given back, no call of the run stops, and the pages
that are counted are those on which a range that is allocated has a byte. If the system calls
succeed for the pages of the ranges, these are the pages that are locked. -/
theorem locked_iff_of_run {shift : ℕ} (hshift : shift < 64) {calls : List Call} {live : List Range}
    (hrun : Run (guarded (Counted (2 ^ shift)) (stepOf nextLive)) [] calls live) :
    ∃ manager, calls.foldlM call (init shift hshift) = some manager ∧
      manager.getLockedPageCount =
        toInt {page | ∃ range ∈ live, Covers (2 ^ shift) range page}.ncard ∧
      ((∀ request ∈ calls, request.Succeeds (2 ^ shift)) →
        ∀ page, manager.locked page = true ↔ ∃ range ∈ live, Covers (2 ^ shift) range page) := by
  obtain ⟨manager, hmanager, hinv⟩ := run_invariant hshift hrun fun hall ↦ hall
  refine ⟨manager, hmanager, ?_, fun hsucceeds page ↦ ?_⟩
  · simp only [hinv.counts.getLockedPageCount_eq, covering_ne_zero]
  · rw [hinv.counts.locked hsucceeds, decide_eq_true_eq, covering_ne_zero]

/-- Two ranges on one page, of which the first is given back; all system calls succeed. -/
theorem locked_iff_of_run_shared : ∃ manager,
    [Call.allocate ⟨4100, 8⟩ fun _ ↦ true, .allocate ⟨4090, 20⟩ fun _ ↦ true,
        .deallocate ⟨4100, 8⟩ fun _ ↦ true].foldlM call (init 12 (by decide)) = some manager ∧
      manager.getLockedPageCount =
        toInt {page | ∃ range ∈ [Range.mk 4090 20], Covers (2 ^ 12) range page}.ncard ∧
      ∀ page, manager.locked page = true ↔
        ∃ range ∈ [Range.mk 4090 20], Covers (2 ^ 12) range page := by
  have hrun : Run (guarded (Counted (2 ^ 12)) (stepOf nextLive)) []
      [.allocate ⟨4100, 8⟩ fun _ ↦ true, .allocate ⟨4090, 20⟩ fun _ ↦ true,
        .deallocate ⟨4100, 8⟩ fun _ ↦ true] [⟨4090, 20⟩] :=
    Run.of_foldlM (by decide)
  obtain ⟨manager, hmanager, hcount, hlocked⟩ := locked_iff_of_run (by decide) hrun
  refine ⟨manager, hmanager, hcount, hlocked fun request hmem ↦ ?_⟩
  simp only [List.mem_cons, List.not_mem_nil, or_false] at hmem
  rcases hmem with rfl | rfl | rfl
  · exact fun _ _ ↦ rfl
  · exact fun _ _ ↦ rfl
  · exact fun _ _ ↦ rfl

end LockedPageManager

end Exc.Serialize
