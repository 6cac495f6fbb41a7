import Exc.Timer.Queue
import Mathlib.Algebra.BigOperators.Fin
import Mathlib.Algebra.BigOperators.Group.Multiset.Basic
import Mathlib.Algebra.Order.BigOperators.Group.Finset
import Mathlib.Tactic.Abel

/-!
# The representation invariant of the timer wheel

`Invariant` is what `DHNTimerWheel.h` relies on: each spoke is sorted by expiry, every node is on
the spoke of its expiry, `timer_count_` counts the nodes, and the first node of the earliest spoke
has the least expiry of all.

The last part is the hard one. `recalc_earliest` stops at the first spoke whose head is below
`last + wheel_time_`, and `wheel_time_` is the width of a single spoke. That head is the least of
all because a time below `last + wheel_time_` is at most one slot after `last` (`slot_le_succ`), two
times in one slot are on one spoke, and the spoke of `last` itself is looked at first
(`isLeast_of_lt_limit`). When no head is below the limit the loop goes round the whole wheel and
keeps the least head it saw (`recalcLoop_least`); it marks "none seen" by the time zero, which is
why expiry times are positive.

`WellFormed` adds what the proofs carry along: positive normalised expiry times, and the order of
insertion among equal expiry times. Each operation of the wheel has one lemma that says what it does
to the pending nodes and that it keeps `WellFormed`.
-/

set_option autoImplicit false
set_option relaxedAutoImplicit false

namespace Exc.Timer

open Lib

namespace TimerWheel

variable {cfg : WheelConfig}

/-- The nodes on all spokes. -/
def pending (wheel : TimerWheel cfg) : Multiset Node :=
  ∑ spoke, ((wheel.spokes spoke).nodes : Multiset Node)

theorem mem_pending {wheel : TimerWheel cfg} {n : Node} :
    n ∈ wheel.pending ↔ ∃ spoke, n ∈ (wheel.spokes spoke).nodes := by
  simp [pending, Multiset.mem_sum]

theorem card_pending (wheel : TimerWheel cfg) :
    wheel.pending.card = ∑ spoke, (wheel.spokes spoke).nodes.length := by
  simp [pending]

/-- The representation invariant of the wheel. -/
structure Invariant (wheel : TimerWheel cfg) : Prop where
  sorted : ∀ spoke, (wheel.spokes spoke).nodes.Pairwise fun a b ↦ a.timerValue ≤ b.timerValue
  placed : ∀ spoke, ∀ n ∈ (wheel.spokes spoke).nodes, calculateSpoke cfg n.timerValue = spoke
  counted : wheel.timerCount = ∑ spoke, (wheel.spokes spoke).nodes.length
  earliest : 0 < wheel.timerCount → ∃ first, wheel.getFirstI = some first ∧
    ∀ n ∈ wheel.pending, first.timerValue ≤ n.timerValue

/-- The order in which timers are due: by expiry, and by insertion among equal expiry times. -/
def DueBefore (a b : Node) : Prop :=
  a.timerValue < b.timerValue ∨ a.timerValue = b.timerValue ∧ a.stamp < b.stamp

/-- What holds of the spokes whatever the earliest spoke is: every node is on the spoke of its
expiry, the nodes are counted, and each spoke is in the order in which its timers are due. -/
structure Arranged (wheel : TimerWheel cfg) : Prop where
  placed : ∀ spoke, ∀ n ∈ (wheel.spokes spoke).nodes, calculateSpoke cfg n.timerValue = spoke
  counted : wheel.timerCount = wheel.pending.card
  ordered : ∀ spoke, (wheel.spokes spoke).nodes.Pairwise DueBefore
  stamped : ∀ n ∈ wheel.pending, n.stamp < wheel.inserted
  positive : ∀ n ∈ wheel.pending, TimeValue.zero < n.timerValue
  normalised : ∀ n ∈ wheel.pending, n.timerValue.Normalised

/-- The first node of the earliest spoke is there and has the least expiry of all. -/
def EarliestFirst (wheel : TimerWheel cfg) : Prop :=
  0 < wheel.timerCount → ∃ first, wheel.getFirstI = some first ∧
    ∀ n ∈ wheel.pending, first.timerValue ≤ n.timerValue

/-- The representation invariant with what its proof carries along. -/
structure WellFormed (wheel : TimerWheel cfg) : Prop extends Arranged wheel where
  earliest : EarliestFirst wheel

theorem DueBefore.le {a b : Node} (h : DueBefore a b) : a.timerValue ≤ b.timerValue := by
  rcases h with hlt | ⟨heq, -⟩
  · exact hlt.le
  · exact heq.le

theorem Arranged.sorted {wheel : TimerWheel cfg} (h : Arranged wheel) (spoke : Fin cfg.spokeCount) :
    (wheel.spokes spoke).nodes.Pairwise fun a b ↦ a.timerValue ≤ b.timerValue :=
  (h.ordered spoke).imp DueBefore.le

theorem WellFormed.invariant {wheel : TimerWheel cfg} (h : WellFormed wheel) : Invariant wheel :=
  ⟨h.sorted, h.placed, h.counted.trans wheel.card_pending, h.earliest⟩

/-! ### Slots -/

/-- The number of spoke widths before a time: the slot of the time on an unrolled wheel. -/
def slot (cfg : WheelConfig) (tv : TimeValue) : ℕ := (tv.total / 1000).toNat / 2 ^ cfg.resBits

/-- The spoke of a positive time is its slot modulo the number of spokes. The conversion of the
milliseconds to `unsigned long` does no harm: twelve and twenty bits fit into 32. -/
theorem calculateSpoke_val {tv : TimeValue} (hnorm : tv.Normalised) (hpos : .zero < tv) :
    (calculateSpoke cfg tv : ℕ) = slot cfg tv % cfg.spokeCount := by
  have hbits : cfg.resBits + cfg.spokeBits ≤ cfg.longBits := by
    have hspoke := cfg.spoke_bits
    have hres := cfg.res_bits
    rcases cfg.long_bits with hlong | hlong <;> omega
  obtain ⟨rest, hrest⟩ := Nat.exists_eq_add_of_le hbits
  change (tv.msec cfg.longBits >>> cfg.resBits) &&& (cfg.spokeCount - 1) = _
  rw [TimeValue.msec_eq _ hnorm hpos, cfg.spokeCount_eq, Nat.and_two_pow_sub_one_eq_mod,
    Nat.shiftRight_eq_div_pow, hrest, add_assoc, pow_add, Nat.mod_mul_right_div_self, pow_add,
    Nat.mod_mul_right_mod, slot]

theorem slot_mono (cfg : WheelConfig) {first second : TimeValue} (hfirst : first.Normalised)
    (hsecond : second.Normalised) (hle : first ≤ second) : slot cfg first ≤ slot cfg second := by
  have htotal := (TimeValue.le_iff_total_le hfirst hsecond).mp hle
  refine Nat.div_le_div_right ?_
  omega

/-- A time before the end of the spoke width that starts at `last` is at most one slot later. -/
theorem slot_le_succ {last tv : TimeValue} (hlast : 0 ≤ last.total) (htv : tv.Normalised)
    (hlt : tv < last + cfg.wheelTime) : slot cfg tv ≤ slot cfg last + 1 := by
  have htotal := (TimeValue.lt_iff_total_lt htv (TimeValue.add_normalised _ _)).mp hlt
  rw [TimeValue.add_total, WheelConfig.wheelTime, TimeValue.ofMsec_total, Nat.one_shiftLeft]
    at htotal
  have hmillis : (tv.total / 1000).toNat ≤ (last.total / 1000).toNat + 2 ^ cfg.resBits := by
    generalize 2 ^ cfg.resBits = width at htotal
    omega
  calc slot cfg tv ≤ ((last.total / 1000).toNat + 2 ^ cfg.resBits) / 2 ^ cfg.resBits :=
        Nat.div_le_div_right hmillis
    _ = slot cfg last + 1 := Nat.add_div_right _ (by positivity)

/-- Two times one slot apart are on different spokes. -/
theorem calculateSpoke_ne_of_slot_succ {first second : TimeValue} (hfirst : first.Normalised)
    (hfirstPos : .zero < first) (hsecond : second.Normalised) (hsecondPos : .zero < second)
    (hslot : slot cfg second = slot cfg first + 1) :
    calculateSpoke cfg first ≠ calculateSpoke cfg second := by
  intro heq
  have hval := congrArg Fin.val heq
  rw [calculateSpoke_val hfirst hfirstPos, calculateSpoke_val hsecond hsecondPos, hslot] at hval
  have hcount := cfg.eight_le_spokeCount
  rw [Nat.add_mod, Nat.mod_eq_of_lt (by omega : 1 < cfg.spokeCount)] at hval
  have hlt := Nat.mod_lt (slot cfg first) (by omega : 0 < cfg.spokeCount)
  rcases Nat.lt_or_ge (slot cfg first % cfg.spokeCount + 1) cfg.spokeCount with hinner | hwrap
  · rw [Nat.mod_eq_of_lt hinner] at hval
    omega
  · rw [Nat.mod_eq_sub_mod hwrap, (by omega : slot cfg first % cfg.spokeCount + 1 -
      cfg.spokeCount = 0), Nat.zero_mod] at hval
    omega

theorem calculateSpoke_eq_of_slot_eq {first second : TimeValue} (hfirst : first.Normalised)
    (hfirstPos : .zero < first) (hsecond : second.Normalised) (hsecondPos : .zero < second)
    (hslot : slot cfg first = slot cfg second) :
    calculateSpoke cfg first = calculateSpoke cfg second := by
  ext
  rw [calculateSpoke_val hfirst hfirstPos, calculateSpoke_val hsecond hsecondPos, hslot]

/-! ### The search for the earliest spoke -/

/-- A spoke whose nodes are sorted has its least expiry in front. -/
theorem head_le {wheel : TimerWheel cfg} {spoke : Fin cfg.spokeCount} {head n : Node}
    (hsorted : (wheel.spokes spoke).nodes.Pairwise fun a b ↦ a.timerValue ≤ b.timerValue)
    (hhead : (wheel.spokes spoke).nodes.head? = some head)
    (hn : n ∈ (wheel.spokes spoke).nodes) : head.timerValue ≤ n.timerValue := by
  obtain ⟨rest, hnodes⟩ := List.head?_eq_some_iff.mp hhead
  rw [hnodes] at hsorted hn
  rcases List.mem_cons.mp hn with rfl | hrest
  · exact le_rfl
  · exact (List.pairwise_cons.mp hsorted).1 n hrest

/-- The early exit of `recalc_earliest` is right: a head below `last + wheel_time_` is the least of
all, when the spoke of `last` has no such node or is the spoke at hand. Assumes: an arranged wheel
with no expiry before `last`. -/
theorem isLeast_of_lt_limit {wheel : TimerWheel cfg} {last : TimeValue} (h : Arranged wheel)
    (hlastNorm : last.Normalised) (hlastPos : .zero < last)
    (hleast : ∀ n ∈ wheel.pending, last ≤ n.timerValue)
    {spoke : Fin cfg.spokeCount} {head : Node}
    (hhead : (wheel.spokes spoke).nodes.head? = some head)
    (hlimit : head.timerValue < last + cfg.wheelTime)
    (hpassed : spoke ≠ calculateSpoke cfg last →
      ∀ n ∈ (wheel.spokes (calculateSpoke cfg last)).nodes, last + cfg.wheelTime ≤ n.timerValue) :
    ∀ n ∈ wheel.pending, head.timerValue ≤ n.timerValue := by
  intro n hn
  by_contra hbefore
  have hlt : n.timerValue < head.timerValue := not_le.mp hbefore
  have hheadMem : head ∈ (wheel.spokes spoke).nodes := List.mem_of_head? hhead
  have hheadPending : head ∈ wheel.pending := mem_pending.mpr ⟨spoke, hheadMem⟩
  obtain ⟨other, hother⟩ := mem_pending.mp hn
  have hnorm := h.normalised n hn
  have hheadNorm := h.normalised head hheadPending
  have hlastTotal : 0 ≤ last.total := (TimeValue.total_pos_of_zero_lt hlastNorm.bounded hlastPos).le
  -- Both times lie within one slot of `last`, the time of `n` in the earlier of the two.
  have hhigh := slot_le_succ hlastTotal hheadNorm hlimit
  have hlow := slot_mono cfg hlastNorm hnorm (hleast n hn)
  have hbetween := slot_mono cfg hnorm hheadNorm hlt.le
  have hspokeHead := h.placed spoke head hheadMem
  have hspokeOther := h.placed other n hother
  by_cases hslot : slot cfg n.timerValue = slot cfg head.timerValue
  · have hsame := calculateSpoke_eq_of_slot_eq hnorm (h.positive n hn) hheadNorm
      (h.positive head hheadPending) hslot
    rw [hspokeHead, hspokeOther] at hsame
    subst hsame
    exact hbefore (head_le (h.sorted other) hhead hother)
  · have hlastSlot : slot cfg last = slot cfg n.timerValue := by omega
    have hheadSlot : slot cfg head.timerValue = slot cfg last + 1 := by omega
    have hotherLast := calculateSpoke_eq_of_slot_eq hlastNorm hlastPos hnorm (h.positive n hn)
      hlastSlot
    have hne := calculateSpoke_ne_of_slot_succ hlastNorm hlastPos hheadNorm
      (h.positive head hheadPending) hheadSlot
    rw [hspokeHead] at hne
    rw [hspokeOther] at hotherLast
    have hfar := hpassed (Ne.symm hne) n (by rw [hotherLast]; exact hother)
    exact absurd (lt_of_le_of_lt hfar hlt) (not_lt.mpr hlimit.le)

/-- The loop of `recalc_earliest` walks round the wheel. -/
theorem iterate_nextSpoke_val (spoke : Fin cfg.spokeCount) (k : ℕ) :
    (nextSpoke^[k] spoke : ℕ) = (spoke + k) % cfg.spokeCount := by
  induction k with
  | zero => exact (Nat.mod_eq_of_lt spoke.isLt).symm
  | succ k ih =>
    have hlt := Nat.mod_lt (spoke + k) (Nat.pos_of_neZero cfg.spokeCount)
    rw [Function.iterate_succ_apply', nextSpoke, ← add_assoc, ← Nat.mod_add_mod, ← ih]
    split_ifs with hlast
    · rw [(by omega : (nextSpoke^[k] spoke : ℕ) + 1 = cfg.spokeCount), Nat.mod_self]
      rfl
    · exact (Nat.mod_eq_of_lt (by omega)).symm

/-- Once round the wheel meets every spoke. -/
theorem exists_iterate_nextSpoke (start spoke : Fin cfg.spokeCount) :
    ∃ k < cfg.spokeCount, spoke = nextSpoke^[k] start := by
  refine ⟨(spoke + cfg.spokeCount - start) % cfg.spokeCount,
    Nat.mod_lt _ (Nat.pos_of_neZero cfg.spokeCount), ?_⟩
  ext
  have hle : (start : ℕ) ≤ spoke + cfg.spokeCount := by omega
  rw [iterate_nextSpoke_val, Nat.add_mod_mod, Nat.add_sub_cancel' hle, Nat.add_mod_right,
    Nat.mod_eq_of_lt spoke.isLt]

/-- What the loop of `recalc_earliest` knows of the spokes it has visited: they are all empty, or
`es` has a head with expiry `et` and none of their nodes is before it. -/
def BestOf (wheel : TimerWheel cfg) (visited : Set (Fin cfg.spokeCount)) (et : TimeValue)
    (es : Fin cfg.spokeCount) : Prop :=
  (et = .zero ∧ ∀ spoke ∈ visited, (wheel.spokes spoke).nodes = []) ∨
    ∃ head, (wheel.spokes es).nodes.head? = some head ∧ head.timerValue = et ∧
      ∀ spoke ∈ visited, ∀ n ∈ (wheel.spokes spoke).nodes, et ≤ n.timerValue

section BestOf

variable {wheel : TimerWheel cfg} {visited : Set (Fin cfg.spokeCount)} {et : TimeValue}
  {es spoke : Fin cfg.spokeCount} {n : Node}

/-- A spoke without nodes changes nothing. -/
theorem BestOf.skip (hbest : BestOf wheel visited et es)
    (hnodes : (wheel.spokes spoke).nodes = []) : BestOf wheel (insert spoke visited) et es := by
  rcases hbest with ⟨hzero, hempty⟩ | ⟨head, hhead, hvalue, hle⟩
  · refine Or.inl ⟨hzero, ?_⟩
    rintro i (rfl | hi)
    · exact hnodes
    · exact hempty i hi
  · refine Or.inr ⟨head, hhead, hvalue, ?_⟩
    rintro i (rfl | hi)
    · simp [hnodes]
    · exact hle i hi

/-- A head that is before all others becomes the best. -/
theorem BestOf.take (h : Arranged wheel) (hbest : BestOf wheel visited et es)
    (hhead : (wheel.spokes spoke).nodes.head? = some n)
    (hbetter : et = .zero ∨ n.timerValue < et) :
    BestOf wheel (insert spoke visited) n.timerValue spoke := by
  refine Or.inr ⟨n, hhead, rfl, ?_⟩
  rintro i (rfl | hi)
  · exact fun m hm ↦ head_le (h.sorted i) hhead hm
  · rcases hbest with ⟨-, hempty⟩ | ⟨best, hbestHead, hvalue, hle⟩
    · simp [hempty i hi]
    · -- `et` is the expiry of a node, so it is not the mark for "none seen".
      have hpos := h.positive best (mem_pending.mpr ⟨es, List.mem_of_head? hbestHead⟩)
      have hlt : n.timerValue < et :=
        hbetter.resolve_left fun hzero ↦ by
          rw [hvalue, hzero] at hpos
          exact lt_irrefl _ hpos
      exact fun m hm ↦ hlt.le.trans (hle i hi m hm)

/-- A head that is not before the best one is passed over. -/
theorem BestOf.keep (h : Arranged wheel) (hbest : BestOf wheel visited et es)
    (hhead : (wheel.spokes spoke).nodes.head? = some n)
    (hworse : ¬(et = .zero ∨ n.timerValue < et)) : BestOf wheel (insert spoke visited) et es := by
  rw [not_or, not_lt] at hworse
  rcases hbest with ⟨hzero, -⟩ | ⟨best, hbestHead, hvalue, hle⟩
  · exact absurd hzero hworse.1
  · refine Or.inr ⟨best, hbestHead, hvalue, ?_⟩
    rintro i (rfl | hi)
    · exact fun m hm ↦ hworse.2.trans (head_le (h.sorted i) hhead hm)
    · exact hle i hi

end BestOf

/-- The loop of `recalc_earliest` returns a spoke whose head is the least of all. Assumes: an
arranged wheel with some node, an early exit that is right once the spoke `start` has been visited,
and `rounds` more spokes that cover what has not been visited. -/
theorem recalcLoop_least {wheel : TimerWheel cfg} {limit : TimeValue}
    {start : Fin cfg.spokeCount} (h : Arranged wheel) (hsome : ∃ n, n ∈ wheel.pending)
    (hexit : ∀ spoke head, (wheel.spokes spoke).nodes.head? = some head →
      head.timerValue < limit →
      (spoke ≠ start → ∀ n ∈ (wheel.spokes start).nodes, limit ≤ n.timerValue) →
      ∀ n ∈ wheel.pending, head.timerValue ≤ n.timerValue) :
    ∀ (rounds : ℕ) (spoke : Fin cfg.spokeCount) (et : TimeValue) (es : Fin cfg.spokeCount)
      (visited : Set (Fin cfg.spokeCount)),
      (start ∈ visited ∨ spoke = start) →
      (∀ i, i ∈ visited ∨ ∃ k < rounds, i = nextSpoke^[k] spoke) →
      (∀ i ∈ visited, ∀ n ∈ (wheel.spokes i).nodes, limit ≤ n.timerValue) →
      BestOf wheel visited et es →
      ∃ head, (wheel.spokes (recalcLoop wheel limit rounds spoke et es)).nodes.head? = some head ∧
        ∀ n ∈ wheel.pending, head.timerValue ≤ n.timerValue
  | 0, spoke, et, es, visited, _, hcover, _, hbest => by
    have hall : ∀ i, i ∈ visited := fun i ↦ (hcover i).resolve_right (by simp)
    obtain ⟨n, hn⟩ := hsome
    obtain ⟨other, hother⟩ := mem_pending.mp hn
    rcases hbest with ⟨-, hempty⟩ | ⟨head, hhead, rfl, hle⟩
    · rw [hempty other (hall other)] at hother
      cases hother
    · refine ⟨head, hhead, fun m hm ↦ ?_⟩
      obtain ⟨i, hi⟩ := mem_pending.mp hm
      exact hle i (hall i) m hi
  | rounds + 1, spoke, et, es, visited, hstart, hcover, hfar, hbest => by
    have hcover' : ∀ i, i ∈ insert spoke visited ∨
        ∃ k < rounds, i = nextSpoke^[k] (nextSpoke spoke) := by
      intro i
      rcases hcover i with hvisited | ⟨k, hk, rfl⟩
      · exact Or.inl (Set.mem_insert_of_mem _ hvisited)
      · rcases k with - | k
        · exact Or.inl (Set.mem_insert _ _)
        · exact Or.inr ⟨k, by omega, Function.iterate_succ_apply _ _ _⟩
    have hstart' : start ∈ insert spoke visited ∨ nextSpoke spoke = start := by
      rcases hstart with hvisited | rfl
      · exact Or.inl (Set.mem_insert_of_mem _ hvisited)
      · exact Or.inl (Set.mem_insert _ _)
    cases hnodes : (wheel.spokes spoke).nodes with
    | nil =>
      simp only [recalcLoop, hnodes]
      refine recalcLoop_least h hsome hexit rounds _ et es _ hstart' hcover' ?_ (hbest.skip hnodes)
      rintro i (rfl | hi)
      · simp [hnodes]
      · exact hfar i hi
    | cons n rest =>
      have hhead : (wheel.spokes spoke).nodes.head? = some n := by rw [hnodes]; rfl
      have hfar' : ¬n.timerValue < limit → ∀ i ∈ insert spoke visited,
          ∀ m ∈ (wheel.spokes i).nodes, limit ≤ m.timerValue := by
        rintro hlimit i (rfl | hi)
        · exact fun m hm ↦ (not_lt.mp hlimit).trans (head_le (h.sorted i) hhead hm)
        · exact hfar i hi
      simp only [recalcLoop, hnodes]
      split_ifs with hlimit hbetter
      · refine ⟨n, hhead, hexit spoke n hhead hlimit fun hne ↦ hfar start ?_⟩
        exact hstart.resolve_right hne
      · exact recalcLoop_least h hsome hexit rounds _ n.timerValue spoke _ hstart' hcover'
          (hfar' hlimit) (hbest.take h hhead hbetter)
      · exact recalcLoop_least h hsome hexit rounds _ et es _ hstart' hcover' (hfar' hlimit)
          (hbest.keep h hhead hbetter)

/-- `recalc_earliest` sets the earliest spoke right. Assumes: an arranged wheel whose earliest spoke
is still the spoke of `last`, with no expiry before `last`. -/
theorem Arranged.recalcEarliest {wheel : TimerWheel cfg} {last : TimeValue} (h : Arranged wheel)
    (hlastNorm : last.Normalised) (hlastPos : .zero < last)
    (hspoke : wheel.earliestSpoke = calculateSpoke cfg last)
    (hleast : ∀ n ∈ wheel.pending, last ≤ n.timerValue) :
    WellFormed (wheel.recalcEarliest last) := by
  unfold TimerWheel.recalcEarliest
  split_ifs with hempty
  · refine ⟨h, fun hpos ↦ ?_⟩
    have hzero : wheel.timerCount = 0 := by simpa [isEmpty] using hempty
    omega
  · refine ⟨⟨h.placed, h.counted, h.ordered, h.stamped, h.positive, h.normalised⟩, fun hpos ↦ ?_⟩
    have hsome : ∃ n, n ∈ wheel.pending :=
      Multiset.card_pos_iff_exists_mem.mp (h.counted ▸ hpos)
    have hexit := fun spoke head ↦
      @isLeast_of_lt_limit cfg wheel last h hlastNorm hlastPos hleast spoke head
    exact recalcLoop_least h hsome hexit _ _ _ _ ∅ (Or.inr hspoke)
      (fun i ↦ Or.inr (exists_iterate_nextSpoke _ i)) (by simp) (Or.inl ⟨rfl, by simp⟩)

@[simp] theorem recalcEarliest_spokes (wheel : TimerWheel cfg) (last : TimeValue) :
    (wheel.recalcEarliest last).spokes = wheel.spokes := by
  unfold recalcEarliest
  split_ifs <;> rfl

@[simp] theorem recalcEarliest_pending (wheel : TimerWheel cfg) (last : TimeValue) :
    (wheel.recalcEarliest last).pending = wheel.pending := by
  rw [pending, pending, recalcEarliest_spokes]

/-! ### Linking and unlinking -/

@[simp] theorem setNodes_nodes_self (wheel : TimerWheel cfg) (spoke : Fin cfg.spokeCount)
    (nodes : List Node) : ((wheel.setNodes spoke nodes).spokes spoke).nodes = nodes := by
  simp [setNodes]

theorem setNodes_nodes_of_ne (wheel : TimerWheel cfg) {spoke other : Fin cfg.spokeCount}
    (nodes : List Node) (hne : other ≠ spoke) :
    ((wheel.setNodes spoke nodes).spokes other).nodes = (wheel.spokes other).nodes := by
  simp [setNodes, Function.update_of_ne hne]

/-- Replacing the nodes of a spoke replaces them among the pending nodes. -/
theorem pending_setNodes (wheel : TimerWheel cfg) (spoke : Fin cfg.spokeCount)
    (nodes : List Node) :
    (wheel.setNodes spoke nodes).pending + ((wheel.spokes spoke).nodes : Multiset Node) =
      wheel.pending + (nodes : Multiset Node) := by
  have hrest : ∑ other ∈ Finset.univ.erase spoke,
      (((wheel.setNodes spoke nodes).spokes other).nodes : Multiset Node) =
      ∑ other ∈ Finset.univ.erase spoke, ((wheel.spokes other).nodes : Multiset Node) :=
    Finset.sum_congr rfl fun other hother ↦ by
      rw [setNodes_nodes_of_ne wheel nodes (Finset.ne_of_mem_erase hother)]
  rw [pending, pending, ← Finset.add_sum_erase _ _ (Finset.mem_univ spoke),
    ← Finset.add_sum_erase Finset.univ (fun other ↦ ((wheel.spokes other).nodes : Multiset Node))
      (Finset.mem_univ spoke), hrest, setNodes_nodes_self]
  abel

/-- Unlinking takes the node away from the pending nodes. -/
theorem pending_unlink {wheel : TimerWheel cfg} {spoke : Fin cfg.spokeCount} {n : Node}
    (hn : n ∈ (wheel.spokes spoke).nodes) :
    wheel.pending = n ::ₘ (wheel.unlink spoke n).pending := by
  have hset := pending_setNodes wheel spoke ((wheel.spokes spoke).nodes.erase n)
  have hnodes : ((wheel.spokes spoke).nodes : Multiset Node) =
      n ::ₘ ((wheel.spokes spoke).nodes.erase n : Multiset Node) :=
    Multiset.coe_eq_coe.mpr (List.perm_cons_erase hn)
  rw [hnodes, Multiset.add_cons, ← Multiset.cons_add] at hset
  exact (add_right_cancel hset).symm

/-- Unlinking a node keeps the wheel arranged. -/
theorem Arranged.unlink {wheel : TimerWheel cfg} (h : Arranged wheel)
    {spoke : Fin cfg.spokeCount} {n : Node} (hn : n ∈ (wheel.spokes spoke).nodes) :
    Arranged (wheel.unlink spoke n) := by
  have hpending := pending_unlink hn
  have hnodes : ∀ other, ((wheel.unlink spoke n).spokes other).nodes.Sublist
      (wheel.spokes other).nodes := by
    intro other
    by_cases hother : other = spoke
    · subst hother
      exact (congrArg (List.Sublist · _) (setNodes_nodes_self _ _ _)).mpr List.erase_sublist
    · exact (congrArg (List.Sublist · _) (setNodes_nodes_of_ne _ _ hother)).mpr
        (List.Sublist.refl _)
  have hmem : ∀ m ∈ (wheel.unlink spoke n).pending, m ∈ wheel.pending := by
    intro m hm
    rw [hpending]
    exact Multiset.mem_cons_of_mem hm
  constructor
  · exact fun other m hm ↦ h.placed other m ((hnodes other).subset hm)
  · have hcard := congrArg Multiset.card hpending
    rw [Multiset.card_cons, ← h.counted] at hcard
    change wheel.timerCount - 1 = _
    omega
  · exact fun other ↦ (h.ordered other).sublist (hnodes other)
  · exact fun m hm ↦ h.stamped m (hmem m hm)
  · exact fun m hm ↦ h.positive m (hmem m hm)
  · exact fun m hm ↦ h.normalised m (hmem m hm)

theorem getFirstI_mem {wheel : TimerWheel cfg} {first : Node}
    (hfirst : wheel.getFirstI = some first) :
    first ∈ (wheel.spokes wheel.earliestSpoke).nodes :=
  List.mem_of_head? hfirst

/-- Unlinking the first node of the earliest spoke and then searching for the earliest spoke keeps
the wheel well formed. -/
theorem WellFormed.unlinkFirst {wheel : TimerWheel cfg} (h : WellFormed wheel) {first : Node}
    (hfirst : wheel.getFirstI = some first) :
    WellFormed ((wheel.unlink wheel.earliestSpoke first).recalcEarliest first.timerValue) := by
  have hmem := getFirstI_mem hfirst
  have hpendingMem : first ∈ wheel.pending := mem_pending.mpr ⟨_, hmem⟩
  have hcount : 0 < wheel.timerCount := by
    rw [h.counted]
    exact Multiset.card_pos_iff_exists_mem.mpr ⟨first, hpendingMem⟩
  obtain ⟨least, hleast, hle⟩ := h.earliest hcount
  obtain rfl : first = least := Option.some.inj (hfirst.symm.trans hleast)
  refine (h.toArranged.unlink hmem).recalcEarliest (h.normalised first hpendingMem)
    (h.positive first hpendingMem) (h.placed _ first hmem).symm fun n hn ↦ hle n ?_
  rw [pending_unlink hmem]
  exact Multiset.mem_cons_of_mem hn

/-- Unlinking a node that is not the first of the earliest spoke keeps the wheel well formed. -/
theorem WellFormed.unlinkOther {wheel : TimerWheel cfg} (h : WellFormed wheel)
    {spoke : Fin cfg.spokeCount} {n : Node} (hn : n ∈ (wheel.spokes spoke).nodes)
    (hother : wheel.getFirstI ≠ some n) : WellFormed (wheel.unlink spoke n) := by
  refine ⟨h.toArranged.unlink hn, fun hpos ↦ ?_⟩
  have hpending := pending_unlink hn
  have hcount : 0 < wheel.timerCount := by
    change 0 < wheel.timerCount - 1 at hpos
    omega
  obtain ⟨first, hfirst, hle⟩ := h.earliest hcount
  refine ⟨first, ?_, fun m hm ↦ hle m (by rw [hpending]; exact Multiset.mem_cons_of_mem hm)⟩
  obtain ⟨rest, hnodes⟩ := List.head?_eq_some_iff.mp hfirst
  change ((wheel.setNodes spoke _).spokes wheel.earliestSpoke).nodes.head? = some first
  by_cases hspoke : wheel.earliestSpoke = spoke
  · subst hspoke
    have hne : first ≠ n := fun heq ↦ hother (by rw [hfirst, heq])
    rw [setNodes_nodes_self, hnodes, List.erase_cons_tail (by simpa using hne)]
    rfl
  · rw [setNodes_nodes_of_ne _ _ hspoke]
    exact hfirst

/-- Linking a node adds it to the pending nodes, with the next stamp. -/
theorem pending_scheduleNode (wheel : TimerWheel cfg) (n : Node) (spoke : Fin cfg.spokeCount)
    (expire : TimeValue) :
    (wheel.scheduleNode n spoke expire).pending =
      { n with stamp := wheel.inserted } ::ₘ wheel.pending := by
  have hset := pending_setNodes wheel spoke (insertStable Node.timerValue expire
    { n with stamp := wheel.inserted } (wheel.spokes spoke).nodes)
  rw [Multiset.coe_eq_coe.mpr (insertStable_perm Node.timerValue expire _ _), ← Multiset.cons_coe,
    Multiset.add_cons, ← Multiset.cons_add] at hset
  exact add_right_cancel hset

/-- Linking a node on the spoke of its positive normalised expiry keeps the wheel arranged. -/
theorem Arranged.scheduleNode {wheel : TimerWheel cfg} (h : Arranged wheel) {n : Node}
    (hpos : .zero < n.timerValue) (hnorm : n.timerValue.Normalised) :
    Arranged (wheel.scheduleNode n (calculateSpoke cfg n.timerValue) n.timerValue) := by
  have hpending := pending_scheduleNode wheel n (calculateSpoke cfg n.timerValue) n.timerValue
  have hmem : ∀ m ∈ (wheel.scheduleNode n (calculateSpoke cfg n.timerValue) n.timerValue).pending,
      m = { n with stamp := wheel.inserted } ∨ m ∈ wheel.pending := by
    intro m hm
    rw [hpending] at hm
    exact Multiset.mem_cons.mp hm
  constructor
  · intro spoke m hm
    change m ∈ ((wheel.setNodes _ _).spokes spoke).nodes at hm
    by_cases hspoke : spoke = calculateSpoke cfg n.timerValue
    · subst hspoke
      rw [setNodes_nodes_self] at hm
      rcases mem_insertStable.mp hm with rfl | hold
      · rfl
      · exact h.placed _ m hold
    · rw [setNodes_nodes_of_ne _ _ hspoke] at hm
      exact h.placed spoke m hm
  · change wheel.timerCount + 1 = _
    rw [hpending, Multiset.card_cons, h.counted]
  · intro spoke
    change (((wheel.setNodes _ _).spokes spoke).nodes).Pairwise DueBefore
    by_cases hspoke : spoke = calculateSpoke cfg n.timerValue
    · subst hspoke
      rw [setNodes_nodes_self]
      -- The new stamp is above all others, so the node may stand last among equal expiry times.
      exact insertStable_pairwise rfl (h.ordered _) (h.sorted _) (fun a b hlt ↦ Or.inl hlt)
        fun a ha heq ↦ Or.inr ⟨heq, h.stamped a (mem_pending.mpr ⟨_, ha⟩)⟩
    · rw [setNodes_nodes_of_ne _ _ hspoke]
      exact h.ordered spoke
  · intro m hm
    change m.stamp < wheel.inserted + 1
    rcases hmem m hm with rfl | hold
    · exact Nat.lt_succ_self _
    · exact (h.stamped m hold).trans (Nat.lt_succ_self _)
  · intro m hm
    rcases hmem m hm with rfl | hold
    · exact hpos
    · exact h.positive m hold
  · intro m hm
    rcases hmem m hm with rfl | hold
    · exact hnorm
    · exact h.normalised m hold

/-- Linking a node on the spoke of its positive normalised expiry keeps the wheel well formed. -/
theorem WellFormed.scheduleNode {wheel : TimerWheel cfg} (h : WellFormed wheel) {n : Node}
    (hpos : .zero < n.timerValue) (hnorm : n.timerValue.Normalised) :
    WellFormed (wheel.scheduleNode n (calculateSpoke cfg n.timerValue) n.timerValue) := by
  refine ⟨h.toArranged.scheduleNode hpos hnorm, fun _ ↦ ?_⟩
  have hpending := pending_scheduleNode wheel n (calculateSpoke cfg n.timerValue) n.timerValue
  rw [hpending]
  have hempty : wheel.isEmpty = true → ∀ m, m ∉ wheel.pending := by
    intro hzero m hm
    have hcount : wheel.timerCount = 0 := by simpa [isEmpty] using hzero
    rw [h.counted, Multiset.card_eq_zero] at hcount
    rw [hcount] at hm
    exact Multiset.notMem_zero m hm
  by_cases hfirst : wheel.isEmpty = true ∨ n.timerValue < wheel.earliestTime
  · -- The node is before all others, so it is the first of its spoke, the new earliest one.
    have hbefore : ∀ m ∈ wheel.pending, n.timerValue < m.timerValue := by
      intro m hm
      have hcount : 0 < wheel.timerCount := by
        rw [h.counted]
        exact Multiset.card_pos_iff_exists_mem.mpr ⟨m, hm⟩
      obtain ⟨first, hget, hle⟩ := h.earliest hcount
      rcases hfirst with hzero | hlt
      · exact absurd hm (hempty hzero m)
      · rw [earliestTime, hget] at hlt
        exact lt_of_lt_of_le hlt (hle m hm)
    refine ⟨{ n with stamp := wheel.inserted }, ?_, ?_⟩
    · simp only [getFirstI, TimerWheel.scheduleNode, if_pos hfirst]
      rw [setNodes_nodes_self, insertStable_of_lt fun m hm ↦ hbefore m (mem_pending.mpr ⟨_, hm⟩)]
      rfl
    · intro m hm
      rcases Multiset.mem_cons.mp hm with rfl | hold
      · exact le_rfl
      · exact (hbefore m hold).le
  · -- The first node stays first: the new one goes behind it or to another spoke.
    have hcount : 0 < wheel.timerCount := by
      rw [not_or] at hfirst
      simpa [isEmpty, Nat.pos_iff_ne_zero] using hfirst.1
    obtain ⟨first, hget, hle⟩ := h.earliest hcount
    have hnotBefore : first.timerValue ≤ n.timerValue := by
      rw [not_or, earliestTime, hget] at hfirst
      exact not_lt.mp hfirst.2
    refine ⟨first, ?_, ?_⟩
    · simp only [getFirstI, TimerWheel.scheduleNode, if_neg hfirst]
      by_cases hspoke : wheel.earliestSpoke = calculateSpoke cfg n.timerValue
      · rw [← hspoke, setNodes_nodes_self]
        exact insertStable_head? hget hnotBefore
      · rw [setNodes_nodes_of_ne _ _ hspoke]
        exact hget
    · intro m hm
      rcases Multiset.mem_cons.mp hm with rfl | hold
      · exact hnotBefore
      · exact hle m hold

end TimerWheel

end Exc.Timer
