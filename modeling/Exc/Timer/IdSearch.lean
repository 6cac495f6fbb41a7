import Exc.Timer.TimerIds

/-!
# The search for an id after the counter ran out

When the counter of a spoke has reached `max_cnt` and timers are still linked on the spoke,
`generate_timer_id` looks for a count that no node carries. It means to return it and to write the
smallest count in use above it to the root. But at the first count that is free it walks the spoke
from `n`, and `n` is the null result of the search for a node with that count. So the search only
ends when it finds no free count (`searchCnt_eq`), and it does not look at the last count.

`GeneratesFree` is what the search is for. It holds exactly on empty spokes, which are not searched,
and on spokes whose nodes carry all the counts (`generatesFree_iff`).
-/

set_option autoImplicit false
set_option relaxedAutoImplicit false

namespace Exc.Timer

open TimerWheel

variable {cfg : WheelConfig}

namespace TimerWheel

/-- A node of the spoke carries the id with this count. -/
def Carried (wheel : TimerWheel cfg) (spoke : Fin cfg.spokeCount) (cnt : ℕ) : Prop :=
  ∃ n ∈ (wheel.spokes spoke).nodes, n.timerId = packId cfg cnt spoke

instance (wheel : TimerWheel cfg) (spoke : Fin cfg.spokeCount) (cnt : ℕ) :
    Decidable (wheel.Carried spoke cnt) :=
  inferInstanceAs (Decidable (∃ n ∈ (wheel.spokes spoke).nodes, n.timerId = packId cfg cnt spoke))

/-- The counts in use on a spoke. -/
def usedCnts (wheel : TimerWheel cfg) (spoke : Fin cfg.spokeCount) : List ℤ :=
  (wheel.spokes spoke).nodes.map fun n : Node ↦ (n.timerId : ℤ) >>> (cfg.spokeBits : ℕ)

/-- `next` is the smallest count in use above `cnt`, or zero if there is none. -/
def IsNextCnt (wheel : TimerWheel cfg) (spoke : Fin cfg.spokeCount) (cnt next : ℕ) : Prop :=
  (next = 0 ∧ ∀ tmp ∈ wheel.usedCnts spoke, tmp ≤ (cnt : ℤ)) ∨
    (cnt < next ∧ (next : ℤ) ∈ wheel.usedCnts spoke ∧
      ∀ tmp ∈ wheel.usedCnts spoke, (cnt : ℤ) < tmp → (next : ℤ) ≤ tmp)

/-- `generate_timer_id` returns an id that no node of the spoke carries and notes the next count in
use, or returns `-1` if the nodes carry all ids; it follows no null node. -/
def GeneratesFree (wheel : TimerWheel cfg) (spoke : Fin cfg.spokeCount) : Prop :=
  ∃ id wheel', wheel.generateTimerId spoke = .ok (id, wheel') ∧
    ((∃ cnt < maxCnt cfg spoke, id = packId cfg cnt spoke ∧ ¬wheel.Carried spoke cnt ∧
        wheel.IsNextCnt spoke cnt (wheel'.spokes spoke).act1) ∨
      id = -1 ∧ ∀ cnt < maxCnt cfg spoke, wheel.Carried spoke cnt)

theorem findSpokeNode_isSome_iff {wheel : TimerWheel cfg} {spoke : Fin cfg.spokeCount} {cnt : ℕ} :
    (wheel.findSpokeNode spoke (packId cfg cnt spoke)).isSome ↔ wheel.Carried spoke cnt := by
  simp [findSpokeNode, Carried]

/-- The search ends without a fault only if it meets no free count. -/
theorem searchCnt_eq (wheel : TimerWheel cfg) (spoke : Fin cfg.spokeCount) (rounds cnt : ℕ) :
    wheel.searchCnt spoke rounds cnt = .ok (-1) ↔
      ∀ i < rounds, wheel.Carried spoke (cnt + i) := by
  induction rounds generalizing cnt with
  | zero => simp [searchCnt]
  | succ rounds ih =>
    rw [searchCnt]
    cases hfind : wheel.findSpokeNode spoke (packId cfg cnt spoke) with
    | none =>
      have hfree : ¬wheel.Carried spoke cnt := by
        rw [← findSpokeNode_isSome_iff, hfind]
        exact Bool.false_ne_true
      simp only [reduceCtorEq, false_iff]
      intro hall
      exact hfree (hall 0 (Nat.succ_pos rounds))
    | some n =>
      have hcarried : wheel.Carried spoke cnt := by
        rw [← findSpokeNode_isSome_iff, hfind]
        rfl
      simp only [ih]
      constructor
      · intro hall i hi
        cases i with
        | zero => exact hcarried
        | succ i =>
          have hnext := hall i (Nat.lt_of_succ_lt_succ hi)
          rwa [Nat.add_assoc, Nat.add_comm 1 i] at hnext
      · intro hall i hi
        have hnext := hall (i + 1) (Nat.succ_lt_succ hi)
        rwa [Nat.add_comm i 1, ← Nat.add_assoc] at hnext

theorem maxCnt_eq (cfg : WheelConfig) (spoke : Fin cfg.spokeCount) :
    maxCnt cfg spoke = 2 ^ (cfg.longBits - cfg.spokeBits) - 1 := by
  simp only [maxCnt, if_neg spoke.isLt.ne]

theorem maxCnt_pos (cfg : WheelConfig) (spoke : Fin cfg.spokeCount) : 0 < maxCnt cfg spoke := by
  have hbits : 2 ≤ cfg.longBits - cfg.spokeBits := by
    have hspoke := cfg.spoke_bits.2
    rcases cfg.long_bits with hlong | hlong <;> omega
  have hpow : 2 ^ 2 ≤ 2 ^ (cfg.longBits - cfg.spokeBits) := Nat.pow_le_pow_right (by decide) hbits
  rw [maxCnt_eq]
  omega

/-- The ids that are handed out are not `-1`. -/
theorem packId_ne_neg_one_of_lt {cnt : ℕ} {spoke : Fin cfg.spokeCount}
    (hcnt : cnt < maxCnt cfg spoke) : packId cfg cnt spoke ≠ -1 := by
  have hspoke : (spoke : ℕ) < 2 ^ cfg.spokeBits := cfg.spokeCount_eq ▸ spoke.isLt
  have hpow : 2 ^ (cfg.longBits - cfg.spokeBits) * 2 ^ cfg.spokeBits = 2 ^ cfg.longBits := by
    have hle : cfg.spokeBits ≤ cfg.longBits := by
      have hspoke := cfg.spoke_bits.2
      rcases cfg.long_bits with hlong | hlong <;> omega
    rw [← pow_add, Nat.sub_add_cancel hle]
  have hlt : cnt * 2 ^ cfg.spokeBits + spoke + 1 < 2 ^ cfg.longBits := by
    rw [maxCnt_eq] at hcnt
    calc cnt * 2 ^ cfg.spokeBits + spoke + 1
        ≤ cnt * 2 ^ cfg.spokeBits + 2 ^ cfg.spokeBits := by omega
      _ = (cnt + 1) * 2 ^ cfg.spokeBits := by ring
      _ < 2 ^ (cfg.longBits - cfg.spokeBits) * 2 ^ cfg.spokeBits :=
          Nat.mul_lt_mul_of_pos_right (by omega) (by positivity)
      _ = 2 ^ cfg.longBits := hpow
  rw [packId, shiftLeft_or]
  intro heq
  have hmod := congrArg (· % ((2 ^ cfg.longBits : ℕ) : ℤ)) heq
  simp only [Int.bmod_emod] at hmod
  have hdvd : 2 ^ cfg.longBits ∣ cnt * 2 ^ cfg.spokeBits + spoke + 1 := by
    have hsub := Int.dvd_of_emod_eq_zero (Int.emod_eq_emod_iff_emod_sub_eq_zero.mp hmod)
    rw [sub_neg_eq_add] at hsub
    exact_mod_cast hsub
  exact absurd (Nat.le_of_dvd (Nat.succ_pos _) hdvd) (not_le.mpr hlt)

theorem packId_zero (spoke : Fin cfg.spokeCount) : packId cfg 0 spoke = (spoke : ℕ) := by
  have hspoke : (spoke : ℕ) < 2 ^ cfg.spokeBits := cfg.spokeCount_eq ▸ spoke.isLt
  have hpow : 2 ^ cfg.spokeBits ≤ 2 ^ 12 := Nat.pow_le_pow_right (by decide) cfg.spoke_bits.2
  rw [packId, shiftLeft_or, Nat.zero_mul, Nat.zero_add]
  rcases cfg.long_bits with hlong | hlong <;> rw [hlong]
  all_goals exact Int.bmod_eq_of_le (by omega) (by omega)

theorem generateTimerId_of_wrap {wheel : TimerWheel cfg} {spoke : Fin cfg.spokeCount}
    (hwrap : maxCnt cfg spoke ≤ (wheel.spokes spoke).timerId)
    (hnodes : (wheel.spokes spoke).nodes ≠ []) :
    wheel.generateTimerId spoke =
      (wheel.searchCnt spoke (maxCnt cfg spoke - 1) 0).bind fun id ↦
        .ok (id, wheel.setRoot spoke (wheel.spokes spoke).timerId (wheel.spokes spoke).act1) := by
  simp only [generateTimerId, hnodes, and_false, if_false, if_pos hwrap]
  rfl

/-- If a count that the search reaches is free, the null node is followed. -/
theorem generateTimerId_nullNode {wheel : TimerWheel cfg} {spoke : Fin cfg.spokeCount} {cnt : ℕ}
    (hwrap : maxCnt cfg spoke ≤ (wheel.spokes spoke).timerId)
    (hnodes : (wheel.spokes spoke).nodes ≠ []) (hcnt : cnt < maxCnt cfg spoke - 1)
    (hfree : ¬wheel.Carried spoke cnt) :
    wheel.generateTimerId spoke = .error .nullNode := by
  rw [generateTimerId_of_wrap hwrap hnodes]
  rcases searchCnt_cases wheel spoke (maxCnt cfg spoke - 1) 0 with hfull | hnull
  · have hcarried := (searchCnt_eq wheel spoke _ 0).mp hfull cnt hcnt
    rw [Nat.zero_add] at hcarried
    exact absurd hcarried hfree
  · rw [hnull]
    rfl

/-- If the nodes carry all counts that the search reaches, the result is `-1`. -/
theorem generateTimerId_full {wheel : TimerWheel cfg} {spoke : Fin cfg.spokeCount}
    (hwrap : maxCnt cfg spoke ≤ (wheel.spokes spoke).timerId)
    (hnodes : (wheel.spokes spoke).nodes ≠ [])
    (hall : ∀ cnt < maxCnt cfg spoke - 1, wheel.Carried spoke cnt) :
    wheel.generateTimerId spoke =
      .ok (-1, wheel.setRoot spoke (wheel.spokes spoke).timerId (wheel.spokes spoke).act1) := by
  have hfull := (searchCnt_eq wheel spoke (maxCnt cfg spoke - 1) 0).mpr fun i hi ↦ by
    rw [Nat.zero_add]
    exact hall i hi
  rw [generateTimerId_of_wrap hwrap hnodes, hfull]
  rfl

/-- After the counter ran out the search does what it is for if and only if the spoke is empty or
its nodes carry all ids. -/
theorem generatesFree_iff {wheel : TimerWheel cfg} {spoke : Fin cfg.spokeCount}
    (hwrap : maxCnt cfg spoke ≤ (wheel.spokes spoke).timerId) :
    wheel.GeneratesFree spoke ↔
      (wheel.spokes spoke).nodes = [] ∨ ∀ cnt < maxCnt cfg spoke, wheel.Carried spoke cnt := by
  by_cases hempty : (wheel.spokes spoke).nodes = []
  · refine iff_of_true ?_ (.inl hempty)
    have hgenerate : wheel.generateTimerId spoke = .ok ((spoke : ℕ), wheel.setRoot spoke 1 0) := by
      simp [generateTimerId, hwrap, hempty]
    refine ⟨_, _, hgenerate, .inl ⟨0, maxCnt_pos cfg spoke, (packId_zero spoke).symm, ?_, ?_⟩⟩
    · rintro ⟨n, hn, -⟩
      rw [hempty] at hn
      cases hn
    · simp [IsNextCnt, usedCnts, setRoot, hempty]
  · constructor
    · rintro ⟨id, wheel', hok, hid⟩
      have hreached : ∀ cnt < maxCnt cfg spoke - 1, wheel.Carried spoke cnt := by
        intro cnt hcnt
        by_contra hfree
        rw [generateTimerId_nullNode hwrap hempty hcnt hfree] at hok
        cases hok
      -- The result is `-1`, which is no id, so it stands for a full spoke.
      rw [generateTimerId_full hwrap hempty hreached] at hok
      cases hok
      rcases hid with ⟨cnt, hcnt, hpack, -⟩ | ⟨-, hall⟩
      · exact absurd hpack.symm (packId_ne_neg_one_of_lt hcnt)
      · exact .inr hall
    · rintro (hnil | hall)
      · exact absurd hnil hempty
      · have hgenerate := generateTimerId_full hwrap hempty fun cnt hcnt ↦ hall cnt (by omega)
        exact ⟨_, _, hgenerate, .inr ⟨rfl, hall⟩⟩

/-- A wheel whose counters have run out, with the same nodes on every spoke. -/
def wrapped (cfg : WheelConfig) (nodes : List Node) : TimerWheel cfg :=
  ⟨fun spoke ↦ ⟨0, maxCnt cfg spoke, 0, nodes⟩, 0, nodes.length * cfg.spokeCount, 0⟩

/-- Nodes that carry all the counts of the first spoke. -/
def allCarried (cfg : WheelConfig) : List Node :=
  (List.range (maxCnt cfg 0)).map fun cnt ↦
    ⟨cnt + 1, some cnt, 0, 0, .zero, .zero, packId cfg cnt 0, cnt, cnt⟩

theorem carried_allCarried {cfg : WheelConfig} {cnt : ℕ} (hcnt : cnt < maxCnt cfg 0) :
    (wrapped cfg (allCarried cfg)).Carried 0 cnt :=
  ⟨_, List.mem_map.mpr ⟨cnt, List.mem_range.mpr hcnt, rfl⟩, rfl⟩

/-- An empty spoke, and one with as many timers as there are counts. -/
theorem generatesFree_wrapped :
    (wrapped State.smallWheel []).GeneratesFree 0 ∧
      (allCarried State.smallWheel).length = maxCnt State.smallWheel 0 ∧
      (wrapped State.smallWheel (allCarried State.smallWheel)).GeneratesFree 0 :=
  ⟨(generatesFree_iff le_rfl).mpr (.inl rfl), by simp [allCarried],
    (generatesFree_iff le_rfl).mpr (.inr fun _ hcnt ↦ carried_allCarried hcnt)⟩

/-- One timer is linked when the counter runs out, with the count seven. -/
theorem not_generatesFree_pending :
    ¬∀ (cfg : WheelConfig) (wheel : TimerWheel cfg) (spoke : Fin cfg.spokeCount),
      maxCnt cfg spoke ≤ (wheel.spokes spoke).timerId → wheel.GeneratesFree spoke := by
  intro hall
  let n : Node := ⟨1, none, 0, 0, .zero, .zero, packId State.smallWheel 7 0, 0, 0⟩
  have hcnt : 0 < maxCnt State.smallWheel 0 - 1 := by decide
  have hfree : ¬(wrapped State.smallWheel [n]).Carried 0 0 := by decide
  have hnull := generateTimerId_nullNode le_rfl (List.cons_ne_nil n []) hcnt hfree
  obtain ⟨id, wheel', hok, -⟩ := hall State.smallWheel (wrapped State.smallWheel [n]) 0 le_rfl
  rw [hnull] at hok
  cases hok

end TimerWheel

end Exc.Timer
