import Exc.Timer.LiveTimers

/-!
# Timer ids

An id packs a count of the spoke above the bits of the spoke. `IdsIdentify` is what the ids are for:
no two pending timers share one, and `cancel_timer` takes away the timer that the id was returned
for, or nothing.

The counts of a spoke run out. On a platform with a `long` of 64 bits the id goes through an `int`
on its way out, so after `2 ^ (32 - spoke_bits_)` timers on one spoke the ids come again
(`ids_collide` runs into this with the largest wheel, after 2^20 + 1 timers). With a `long` of 32
bits the count reaches `max_cnt` first; then an empty spoke starts again at zero, although a
periodic timer with that id may live on another spoke by now, and a spoke that is not empty is
searched for a free count, which ends at a null pointer.

`CountsLeft` is the condition that none of this has been reached: `schedule` is called for a spoke
with counts left. `ids_identify` shows that the runs whose steps all meet it have only ids that
identify. The invariant is `Packed`: every id that was returned is the packing of a count below the
counter of its spoke, so the next one is new, because packing is injective below 2^32
(`toInt_packId_inj`).
-/

set_option autoImplicit false
set_option relaxedAutoImplicit false

namespace Exc.Timer

open Lib TimerWheel

variable {cfg : WheelConfig}

/-! ### Packing -/

theorem shiftLeft_or (cfg : WheelConfig) (cnt : ℕ) (spoke : Fin cfg.spokeCount) :
    (cnt <<< cfg.spokeBits ||| (spoke : ℕ)) = cnt * 2 ^ cfg.spokeBits + spoke := by
  have hspoke : (spoke : ℕ) < 2 ^ cfg.spokeBits := cfg.spokeCount_eq ▸ spoke.isLt
  rw [← Nat.shiftLeft_add_eq_or_of_lt hspoke, Nat.shiftLeft_eq]

/-- The two conversions of an id leave its low 32 bits. -/
theorem toInt_packId (cfg : WheelConfig) (cnt : ℕ) (spoke : Fin cfg.spokeCount) :
    toInt (packId cfg cnt spoke) =
      ((cnt * 2 ^ cfg.spokeBits + spoke : ℕ) : ℤ).bmod (2 ^ 32) := by
  have hdvd : 2 ^ 32 ∣ 2 ^ cfg.longBits := by
    rcases cfg.long_bits with hbits | hbits <;> rw [hbits]
    exact Nat.pow_dvd_pow 2 (by norm_num)
  rw [toInt, packId, shiftLeft_or, Int.bmod_bmod_of_dvd hdvd]

/-- The counts of a spoke that fit into an `int` together with the spoke. -/
theorem packed_lt {cnt : ℕ} (spoke : Fin cfg.spokeCount) (hcnt : cnt < 2 ^ (32 - cfg.spokeBits)) :
    cnt * 2 ^ cfg.spokeBits + spoke < 2 ^ 32 := by
  have hspoke : (spoke : ℕ) < 2 ^ cfg.spokeBits := cfg.spokeCount_eq ▸ spoke.isLt
  have hpow : 2 ^ (32 - cfg.spokeBits) * 2 ^ cfg.spokeBits = 2 ^ 32 := by
    rw [← pow_add, Nat.sub_add_cancel (cfg.spoke_bits.2.trans (by norm_num))]
  calc cnt * 2 ^ cfg.spokeBits + spoke
      < cnt * 2 ^ cfg.spokeBits + 2 ^ cfg.spokeBits := by omega
    _ = (cnt + 1) * 2 ^ cfg.spokeBits := by ring
    _ ≤ 2 ^ (32 - cfg.spokeBits) * 2 ^ cfg.spokeBits := Nat.mul_le_mul_right _ hcnt
    _ = 2 ^ 32 := hpow

/-- Packing is injective on the counts that fit into an `int`. -/
theorem toInt_packId_inj {first second : ℕ} {spoke other : Fin cfg.spokeCount}
    (hfirst : first < 2 ^ (32 - cfg.spokeBits)) (hsecond : second < 2 ^ (32 - cfg.spokeBits))
    (heq : toInt (packId cfg first spoke) = toInt (packId cfg second other)) :
    first = second ∧ spoke = other := by
  rw [toInt_packId, toInt_packId] at heq
  have hnat : first * 2 ^ cfg.spokeBits + spoke = second * 2 ^ cfg.spokeBits + other := by
    have hmod := congrArg (· % ((2 ^ 32 : ℕ) : ℤ)) heq
    simp only [Int.bmod_emod] at hmod
    rwa [← Int.natCast_emod, ← Int.natCast_emod, Int.natCast_inj,
      Nat.mod_eq_of_lt (packed_lt spoke hfirst), Nat.mod_eq_of_lt (packed_lt other hsecond)] at hmod
  have hspoke : (spoke : ℕ) < 2 ^ cfg.spokeBits := cfg.spokeCount_eq ▸ spoke.isLt
  have hother : (other : ℕ) < 2 ^ cfg.spokeBits := cfg.spokeCount_eq ▸ other.isLt
  have hdiv := congrArg (· / 2 ^ cfg.spokeBits) hnat
  have hpos : 0 < 2 ^ cfg.spokeBits := by positivity
  simp only [Nat.add_comm (_ * _), Nat.add_mul_div_right _ _ hpos, Nat.div_eq_of_lt hspoke,
    Nat.div_eq_of_lt hother, Nat.zero_add] at hdiv
  subst hdiv
  exact ⟨rfl, Fin.ext (by omega)⟩

/-- While the counter of a spoke is below `max_cnt` and no search was made, an id is the packing of
the counter. -/
theorem generateTimerId_of_lt {wheel : TimerWheel cfg} {spoke : Fin cfg.spokeCount}
    (hcnt : (wheel.spokes spoke).timerId < maxCnt cfg spoke)
    (hact : (wheel.spokes spoke).act1 = 0) :
    wheel.generateTimerId spoke =
      .ok (toInt (packId cfg (wheel.spokes spoke).timerId spoke),
        wheel.setRoot spoke ((wheel.spokes spoke).timerId + 1) 0) := by
  simp [generateTimerId, hact, not_le.mpr hcnt]

namespace State

/-! ### What ids are for -/

/-- The ids of the pending timers are distinct and not `-1`; `cancel_timer` takes away the pending
timer whose `schedule` call returned the id, and does nothing when there is none. -/
structure IdsIdentify (state : State cfg) : Prop where
  distinct : (state.queue.wheel.pending.map Node.timerId).Nodup
  valid : ∀ n ∈ state.queue.wheel.pending, n.timerId ≠ -1
  removes : ∀ n ∈ state.queue.wheel.pending, ∀ id, .scheduleReturned n.serial id ∈ state.log →
    ∃ queue, state.queue.cancelTimer id = (1, some (n.act1, n.act2), queue) ∧
      state.queue.wheel.pending = n ::ₘ queue.wheel.pending
  misses : ∀ id, (∀ n ∈ state.queue.wheel.pending, .scheduleReturned n.serial id ∉ state.log) →
    state.queue.cancelTimer id = (0, none, state.queue)

/-- `schedule` is called for a spoke with counts left: its counter has not reached `max_cnt`, and it
fits into an `int` together with the spoke. -/
def CountsLeft (state : State cfg) : Action → Prop
  | .schedule _ _ _ future _ =>
    let spoke := calculateSpoke cfg (state.queue.env.clock + future)
    (state.queue.wheel.spokes spoke).timerId < maxCnt cfg spoke ∧
      (state.queue.wheel.spokes spoke).timerId < 2 ^ (32 - cfg.spokeBits)
  | _ => True

instance (state : State cfg) (action : Action) : Decidable (state.CountsLeft action) :=
  match action with
  | .schedule _ _ _ _ _ => inferInstanceAs (Decidable (_ ∧ _))
  | .cancelTimer _ => .isTrue trivial
  | .env _ => .isTrue trivial
  | .expire _ => .isTrue trivial
  | .returnCallback => .isTrue trivial

/-! ### The invariant -/

/-- Every id that was returned packs a count below the counter of its spoke; no two are equal. -/
structure Packed (state : State cfg) : Prop where
  unsearched : ∀ spoke, (state.queue.wheel.spokes spoke).act1 = 0
  packed : ∀ tag ∈ state.issued, ∃ (spoke : Fin cfg.spokeCount) (cnt : ℕ),
    cnt < (state.queue.wheel.spokes spoke).timerId ∧ cnt < 2 ^ (32 - cfg.spokeBits) ∧
      tag.2 = toInt (packId cfg cnt spoke)
  distinct : (state.issued.map Prod.snd).Nodup

theorem scheduleNode_sameRoots (wheel : TimerWheel cfg) (n : Node) (spoke : Fin cfg.spokeCount)
    (expire : TimeValue) : SameRoots wheel (wheel.scheduleNode n spoke expire) :=
  setNodes_sameRoots wheel spoke _

theorem Round.sameRoots {queue : TimerQueue cfg} {cur : TimeValue} {count : ℕ} {log : List Event}
    {state' : State cfg} (hround : Round queue cur count log state') :
    SameRoots queue.wheel state'.queue.wheel := by
  cases hround with
  | returned => exact fun spoke ↦ ⟨rfl, rfl, rfl⟩
  | dropped n wheel hwell hpending hroots => exact hroots
  | entered n wheel ev hwell hpending hroots => exact hroots

/-- Only `schedule` touches the roots, and only where it generates an id. -/
theorem Effect.roots {state state' : State cfg} {action : Action}
    (heffect : Effect state action state') :
    (∃ type act1 act2 future interval id wheel,
        action = .schedule type act1 act2 future interval ∧
          state.queue.wheel.generateTimerId
            (calculateSpoke cfg (state.queue.env.clock + future)) = .ok (id, wheel) ∧
          SameRoots wheel state'.queue.wheel ∧
          state'.issued = state.issued ++ [(state.queue.scheduled, id)]) ∨
      (state'.issued = state.issued ∧ SameRoots state.queue.wheel state'.queue.wheel) := by
  have hrefl : ∀ wheel : TimerWheel cfg, SameRoots wheel wheel := fun _ _ ↦ ⟨rfl, rfl, rfl⟩
  cases heffect with
  | scheduled addr freeList id timerId nextCnt wheel hgenerate hwheel =>
    refine Or.inl ⟨_, _, _, _, _, id, wheel, rfl, hgenerate, ?_, ?_⟩
    · dsimp only
      split_ifs
      · exact hrefl wheel
      · exact scheduleNode_sameRoots wheel _ _ _
    · simp [State.issued, Event.issued]
  | missed => exact Or.inr ⟨by simp [State.issued, Event.issued], hrefl _⟩
  | cancelled n wheel hid hwell hpending hroots =>
    exact Or.inr ⟨by simp [State.issued, Event.issued], hroots⟩
  | env op => exact Or.inr ⟨rfl, hrefl _⟩
  | expireEmpty => exact Or.inr ⟨by simp [State.issued, Event.issued], hrefl _⟩
  | expire hphase hround => exact Or.inr ⟨hround.trace.2.1, hround.sameRoots⟩
  | oneShot hphase honce hround =>
    refine Or.inr ⟨hround.trace.2.1.trans ?_, hround.sameRoots⟩
    exact filterMap_issued_outcomeEvents _ _ _
  | stopped hphase hperiodic hrepeated =>
    exact Or.inr ⟨filterMap_issued_outcomeEvents _ _ _, hrefl _⟩
  | rescheduled later hphase hperiodic hrepeated hcatch hround =>
    refine Or.inr ⟨hround.trace.2.1.trans ?_, fun spoke ↦ ?_⟩
    · exact filterMap_issued_outcomeEvents _ _ _
    · have hlinked := scheduleNode_sameRoots state.queue.wheel
      exact ⟨(hround.sameRoots spoke).1.trans (hlinked _ _ _ spoke).1,
        (hround.sameRoots spoke).2.1.trans (hlinked _ _ _ spoke).2.1,
        (hround.sameRoots spoke).2.2.trans (hlinked _ _ _ spoke).2.2⟩
  | resumed hphase hround => exact Or.inr ⟨hround.trace.2.1, hround.sameRoots⟩

/-- An id that packs the counter of its spoke is new. -/
theorem Packed.fresh {state : State cfg} (h : Packed state) {spoke : Fin cfg.spokeCount}
    (hleft : (state.queue.wheel.spokes spoke).timerId < 2 ^ (32 - cfg.spokeBits)) :
    toInt (packId cfg (state.queue.wheel.spokes spoke).timerId spoke) ∉
      state.issued.map Prod.snd := by
  intro hmem
  obtain ⟨tag, htag, heq⟩ := List.mem_map.mp hmem
  obtain ⟨other, cnt, hlt, hcnt, hpacked⟩ := h.packed tag htag
  obtain ⟨rfl, rfl⟩ := toInt_packId_inj hcnt hleft (hpacked.symm.trans heq)
  exact lt_irrefl _ hlt

/-- Every action with counts left keeps the invariant. -/
theorem Effect.packed {state state' : State cfg} {action : Action}
    (heffect : Effect state action state') (h : Packed state) (hleft : CountsLeft state action) :
    Packed state' := by
  rcases heffect.roots with
    ⟨type, act1, act2, future, interval, id, wheel, rfl, hgenerate, hroots, hissued⟩ |
      ⟨hissued, hroots⟩
  · obtain ⟨hmax, hint⟩ := hleft
    rw [generateTimerId_of_lt hmax (h.unsearched _), Except.ok.injEq, Prod.mk.injEq] at hgenerate
    obtain ⟨rfl, rfl⟩ := hgenerate
    generalize calculateSpoke cfg (state.queue.env.clock + future) = spoke at *
    -- The counter of the spoke has moved on, and the others are where they were.
    have hcounter : ∀ other, (state.queue.wheel.spokes other).timerId ≤
        (state'.queue.wheel.spokes other).timerId := by
      intro other
      rw [(hroots other).1]
      by_cases hother : other = spoke
      · subst hother
        simp [setRoot]
      · simp [setRoot, Function.update_of_ne hother]
    refine ⟨fun other ↦ ?_, fun tag htag ↦ ?_, ?_⟩
    · rw [(hroots other).2.1]
      by_cases hother : other = spoke
      · subst hother
        simp [setRoot]
      · simpa [setRoot, Function.update_of_ne hother] using h.unsearched other
    · rw [hissued, List.mem_append, List.mem_singleton] at htag
      rcases htag with hold | rfl
      · obtain ⟨other, cnt, hlt, hcnt, hpacked⟩ := h.packed tag hold
        exact ⟨other, cnt, hlt.trans_le (hcounter other), hcnt, hpacked⟩
      · refine ⟨spoke, _, ?_, hint, rfl⟩
        rw [(hroots spoke).1]
        simp [setRoot]
    · rw [hissued, List.map_append, List.nodup_append]
      refine ⟨h.distinct, List.nodup_singleton _, ?_⟩
      rintro old hold _ hnew rfl
      rw [List.map_singleton, List.mem_singleton] at hnew
      subst hnew
      exact h.fresh hint hold
  · refine ⟨fun spoke ↦ ?_, fun tag htag ↦ ?_, hissued ▸ h.distinct⟩
    · rw [(hroots spoke).2.1, h.unsearched spoke]
    · obtain ⟨spoke, cnt, hlt, hcnt, hpacked⟩ := h.packed tag (hissued ▸ htag)
      exact ⟨spoke, cnt, (hroots spoke).1.symm ▸ hlt, hcnt, hpacked⟩

theorem init_root (cfg : WheelConfig) (prealloc : ℕ) (env : Env) (spoke : Fin cfg.spokeCount) :
    ((init cfg prealloc env).queue.wheel.spokes spoke).timerId = 0 ∧
      ((init cfg prealloc env).queue.wheel.spokes spoke).act1 = 0 :=
  ⟨rfl, rfl⟩

theorem init_packed (cfg : WheelConfig) (prealloc : ℕ) (env : Env) :
    Packed (init cfg prealloc env) :=
  ⟨fun spoke ↦ (init_root cfg prealloc env spoke).2,
    fun _ htag ↦ absurd htag List.not_mem_nil, List.nodup_nil⟩

/-- Ids that are told apart by the calls that returned them identify the pending timers. -/
theorem Packed.idsIdentify {state : State cfg} (h : Packed state) (htraced : Traced state) :
    IdsIdentify state := by
  have hissued : ∀ n ∈ state.queue.wheel.pending, n.tag ∈ state.issued ∧ n.timerId ≠ -1 :=
    fun n hn ↦ htraced.issued n.tag (mem_tags_of_pending hn)
  have hinj : ∀ n ∈ state.queue.wheel.pending, ∀ m ∈ state.queue.wheel.pending,
      n.timerId = m.timerId → n = m := by
    intro n hn m hm heq
    have htag := List.inj_on_of_nodup_map h.distinct (hissued n hn).1 (hissued m hm).1 heq
    exact htraced.eq_of_serial_eq hn hm (congrArg Prod.fst htag)
  have hserial : ∀ n ∈ state.queue.wheel.pending, ∀ id,
      .scheduleReturned n.serial id ∈ state.log → n.timerId = id := by
    intro n hn id hmem
    exact htraced.issued_unique (hissued n hn).1 (List.mem_filterMap.mpr ⟨_, hmem, rfl⟩)
  have hnodup : state.queue.wheel.pending.Nodup := htraced.nodup_serial.of_map
  refine ⟨hnodup.map_on hinj, fun n hn ↦ (hissued n hn).2, fun n hn id hmem ↦ ?_, fun id hnone ↦ ?_⟩
  · obtain rfl := hserial n hn id hmem
    rcases cancelNode_cases state.queue.wheel n.timerId with
      ⟨-, hminus | hother⟩ | ⟨m, wheel, hcancel, hid, -, -, hpending, -⟩
    · exact absurd hminus (hissued n hn).2
    · exact absurd rfl (hother n hn)
    · obtain rfl : m = n := hinj m (hpending ▸ Multiset.mem_cons_self m _) n hn hid
      exact ⟨_, by rw [TimerQueue.cancelTimer, hcancel], hpending⟩
  · rcases cancelNode_cases state.queue.wheel id with
      ⟨hcancel, -⟩ | ⟨m, wheel, hcancel, hid, -, -, hpending, -⟩
    · rw [TimerQueue.cancelTimer, hcancel]
    · have hm : m ∈ state.queue.wheel.pending := hpending ▸ Multiset.mem_cons_self m _
      obtain ⟨event, hevent, hissuedBy⟩ := List.mem_filterMap.mp (hissued m hm).1
      refine absurd ?_ (hnone m hm)
      cases event with
      | scheduleReturned serial other =>
        obtain ⟨rfl, rfl⟩ : serial = m.serial ∧ other = m.timerId := by
          simpa [Event.issued, Node.tag] using hissuedBy
        exact hid ▸ hevent
      | _ => cases hissuedBy

/-- In every run whose steps all meet `CountsLeft`, the ids identify the pending timers. -/
theorem ids_identify {prealloc : ℕ} {env : Env} {actions : List Action} {state : State cfg}
    (hrun : Run (guarded CountsLeft (stepOf next)) (init cfg prealloc env) actions state) :
    IdsIdentify state := by
  have hboth : Traced state ∧ Packed state := by
    refine Run.invariant (fun state ↦ Traced state ∧ Packed state) hrun
      ⟨init_traced cfg prealloc env, init_packed cfg prealloc env⟩ ?_
    rintro middle action last ⟨htraced, h⟩ ⟨hleft, hnext⟩
    exact ⟨(next_cases hnext).traced htraced, (next_cases hnext).packed h hleft⟩
  exact hboth.2.idsIdentify hboth.1

/-- Two timers on one spoke, and a periodic one that has moved to another. -/
theorem ids_identify_moved :
    ∃ state : State smallWheel,
      Run (guarded CountsLeft (stepOf next)) (init smallWheel 0 ⟨⟨100, 0⟩, fun _ ↦ false⟩)
        [.schedule (some 1) 0 0 ⟨1, 0⟩ ⟨0, 2000⟩, .schedule (some 2) 0 0 ⟨1, 0⟩ ⟨0, 0⟩,
          .expire ⟨101, 0⟩, .returnCallback, .returnCallback] state ∧ IdsIdentify state :=
  ⟨_, Run.of_isSome (by decide +kernel), ids_identify (Run.of_isSome (by decide +kernel))⟩

/-! ### The collision -/

/-- A one-shot timer for the next second. -/
def oneSecond : Action := .schedule (some 0) 0 0 ⟨1, 0⟩ .zero

/-- After some calls of `schedule`, all at time zero, the counter of their spoke is their number,
and the timer of each is pending with the packing of its number as id. -/
structure Scheduled (spoke : Fin cfg.spokeCount) (calls : ℕ) (state : State cfg) : Prop where
  env : state.queue.env = ⟨.zero, fun _ ↦ false⟩
  scheduled : state.queue.scheduled = calls
  counter : (state.queue.wheel.spokes spoke).timerId = calls
  unsearched : (state.queue.wheel.spokes spoke).act1 = 0
  pending : ∀ number < calls, ∃ n ∈ state.queue.wheel.pending, n.serial = number ∧
    n.timerId = toInt (packId cfg number spoke)

/-- A packing is `-1` only on the last spoke. -/
theorem packId_ne_neg_one {spoke : Fin cfg.spokeCount} (hlast : (spoke : ℕ) + 1 < cfg.spokeCount)
    (cnt : ℕ) : toInt (packId cfg cnt spoke) ≠ -1 := by
  rw [toInt_packId]
  intro heq
  have hmod := congrArg (· % ((2 ^ 32 : ℕ) : ℤ)) heq
  simp only [Int.bmod_emod] at hmod
  have hdvd : 2 ^ 32 ∣ cnt * 2 ^ cfg.spokeBits + spoke + 1 := by omega
  have hbits : 2 ^ cfg.spokeBits ∣ cnt * 2 ^ cfg.spokeBits + (spoke + 1) :=
    (Nat.pow_dvd_pow 2 (cfg.spoke_bits.2.trans (by norm_num))).trans hdvd
  have hspoke := Nat.le_of_dvd (Nat.succ_pos _)
    ((Nat.dvd_add_right (Nat.dvd_mul_left _ _)).mp hbits)
  exact absurd (hlast.trans_eq cfg.spokeCount_eq) (not_lt.mpr hspoke)

/-- A call of `schedule` for a spoke whose counter is below `max_cnt` and on which no search was
made: the id is the packing of the counter. -/
theorem next_schedule_of_lt {state : State cfg} {spoke : Fin cfg.spokeCount} {future : TimeValue}
    (hspoke : calculateSpoke cfg (state.queue.env.clock + future) = spoke)
    (hcnt : (state.queue.wheel.spokes spoke).timerId < maxCnt cfg spoke)
    (hact : (state.queue.wheel.spokes spoke).act1 = 0) (type : Option Task) (act1 act2 : ℕ)
    (interval : TimeValue) :
    ∃ addr freeList id wheel, state.queue.freeList.remove = (some addr, freeList) ∧
      id = toInt (packId cfg (state.queue.wheel.spokes spoke).timerId spoke) ∧
      wheel = state.queue.wheel.setRoot spoke ((state.queue.wheel.spokes spoke).timerId + 1) 0 ∧
      state.next (.schedule type act1 act2 future interval) = some
        ⟨⟨if id = -1 then wheel
            else wheel.reschedule ⟨addr, type, act1, act2, state.queue.env.clock + future, interval,
              id, state.queue.scheduled, 0⟩,
          freeList, state.queue.env, state.queue.scheduled + 1⟩, state.phase,
          state.log ++ [.scheduleReturned state.queue.scheduled id]⟩ := by
  subst hspoke
  have hgenerate := generateTimerId_of_lt hcnt hact
  rcases TimerQueue.schedule_cases state.queue type act1 act2 future interval with
    ⟨herror, -⟩ | ⟨addr, freeList, id, timerId, nextCnt, wheel, hremove, hwheel, -, hok⟩
  · rw [hgenerate] at herror
    cases herror
  · rw [hgenerate, Except.ok.injEq, Prod.mk.injEq] at hwheel
    obtain ⟨rfl, rfl⟩ := hwheel
    refine ⟨addr, freeList, _, _, hremove, rfl, rfl, ?_⟩
    simp only [next, step, hok]
    rfl

/-- One more call succeeds while the counter is below `max_cnt`. -/
theorem Scheduled.oneMore {spoke : Fin cfg.spokeCount} {calls : ℕ} {state : State cfg}
    (h : Scheduled spoke calls state) (hspoke : calculateSpoke cfg (.zero + ⟨1, 0⟩) = spoke)
    (hlast : (spoke : ℕ) + 1 < cfg.spokeCount) (hcalls : calls < maxCnt cfg spoke) :
    ∃ state', guarded ExpiryPositive (stepOf next) state oneSecond state' ∧
      Scheduled spoke (calls + 1) state' := by
  have hpositive : ExpiryPositive state oneSecond := by
    rw [oneSecond, ExpiryPositive, h.env]
    decide +kernel
  obtain ⟨addr, freeList, id, wheel, -, hid, hwheel, hnext⟩ :=
    next_schedule_of_lt (by rw [h.env]; exact hspoke) (h.counter ▸ hcalls) h.unsearched
      (some 0) 0 0 .zero
  rw [h.counter] at hid hwheel
  subst hid hwheel
  rw [if_neg (packId_ne_neg_one hlast calls)] at hnext
  refine ⟨_, ⟨hpositive, hnext⟩, h.env, congrArg (· + 1) h.scheduled, ?_, ?_,
    fun number hnumber ↦ ?_⟩
  · exact ((scheduleNode_sameRoots _ _ _ _ _).1).trans (by simp [setRoot])
  · exact ((scheduleNode_sameRoots _ _ _ _ _).2.1).trans (by simp [setRoot])
  · rw [reschedule, pending_scheduleNode, setRoot_pending]
    rcases Nat.lt_succ_iff_lt_or_eq.mp hnumber with hold | rfl
    · obtain ⟨n, hn, hserial, hid⟩ := h.pending number hold
      exact ⟨n, Multiset.mem_cons_of_mem hn, hserial, hid⟩
    · exact ⟨_, Multiset.mem_cons_self _ _, h.scheduled, rfl⟩

/-- Calls of `schedule` succeed one after another as long as the counter is below `max_cnt`. -/
theorem run_oneSecond {spoke : Fin cfg.spokeCount}
    (hspoke : calculateSpoke cfg (.zero + ⟨1, 0⟩) = spoke)
    (hlast : (spoke : ℕ) + 1 < cfg.spokeCount) (calls : ℕ) (hcalls : calls ≤ maxCnt cfg spoke) :
    ∃ state, Run (guarded ExpiryPositive (stepOf next))
        (init cfg 0 ⟨.zero, fun _ ↦ false⟩) (List.replicate calls oneSecond) state ∧
      Scheduled spoke calls state := by
  induction calls with
  | zero =>
    exact ⟨_, .refl, rfl, rfl, (init_root _ _ _ _).1, (init_root _ _ _ _).2,
      fun number hnumber ↦ absurd hnumber (Nat.not_lt_zero _)⟩
  | succ calls ih =>
    obtain ⟨state, hrun, hscheduled⟩ := ih (by omega)
    obtain ⟨state', hstep, hscheduled'⟩ := hscheduled.oneMore hspoke hlast hcalls
    refine ⟨state', ?_, hscheduled'⟩
    rw [List.replicate_succ']
    exact hrun.tail hstep

/-- Two calls whose numbers pack alike leave two timers with one id. -/
theorem Scheduled.not_idsIdentify {spoke : Fin cfg.spokeCount} {calls : ℕ} {state : State cfg}
    (h : Scheduled spoke calls state) {first second : ℕ} (hlt : first < second)
    (hcalls : second < calls)
    (heq : toInt (packId cfg first spoke) = toInt (packId cfg second spoke)) :
    ¬ IdsIdentify state := by
  intro hids
  obtain ⟨n, hn, hserial, hid⟩ := h.pending first (hlt.trans hcalls)
  obtain ⟨m, hm, hserial', hid'⟩ := h.pending second hcalls
  have hsame : n = m := Multiset.inj_on_of_nodup_map hids.distinct n hn m hm
    (hid.trans (heq.trans hid'.symm))
  rw [← hsame, hserial] at hserial'
  exact hlt.ne hserial'

/-- A wheel on a platform with a `long` of 64 bits, with as many spokes as there can be: 4096. -/
def largeWheel : WheelConfig := { smallWheel with spokeBits := 12, spoke_bits := by decide }

/-- After 2^20 + 1 timers on one spoke two of them share an id, so ids do not always identify. -/
theorem ids_collide :
    ¬ ∀ (cfg : WheelConfig) (prealloc : ℕ) (env : Env) (actions : List Action) (state : State cfg),
      Run (guarded ExpiryPositive (stepOf next)) (init cfg prealloc env) actions state →
        IdsIdentify state := by
  intro hall
  have hvalue : (calculateSpoke largeWheel (.zero + ⟨1, 0⟩) : ℕ) = 500 := by decide +kernel
  have hlast : (calculateSpoke largeWheel (.zero + ⟨1, 0⟩) : ℕ) + 1 < largeWheel.spokeCount := by
    decide +kernel
  have hmax : 2 ^ 20 + 1 ≤ maxCnt largeWheel (calculateSpoke largeWheel (.zero + ⟨1, 0⟩)) := by
    decide +kernel
  obtain ⟨state, hrun, hscheduled⟩ := run_oneSecond rfl hlast (2 ^ 20 + 1) hmax
  refine hscheduled.not_idsIdentify (Nat.two_pow_pos 20) (Nat.lt_succ_self _) ?_
    (hall largeWheel 0 _ _ state hrun)
  rw [toInt_packId, toInt_packId, hvalue]
  change ((0 * 2 ^ 12 + 500 : ℕ) : ℤ).bmod (2 ^ 32) =
    ((2 ^ 20 * 2 ^ 12 + 500 : ℕ) : ℤ).bmod (2 ^ 32)
  norm_num [Int.bmod]

end State

end Exc.Timer
