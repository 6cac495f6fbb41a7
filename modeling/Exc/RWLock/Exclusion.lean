import Exc.Lib.Run
import Exc.RWLock.GMJRRWLock

/-!
# Exclusion and wake-ups of the reader-writer lock

The counters count the holders, and a writer holds the lock alone (`Invariant`). That is also why
`unlock` releases what its caller holds, although it goes by the counters.

Nobody is left waiting for a free lock: while the lock is free and a thread is blocked, another one
was woken and has yet to test its condition (`NoneStranded`). A thread blocks only while the lock is
held, the release that frees the lock wakes at least one of the blocked threads, and a woken thread
that finds the lock free takes it. It does not matter whether a reader or a writer is woken.

`next_cases` says what an action does when the counters are right. Both invariants are derived from
it.
-/

set_option autoImplicit false
set_option relaxedAutoImplicit false

namespace Exc.RWLock

open Lib

variable {Tid : Type} [Fintype Tid] [DecidableEq Tid]

/-- The counters are the numbers of holders, and a writer is alone. -/
structure Invariant (state : State Tid) : Prop where
  readers : state.rdCnt = total (Pc.holds .read) state.pc
  writers : state.wrCnt = total (Pc.holds .write) state.pc
  one_writer : state.wrCnt ≤ 1
  alone : ¬ (0 < state.rdCnt ∧ 0 < state.wrCnt)

/-- What an action does to a lock with the right counters: a thread blocks, enters, leaves or wakes
up. -/
inductive Effect (state : State Tid) : State Tid → Prop
  | blocks (thread : Tid) (mode : Mode) (hout : (state.pc thread).isHolding = false)
      (hwait : state.mustWait mode) :
      Effect state { state with pc := Function.update state.pc thread (.blocked mode) }
  | enters (thread : Tid) (mode : Mode) (hout : (state.pc thread).isHolding = false)
      (hfree : ¬ state.mustWait mode) : Effect state (state.attempt thread mode)
  | leavesWriting (thread : Tid) (hholds : state.pc thread = .holding .write) :
      Effect state (state.unWritelock thread)
  | leavesReading (thread : Tid) (woken : Finset Tid) (hholds : state.pc thread = .holding .read)
      (result : State Tid) (hleave : state.unReadlock thread woken = some result) :
      Effect state result
  | wakes (thread : Tid) (hwaits : (state.pc thread).waits = true) :
      Effect state { state with pc := wakeUp Pc.wake {thread} state.pc }

variable {state result : State Tid} {thread : Tid}

theorem Pc.holds_wake (mode : Mode) (place : Pc) : place.wake.holds mode = place.holds mode := by
  cases place <;> rfl

theorem Pc.holds_of_out (mode : Mode) {place : Pc} (hout : place.isHolding = false) :
    place.holds mode = 0 := by
  cases place <;> first | rfl | cases hout

theorem effect_attempt (mode : Mode) (hout : (state.pc thread).isHolding = false) :
    Effect state (state.attempt thread mode) := by
  by_cases hwait : state.mustWait mode
  · rw [State.attempt, if_pos hwait]
    exact .blocks thread mode hout hwait
  · exact .enters thread mode hout hwait

namespace Invariant

omit [DecidableEq Tid] in
theorem rdCnt_pos (h : Invariant state) (hholds : state.pc thread = .holding .read) :
    0 < state.rdCnt := by
  have hle : Pc.holds .read (state.pc thread) ≤ total (Pc.holds .read) state.pc := le_total
  rw [hholds] at hle
  have hone : Pc.holds .read (.holding .read) = 1 := rfl
  have hcount := h.readers
  omega

omit [DecidableEq Tid] in
theorem wrCnt_pos (h : Invariant state) (hholds : state.pc thread = .holding .write) :
    0 < state.wrCnt := by
  have hle : Pc.holds .write (state.pc thread) ≤ total (Pc.holds .write) state.pc := le_total
  rw [hholds] at hle
  have hone : Pc.holds .write (.holding .write) = 1 := rfl
  have hcount := h.writers
  omega

/-- `unlock` releases the mode that its caller holds. -/
theorem unlock_eq (h : Invariant state) (woken : Finset Tid) :
    (state.pc thread = .holding .write →
      state.unlock thread woken = some (state.unWritelock thread)) ∧
    (state.pc thread = .holding .read →
      state.unlock thread woken = state.unReadlock thread woken) := by
  constructor
  · intro hholds
    rw [State.unlock, if_pos (h.wrCnt_pos hholds)]
  · intro hholds
    have hpos := h.rdCnt_pos hholds
    rw [State.unlock, if_neg fun hwrite ↦ h.alone ⟨hpos, hwrite⟩, if_pos hpos]

/-- What an action does when the counters are right and the releases match. -/
theorem next_cases (h : Invariant state) {action : Action Tid} (hmatch : Matching state action)
    (hnext : next state action = some result) : Effect state result := by
  cases action with
  | lock thread mode =>
    cases hpc : state.pc thread with
    | idle =>
      obtain rfl : state.attempt thread mode = result := by simpa [next, hpc] using hnext
      exact effect_attempt mode (by rw [hpc]; rfl)
    | blocked | woken | holding => simp [next, hpc] at hnext
  | retest thread =>
    cases hpc : state.pc thread with
    | woken mode =>
      obtain rfl : state.attempt thread mode = result := by simpa [next, hpc] using hnext
      exact effect_attempt mode (by rw [hpc]; rfl)
    | idle | blocked | holding => simp [next, hpc] at hnext
  | unlock thread woken =>
    cases hpc : state.pc thread with
    | holding mode =>
      have hunlock : state.unlock thread woken = some result := by
        simpa [next, hpc, Pc.isOutside] using hnext
      cases mode with
      | write =>
        rw [(h.unlock_eq woken).1 hpc] at hunlock
        obtain rfl := Option.some.inj hunlock
        exact .leavesWriting thread hpc
      | read =>
        rw [(h.unlock_eq woken).2 hpc] at hunlock
        exact .leavesReading thread woken hpc result hunlock
    | idle | blocked | woken => simp [Matching, hpc, Pc.isHolding] at hmatch
  | unReadlock thread woken =>
    have hpc : state.pc thread = .holding .read := hmatch
    exact .leavesReading thread woken hpc result (by simpa [next, hpc, Pc.isOutside] using hnext)
  | unWritelock thread =>
    have hpc : state.pc thread = .holding .write := hmatch
    obtain rfl : state.unWritelock thread = result := by
      simpa [next, hpc, Pc.isOutside] using hnext
    exact .leavesWriting thread hpc
  | spurious thread =>
    by_cases hwaits : (state.pc thread).waits = true
    · rw [next, if_pos hwaits] at hnext
      obtain rfl := Option.some.inj hnext
      exact .wakes thread hwaits
    · rw [next, if_neg hwaits] at hnext
      cases hnext

end Invariant

/-! ### Exclusion -/

/-- The holders after a release: one less in the mode of the caller. -/
theorem total_leave (mode : Mode) {held : Mode} {woken : Finset Tid}
    (hholds : state.pc thread = .holding held) (hwoken : woken ⊆ waiters Pc.waits state.pc) :
    total (Pc.holds mode) (state.leave thread woken).pc + Pc.holds mode (.holding held) =
      total (Pc.holds mode) state.pc := by
  have hnot : thread ∉ woken := by
    intro hmem
    have hwaits := mem_waiters.mp (hwoken hmem)
    rw [hholds] at hwaits
    cases hwaits
  have hupdate := total_update (Pc.holds mode) (wakeUp Pc.wake woken state.pc) thread .idle
  rw [wakeUp_of_notMem hnot, hholds, total_wakeUp hwoken fun place _ ↦ Pc.holds_wake mode place]
    at hupdate
  exact hupdate

/-- A release of a reader, with the threads that it wakes. -/
theorem unReadlock_cases {woken : Finset Tid}
    (hleave : state.unReadlock thread woken = some result) :
    woken ⊆ waiters Pc.waits state.pc ∧
      result = State.leave { state with rdCnt := state.rdCnt - 1 } thread woken ∧
      (state.rdCnt - 1 = 0 → Signals Pc.waits state.pc woken) := by
  unfold State.unReadlock at hleave
  simp only at hleave
  split_ifs at hleave with hlast hsignals hnone
  · exact ⟨hsignals.1, (Option.some.inj hleave).symm, fun _ ↦ hsignals⟩
  · subst hnone
    exact ⟨Finset.empty_subset _, (Option.some.inj hleave).symm, fun hzero ↦ absurd hzero hlast⟩

/-- Every action keeps the counters right. -/
theorem Effect.invariant (heffect : Effect state result) (h : Invariant state) :
    Invariant result := by
  obtain ⟨hreaders, hwriters, hone, halone⟩ := h
  have hcount := fun mode thread place ↦ total_update (Pc.holds mode) state.pc thread place
  cases heffect with
  | blocks thread mode hout hwait =>
    have hsame : ∀ other, total (Pc.holds other) (Function.update state.pc thread (.blocked mode)) =
        total (Pc.holds other) state.pc := by
      intro other
      have hupdate := hcount other thread (.blocked mode)
      rwa [Pc.holds_of_out _ hout] at hupdate
    exact ⟨by rw [hreaders, ← hsame .read], by rw [hwriters, ← hsame .write], hone, halone⟩
  | enters thread mode hout hfree =>
    have hread := hcount .read thread (.holding mode)
    have hwrite := hcount .write thread (.holding mode)
    rw [Pc.holds_of_out _ hout] at hread hwrite
    rw [State.attempt, if_neg hfree]
    cases mode with
    | read =>
      have hwr : ¬ 0 < state.wrCnt := hfree
      simp only [Pc.holds] at hread hwrite
      constructor <;> simp only [reduceIte, reduceCtorEq] at * <;> omega
    | write =>
      have hboth : ¬ 0 < state.rdCnt + state.wrCnt := hfree
      simp only [Pc.holds] at hread hwrite
      constructor <;> simp only [reduceIte, reduceCtorEq] at * <;> omega
  | leavesWriting thread hholds =>
    have hread := total_leave .read hholds Finset.Subset.rfl
    have hwrite := total_leave .write hholds Finset.Subset.rfl
    have hzero : Pc.holds .read (.holding .write) = 0 := rfl
    have honeHeld : Pc.holds .write (.holding .write) = 1 := rfl
    constructor
    · show state.rdCnt = _
      rw [hreaders, ← hread, hzero]
      rfl
    · show state.wrCnt - 1 = total (Pc.holds .write) (state.leave thread _).pc
      omega
    · show state.wrCnt - 1 ≤ 1
      omega
    · show ¬ (0 < state.rdCnt ∧ 0 < state.wrCnt - 1)
      omega
  | leavesReading thread woken hholds result hleave =>
    obtain ⟨hwoken, rfl, -⟩ := unReadlock_cases hleave
    have hread := total_leave .read hholds hwoken
    have hwrite := total_leave .write hholds hwoken
    have hzero : Pc.holds .write (.holding .read) = 0 := rfl
    have honeHeld : Pc.holds .read (.holding .read) = 1 := rfl
    constructor
    · show state.rdCnt - 1 = total (Pc.holds .read) (state.leave thread woken).pc
      omega
    · show state.wrCnt = _
      rw [hwriters, ← hwrite, hzero]
      rfl
    · exact hone
    · show ¬ (0 < state.rdCnt - 1 ∧ 0 < state.wrCnt)
      omega
  | wakes thread hwaits =>
    have hwoken : {thread} ⊆ waiters Pc.waits state.pc := by simpa using hwaits
    have hsame := fun mode ↦ total_wakeUp hwoken fun place _ ↦ Pc.holds_wake mode place
    exact ⟨by rw [hreaders, ← hsame .read], by rw [hwriters, ← hsame .write], hone, halone⟩

/-- The runs of the lock in which the releases match. -/
def Reaches (actions : List (Action Tid)) (state : State Tid) : Prop :=
  Run (guarded Matching (stepOf next)) initial actions state

omit [DecidableEq Tid] in
theorem initial_invariant : Invariant (initial : State Tid) := by
  constructor
  · exact (congrArg Nat.cast (total_const (ι := Tid) (Pc.holds .read) rfl)).symm
  · exact (congrArg Nat.cast (total_const (ι := Tid) (Pc.holds .write) rfl)).symm
  · exact zero_le_one
  · exact fun hboth ↦ lt_irrefl _ hboth.1

theorem Reaches.invariant {actions : List (Action Tid)} (hrun : Reaches actions state) :
    Invariant state := by
  refine Run.invariant Invariant hrun initial_invariant ?_
  rintro middle action last h ⟨hmatch, hnext⟩
  exact (h.next_cases hmatch hnext).invariant h

theorem Pc.holds_eq (mode : Mode) (place : Pc) :
    Pc.holds mode place = if place = .holding mode then 1 else 0 := by
  cases place with
  | idle | blocked | woken => rfl
  | holding held => simp [Pc.holds]

omit [DecidableEq Tid] in
theorem total_holds (mode : Mode) (pc : Tid → Pc) :
    total (Pc.holds mode) pc =
      (Finset.univ.filter fun thread ↦ pc thread = .holding mode).card :=
  total_eq_card (Pc.holds_eq mode) pc

/-- The counters are the numbers of readers and of writers, there is at most one writer, and never
together with a reader; and `unlock` is the release of the mode that its caller holds. Assumes: the
releases of the run match. -/
theorem readers_writers_excluded {actions : List (Action Tid)} (hrun : Reaches actions state) :
    state.rdCnt = (Finset.univ.filter fun thread ↦ state.pc thread = .holding .read).card ∧
      state.wrCnt = (Finset.univ.filter fun thread ↦ state.pc thread = .holding .write).card ∧
      state.wrCnt ≤ 1 ∧ ¬ (0 < state.rdCnt ∧ 0 < state.wrCnt) ∧
      ∀ thread woken,
        (state.pc thread = .holding .write →
          state.unlock thread woken = some (state.unWritelock thread)) ∧
        (state.pc thread = .holding .read →
          state.unlock thread woken = state.unReadlock thread woken) := by
  have h := hrun.invariant
  exact ⟨by rw [h.readers, total_holds], by rw [h.writers, total_holds], h.one_writer, h.alone,
    fun thread woken ↦ h.unlock_eq woken⟩

/-- A reader and a writer that has to wait for it, is woken by `unlock` and goes on. -/
theorem readers_writers_excluded_handed_over :
    ∃ state : State (Fin 2),
      Reaches [.lock 0 .read, .lock 1 .write, .unlock 0 {1}, .retest 1] state ∧
        state.rdCnt = (Finset.univ.filter fun thread ↦ state.pc thread = .holding .read).card ∧
        state.wrCnt = (Finset.univ.filter fun thread ↦ state.pc thread = .holding .write).card ∧
        state.wrCnt = 1 :=
  have hsome : (List.foldlM (guardedNext Matching next) (initial : State (Fin 2))
      [.lock 0 .read, .lock 1 .write, .unlock 0 {1}, .retest 1]).isSome := by decide +kernel
  have hone : (Option.get _ hsome).wrCnt = 1 := by decide +kernel +revert
  have hclaim := readers_writers_excluded (Run.of_isSome hsome)
  ⟨_, Run.of_isSome hsome, hclaim.1, hclaim.2.1, hone⟩

/-! ### Wake-ups -/

/-- While the lock is free and a thread is blocked, another one was woken and has not tested its
condition yet. -/
def NoneStranded (state : State Tid) : Prop :=
  state.rdCnt = 0 → state.wrCnt = 0 → ∀ thread, (state.pc thread).waits = true →
    ∃ other mode, state.pc other = .woken mode

theorem Pc.wake_of_waits {place : Pc} (hwaits : place.waits = true) :
    ∃ mode, place.wake = .woken mode := by
  cases place with
  | blocked mode => exact ⟨mode, rfl⟩
  | idle | woken | holding => cases hwaits

/-- After a broadcast nobody waits. -/
theorem not_waits_broadcast (pc : Tid → Pc) (other : Tid) :
    (wakeUp Pc.wake (waiters Pc.waits pc) pc other).waits = false := by
  by_cases hwaits : (pc other).waits = true
  · obtain ⟨mode, hwake⟩ := Pc.wake_of_waits hwaits
    rw [wakeUp_of_mem (mem_waiters.mpr hwaits), hwake]
    rfl
  · rw [wakeUp_of_notMem (by simpa using hwaits)]
    simpa using hwaits

omit [Fintype Tid] in
/-- A release changes the place of its caller to `idle`; what waits afterwards is another thread. -/
theorem waits_of_leave {woken : Finset Tid} {other : Tid}
    (hwaits : ((state.leave thread woken).pc other).waits = true) :
    other ≠ thread ∧ (wakeUp Pc.wake woken state.pc other).waits = true := by
  have hne : other ≠ thread := by
    rintro rfl
    simp [State.leave, Pc.waits] at hwaits
  refine ⟨hne, ?_⟩
  simpa [State.leave, Function.update_of_ne hne] using hwaits

/-- No action strands a thread. -/
theorem Effect.noneStranded (heffect : Effect state result) (hinv : Invariant state) :
    NoneStranded result := by
  have hreaders := hinv.readers
  have hwriters := hinv.writers
  cases heffect with
  | blocks thread mode hout hwait =>
    -- A thread blocks only while the lock is held.
    intro (hrd : state.rdCnt = 0) (hwr : state.wrCnt = 0)
    cases mode with
    | read => exact absurd hwait (by simp [State.mustWait, hwr])
    | write => exact absurd hwait (by simp [State.mustWait, hrd, hwr])
  | enters thread mode hout hfree =>
    intro hrd hwr
    rw [State.attempt, if_neg hfree] at hrd hwr
    cases mode with
    | read => exact absurd (show state.rdCnt + 1 = 0 from hrd) (by omega)
    | write => exact absurd (show state.wrCnt + 1 = 0 from hwr) (by omega)
  | leavesWriting thread hholds =>
    intro _ _ other hother
    have hwaits := (waits_of_leave hother).2
    rw [not_waits_broadcast] at hwaits
    cases hwaits
  | leavesReading thread woken hholds result hleave =>
    obtain ⟨hwoken, rfl, hsignals⟩ := unReadlock_cases hleave
    intro hrd _ other hother
    obtain ⟨target, htarget, hblocked⟩ :=
      (hsignals hrd).exists_woken (waits_of_leave hother).2
    obtain ⟨mode, hwake⟩ := Pc.wake_of_waits hblocked
    have hne : target ≠ thread := by
      rintro rfl
      rw [hholds] at hblocked
      cases hblocked
    refine ⟨target, mode, ?_⟩
    show Function.update (wakeUp Pc.wake woken state.pc) thread .idle target = .woken mode
    rw [Function.update_of_ne hne, wakeUp_of_mem htarget, hwake]
  | wakes thread hwaits =>
    intro _ _ _ _
    obtain ⟨mode, hwake⟩ := Pc.wake_of_waits hwaits
    exact ⟨thread, mode, (wakeUp_of_mem (Finset.mem_singleton_self thread)).trans hwake⟩

theorem Reaches.noneStranded {actions : List (Action Tid)} (hrun : Reaches actions state) :
    NoneStranded state := by
  have hboth : Invariant state ∧ NoneStranded state := by
    refine Run.invariant (fun state ↦ Invariant state ∧ NoneStranded state) hrun
      ⟨initial_invariant, fun _ _ thread hwaits ↦ by cases hwaits⟩ ?_
    rintro middle action last ⟨hinv, -⟩ ⟨hmatch, hnext⟩
    have heffect := hinv.next_cases hmatch hnext
    exact ⟨heffect.invariant hinv, heffect.noneStranded hinv⟩
  exact hboth.2

/-- No waiter is stranded: while the lock is free and a thread is blocked, another thread was woken
and has yet to test its condition. Assumes: the releases of the run match. -/
theorem waiter_not_stranded {actions : List (Action Tid)} (hrun : Reaches actions state)
    (hrd : state.rdCnt = 0) (hwr : state.wrCnt = 0) {mode : Mode}
    (hblocked : state.pc thread = .blocked mode) :
    ∃ other ≠ thread, ∃ woken, state.pc other = .woken woken := by
  obtain ⟨other, woken, hwoken⟩ := hrun.noneStranded hrd hwr thread (by rw [hblocked]; rfl)
  refine ⟨other, ?_, woken, hwoken⟩
  rintro rfl
  rw [hblocked] at hwoken
  cases hwoken

/-- Two writers wait for a reader, and its signal wakes one of them. -/
theorem waiter_not_stranded_signal :
    ∃ state : State (Fin 3),
      Reaches [.lock 0 .read, .lock 1 .write, .lock 2 .write, .unReadlock 0 {2}] state ∧
        ∃ other ≠ 1, ∃ woken, state.pc other = .woken woken :=
  have hsome : (List.foldlM (guardedNext Matching next) (initial : State (Fin 3))
      [.lock 0 .read, .lock 1 .write, .lock 2 .write, .unReadlock 0 {2}]).isSome := by
    decide +kernel
  ⟨_, Run.of_isSome hsome, waiter_not_stranded (Run.of_isSome hsome) (by decide +kernel +revert)
    (by decide +kernel +revert)
    (show _ = Pc.blocked .write by decide +kernel +revert)⟩

end Exc.RWLock
