import Exc.Lib.Run
import Exc.Lib.Threads
import Exc.RWLock.GMJRRWLock

/-!
# The reader-writer lock on Windows

`comLib/GMRWLockImp.cpp`, the branch for Windows: three counters under a critical section, and two
semaphores of the system on which readers and writers wait. Unlike the branch for POSIX it hands the
lock over: the release of the last holder counts the next holders in `m_nActive` before they run,
and posts as many permits to their semaphore after it has left the critical section.

A critical section is one step, the return of `WaitForSingleObject` another, and `ReleaseSemaphore`
a third. Whatever runs in between, readers and a writer never hold the lock together
(`Win.handed_over_excluded`), and while the lock is free there is a permit for a thread that
waits, or a thread that is about to post one (`Win.waiter_has_permit`).

Scope. The counters are unbounded; they overflow with 2^31 threads.
-/

set_option autoImplicit false
set_option relaxedAutoImplicit false

namespace Exc.RWLock.Win

open Lib

/-- Where a thread stands: it has nothing to do with the lock, it waits on the semaphore of its
mode, it holds the lock, or it has left the critical section of `unlock` and is about to post. -/
inductive Pc
  | idle
  | waiting (mode : Mode)
  | holding (mode : Mode)
  | posting (hsem : Mode) (lCount : ℕ)
  deriving DecidableEq

/-- The lock, its two semaphores and its threads. -/
structure State (Tid : Type) where
  m_nWaitingReaders : ℕ
  m_nWaitingWriters : ℕ
  m_nActive : ℤ
  semaphore : Mode → ℕ
  pc : Tid → Pc

variable {Tid : Type} [Fintype Tid] [DecidableEq Tid]

omit [Fintype Tid] [DecidableEq Tid] in
/-- `GMJRRWLock::GMJRRWLock`. -/
def initial : State Tid := ⟨0, 0, 0, fun _ ↦ 0, fun _ ↦ .idle⟩

namespace State

omit [Fintype Tid] in
/-- `readLock`, up to the wait. -/
def readLock (state : State Tid) (thread : Tid) : State Tid :=
  if state.m_nWaitingWriters ≠ 0 ∨ state.m_nActive < 0 then
    { state with
      m_nWaitingReaders := state.m_nWaitingReaders + 1
      pc := Function.update state.pc thread (.waiting .read) }
  else
    { state with
      m_nActive := state.m_nActive + 1
      pc := Function.update state.pc thread (.holding .read) }

omit [Fintype Tid] in
/-- `writeLock`, up to the wait. -/
def writeLock (state : State Tid) (thread : Tid) : State Tid :=
  if state.m_nActive ≠ 0 then
    { state with
      m_nWaitingWriters := state.m_nWaitingWriters + 1
      pc := Function.update state.pc thread (.waiting .write) }
  else
    { state with
      m_nActive := -1
      pc := Function.update state.pc thread (.holding .write) }

omit [Fintype Tid] in
/-- The critical section of `unlock`. -/
def unlock (state : State Tid) (thread : Tid) : State Tid :=
  let m_nActive := if 0 < state.m_nActive then state.m_nActive - 1 else state.m_nActive + 1
  if m_nActive = 0 then
    if 0 < state.m_nWaitingWriters then
      { state with
        m_nActive := -1
        m_nWaitingWriters := state.m_nWaitingWriters - 1
        pc := Function.update state.pc thread (.posting .write 1) }
    else if 0 < state.m_nWaitingReaders then
      { state with
        m_nActive := state.m_nWaitingReaders
        m_nWaitingReaders := 0
        pc := Function.update state.pc thread (.posting .read state.m_nWaitingReaders) }
    else { state with m_nActive, pc := Function.update state.pc thread .idle }
  else { state with m_nActive, pc := Function.update state.pc thread .idle }

omit [Fintype Tid] in
/-- `WaitForSingleObject` returns: it takes a permit. -/
def enter (state : State Tid) (thread : Tid) (mode : Mode) : State Tid :=
  { state with
    semaphore := Function.update state.semaphore mode (state.semaphore mode - 1)
    pc := Function.update state.pc thread (.holding mode) }

omit [Fintype Tid] in
/-- `ReleaseSemaphore`, and `unlock` returns. -/
def post (state : State Tid) (thread : Tid) (hsem : Mode) (lCount : ℕ) : State Tid :=
  { state with
    semaphore := Function.update state.semaphore hsem (state.semaphore hsem + lCount)
    pc := Function.update state.pc thread .idle }

end State

/-- What a thread can do: call a lock or `unlock`, get a permit that it waits for, or post. -/
inductive Action (Tid : Type)
  | lock (thread : Tid) (mode : Mode)
  | enter (thread : Tid)
  | unlock (thread : Tid)
  | post (thread : Tid)

omit [Fintype Tid] in
/-- One action: `none` when the thread does not stand where it could do it. A thread calls `unlock`
only when it holds the lock. -/
def next (state : State Tid) : Action Tid → Option (State Tid)
  | .lock thread mode =>
    match state.pc thread, mode with
    | .idle, .read => some (state.readLock thread)
    | .idle, .write => some (state.writeLock thread)
    | _, _ => none
  | .enter thread =>
    match state.pc thread with
    | .waiting mode => if 0 < state.semaphore mode then some (state.enter thread mode) else none
    | _ => none
  | .unlock thread =>
    match state.pc thread with
    | .holding _ => some (state.unlock thread)
    | _ => none
  | .post thread =>
    match state.pc thread with
    | .posting hsem lCount => some (state.post thread hsem lCount)
    | _ => none

/-! ### Weights -/

/-- The thread has the lock in a mode. -/
def Pc.holds (mode : Mode) : Pc → ℕ
  | .holding held => if held = mode then 1 else 0
  | _ => 0

/-- The thread waits on the semaphore of a mode. -/
def Pc.waits (mode : Mode) : Pc → ℕ
  | .waiting wanted => if wanted = mode then 1 else 0
  | _ => 0

/-- The permits that a thread is about to post. -/
def Pc.posts (mode : Mode) : Pc → ℕ
  | .posting hsem lCount => if hsem = mode then lCount else 0
  | _ => 0

/-- The permits for a mode, posted or about to be. -/
def State.granted (state : State Tid) (mode : Mode) : ℕ :=
  state.semaphore mode + total (Pc.posts mode) state.pc

/-- The threads that have the lock in a mode, whether they have noticed it or not, are counted in
`m_nActive`; a permit is for a thread that waits; and nobody waits for a lock that nobody has. -/
structure Invariant (state : State Tid) : Prop where
  readers : 0 < state.m_nActive →
    state.m_nActive = total (Pc.holds .read) state.pc + state.granted .read ∧
      total (Pc.holds .write) state.pc + state.granted .write = 0
  writer : state.m_nActive < 0 → state.m_nActive = -1 ∧
    total (Pc.holds .write) state.pc + state.granted .write = 1 ∧
      total (Pc.holds .read) state.pc + state.granted .read = 0
  free : state.m_nActive = 0 →
    total (Pc.holds .read) state.pc + state.granted .read = 0 ∧
      total (Pc.holds .write) state.pc + state.granted .write = 0 ∧
      state.m_nWaitingReaders = 0 ∧ state.m_nWaitingWriters = 0
  waiting_read :
    total (Pc.waits .read) state.pc = state.m_nWaitingReaders + state.granted .read
  waiting_write :
    total (Pc.waits .write) state.pc = state.m_nWaitingWriters + state.granted .write

variable {state result : State Tid} {thread : Tid}

/-- The weights after a thread has moved from one place to another. -/
theorem weights_update (mode : Mode) {before : Pc} (hpc : state.pc thread = before) (place : Pc) :
    (total (Pc.holds mode) (Function.update state.pc thread place) + before.holds mode =
      total (Pc.holds mode) state.pc + place.holds mode) ∧
    (total (Pc.waits mode) (Function.update state.pc thread place) + before.waits mode =
      total (Pc.waits mode) state.pc + place.waits mode) ∧
    (total (Pc.posts mode) (Function.update state.pc thread place) + before.posts mode =
      total (Pc.posts mode) state.pc + place.posts mode) := by
  subst hpc
  exact ⟨total_update _ _ _ _, total_update _ _ _ _, total_update _ _ _ _⟩

/-! ### The operations -/

/-- The caller of `unlock` is the only one that has the lock. -/
structure Last (state : State Tid) (thread : Tid) : Prop where
  holding : ∃ mode, state.pc thread = .holding mode
  read : state.granted .read = 0
  write : state.granted .write = 0
  alone : total (Pc.holds .read) state.pc + total (Pc.holds .write) state.pc = 1

/-- The weights after the last holder has moved to a place where it does not hold the lock. -/
theorem Last.weights (hlast : Last state thread) (place : Pc)
    (hout : ∀ mode, place.holds mode = 0 ∧ place.waits mode = 0) (mode : Mode) :
    total (Pc.holds mode) (Function.update state.pc thread place) = 0 ∧
      total (Pc.waits mode) (Function.update state.pc thread place) =
        total (Pc.waits mode) state.pc ∧
      total (Pc.posts mode) (Function.update state.pc thread place) = place.posts mode ∧
      state.semaphore mode = 0 := by
  obtain ⟨⟨held, hpc⟩, hread, hwrite, halone⟩ := hlast
  have hupdate := fun other ↦ weights_update other hpc place
  have hleRead : Pc.holds .read (state.pc thread) ≤ total (Pc.holds .read) state.pc := le_total
  have hleWrite : Pc.holds .write (state.pc thread) ≤ total (Pc.holds .write) state.pc := le_total
  have hupdateRead := hupdate .read
  have hupdateWrite := hupdate .write
  rw [(hout .read).1, (hout .read).2] at hupdateRead
  rw [(hout .write).1, (hout .write).2] at hupdateWrite
  rw [hpc] at hleRead hleWrite
  simp only [State.granted] at hread hwrite
  cases held <;> cases mode <;>
    simp only [Pc.holds, Pc.waits, Pc.posts, if_true, reduceCtorEq, if_false] at * <;> omega

namespace Invariant

theorem readLock (h : Invariant state) (hpc : state.pc thread = .idle) :
    Invariant (state.readLock thread) := by
  obtain ⟨hreaders, hwriter, hfree, hwaitingRead, hwaitingWrite⟩ := h
  rw [State.readLock]
  split_ifs with hpending
  · have hread := weights_update .read hpc (.waiting .read)
    have hwrite := weights_update .write hpc (.waiting .read)
    simp only [Pc.holds, Pc.waits, Pc.posts, if_true, reduceCtorEq, if_false] at hread hwrite
    simp only [State.granted] at *
    constructor <;> simp only [State.granted] <;> omega
  · have hread := weights_update .read hpc (.holding .read)
    have hwrite := weights_update .write hpc (.holding .read)
    simp only [Pc.holds, Pc.waits, Pc.posts, if_true, reduceCtorEq, if_false] at hread hwrite
    simp only [State.granted] at *
    constructor <;> simp only [State.granted] <;> omega

theorem writeLock (h : Invariant state) (hpc : state.pc thread = .idle) :
    Invariant (state.writeLock thread) := by
  obtain ⟨hreaders, hwriter, hfree, hwaitingRead, hwaitingWrite⟩ := h
  rw [State.writeLock]
  split_ifs with howned
  · have hread := weights_update .read hpc (.waiting .write)
    have hwrite := weights_update .write hpc (.waiting .write)
    simp only [Pc.holds, Pc.waits, Pc.posts, if_true, reduceCtorEq, if_false] at hread hwrite
    simp only [State.granted] at *
    constructor <;> simp only [State.granted] <;> omega
  · have hread := weights_update .read hpc (.holding .write)
    have hwrite := weights_update .write hpc (.holding .write)
    simp only [Pc.holds, Pc.waits, Pc.posts, if_true, reduceCtorEq, if_false] at hread hwrite
    simp only [State.granted] at *
    have hnone := hfree (not_not.mp howned)
    refine ⟨fun hpos ↦ ?_, fun _ ↦ ⟨rfl, ?_, ?_⟩, fun hzero ↦ ?_, ?_, ?_⟩
    · exact absurd (show (0 : ℤ) < -1 from hpos) (by decide)
    · simp only [State.granted]
      omega
    · simp only [State.granted]
      omega
    · exact absurd (show (-1 : ℤ) = 0 from hzero) (by decide)
    · simp only [State.granted]
      omega
    · simp only [State.granted]
      omega

/-- `WaitForSingleObject` returns to a thread that a permit is there for. -/
theorem enter (h : Invariant state) {mode : Mode} (hpc : state.pc thread = .waiting mode)
    (hpermit : 0 < state.semaphore mode) : Invariant (state.enter thread mode) := by
  obtain ⟨hreaders, hwriter, hfree, hwaitingRead, hwaitingWrite⟩ := h
  have hread := weights_update .read hpc (.holding mode)
  have hwrite := weights_update .write hpc (.holding mode)
  cases mode with
  | read =>
    simp only [Pc.holds, Pc.waits, Pc.posts, if_true, reduceCtorEq, if_false] at hread hwrite
    have hsame : Function.update state.semaphore .read (state.semaphore .read - 1) .write =
        state.semaphore .write := Function.update_of_ne (by decide) _ _
    simp only [State.granted] at *
    constructor <;> simp only [State.enter, State.granted, Function.update_self, hsame] <;> omega
  | write =>
    simp only [Pc.holds, Pc.waits, Pc.posts, if_true, reduceCtorEq, if_false] at hread hwrite
    have hsame : Function.update state.semaphore .write (state.semaphore .write - 1) .read =
        state.semaphore .read := Function.update_of_ne (by decide) _ _
    simp only [State.granted] at *
    constructor <;> simp only [State.enter, State.granted, Function.update_self, hsame] <;> omega

/-- `ReleaseSemaphore`: the permits were counted before. -/
theorem post (h : Invariant state) {hsem : Mode} {lCount : ℕ}
    (hpc : state.pc thread = .posting hsem lCount) :
    Invariant (state.post thread hsem lCount) := by
  obtain ⟨hreaders, hwriter, hfree, hwaitingRead, hwaitingWrite⟩ := h
  have hread := weights_update .read hpc .idle
  have hwrite := weights_update .write hpc .idle
  cases hsem with
  | read =>
    simp only [Pc.holds, Pc.waits, Pc.posts, if_true, reduceCtorEq, if_false] at hread hwrite
    have hsame : Function.update state.semaphore .read (state.semaphore .read + lCount) .write =
        state.semaphore .write := Function.update_of_ne (by decide) _ _
    simp only [State.granted] at *
    constructor <;> simp only [State.post, State.granted, Function.update_self, hsame] <;> omega
  | write =>
    simp only [Pc.holds, Pc.waits, Pc.posts, if_true, reduceCtorEq, if_false] at hread hwrite
    have hsame : Function.update state.semaphore .write (state.semaphore .write + lCount) .read =
        state.semaphore .read := Function.update_of_ne (by decide) _ _
    simp only [State.granted] at *
    constructor <;> simp only [State.post, State.granted, Function.update_self, hsame] <;> omega

/-- The last holder hands the lock to a writer that waits. -/
theorem toWriter (h : Invariant state) (hlast : Last state thread)
    (hwaiting : 0 < state.m_nWaitingWriters) :
    Invariant { state with
      m_nActive := -1
      m_nWaitingWriters := state.m_nWaitingWriters - 1
      pc := Function.update state.pc thread (.posting .write 1) } := by
  have hwaitingRead := h.waiting_read
  have hwaitingWrite := h.waiting_write
  have hread := hlast.weights (.posting .write 1) (fun _ ↦ ⟨rfl, rfl⟩) .read
  have hwrite := hlast.weights (.posting .write 1) (fun _ ↦ ⟨rfl, rfl⟩) .write
  rw [hlast.read] at hwaitingRead
  rw [hlast.write] at hwaitingWrite
  simp only [Pc.posts, if_true, reduceCtorEq, if_false] at hread hwrite
  refine ⟨fun hpos ↦ ?_, fun _ ↦ ⟨rfl, ?_, ?_⟩, fun hzero ↦ ?_, ?_, ?_⟩
  · exact absurd (show (0 : ℤ) < -1 from hpos) (by decide)
  · simp only [State.granted]
    omega
  · simp only [State.granted]
    omega
  · exact absurd (show (-1 : ℤ) = 0 from hzero) (by decide)
  · simp only [State.granted]
    omega
  · simp only [State.granted]
    omega

/-- The last holder hands the lock to all readers that wait. -/
theorem toReaders (h : Invariant state) (hlast : Last state thread)
    (hnone : ¬0 < state.m_nWaitingWriters) (hwaiting : 0 < state.m_nWaitingReaders) :
    Invariant { state with
      m_nActive := state.m_nWaitingReaders
      m_nWaitingReaders := 0
      pc := Function.update state.pc thread (.posting .read state.m_nWaitingReaders) } := by
  have hwaitingRead := h.waiting_read
  have hwaitingWrite := h.waiting_write
  have hread := hlast.weights (.posting .read state.m_nWaitingReaders) (fun _ ↦ ⟨rfl, rfl⟩) .read
  have hwrite := hlast.weights (.posting .read state.m_nWaitingReaders) (fun _ ↦ ⟨rfl, rfl⟩) .write
  rw [hlast.read] at hwaitingRead
  rw [hlast.write] at hwaitingWrite
  simp only [Pc.posts, if_true, reduceCtorEq, if_false] at hread hwrite
  constructor <;> simp only [State.granted] <;> omega

/-- The last holder leaves the lock free. -/
theorem toNobody (h : Invariant state) (hlast : Last state thread)
    (hwriters : ¬0 < state.m_nWaitingWriters) (hreaders : ¬0 < state.m_nWaitingReaders) :
    Invariant { state with m_nActive := 0, pc := Function.update state.pc thread .idle } := by
  have hwaitingRead := h.waiting_read
  have hwaitingWrite := h.waiting_write
  have hread := hlast.weights .idle (fun _ ↦ ⟨rfl, rfl⟩) .read
  have hwrite := hlast.weights .idle (fun _ ↦ ⟨rfl, rfl⟩) .write
  rw [hlast.read] at hwaitingRead
  rw [hlast.write] at hwaitingWrite
  simp only [Pc.posts] at hread hwrite
  constructor <;> simp only [State.granted] <;> omega

/-- The critical section of `unlock` from the test on whether anybody is left, for the last
holder. -/
theorem handOver (h : Invariant state) (hlast : Last state thread) :
    Invariant
      (if 0 < state.m_nWaitingWriters then
        { state with
          m_nActive := -1
          m_nWaitingWriters := state.m_nWaitingWriters - 1
          pc := Function.update state.pc thread (.posting .write 1) }
      else if 0 < state.m_nWaitingReaders then
        { state with
          m_nActive := state.m_nWaitingReaders
          m_nWaitingReaders := 0
          pc := Function.update state.pc thread (.posting .read state.m_nWaitingReaders) }
      else { state with m_nActive := 0, pc := Function.update state.pc thread .idle }) := by
  split_ifs with hwriters hreaders
  · exact h.toWriter hlast hwriters
  · exact h.toReaders hlast hwriters hreaders
  · exact h.toNobody hlast hwriters hreaders

/-- A holder leaves, and hands the lock over when it was the last one. -/
theorem unlock (h : Invariant state) {mode : Mode} (hpc : state.pc thread = .holding mode) :
    Invariant (state.unlock thread) := by
  obtain ⟨hreaders, hwriter, hfree, hwaitingRead, hwaitingWrite⟩ := id h
  have hle : Pc.holds mode (state.pc thread) ≤ total (Pc.holds mode) state.pc := le_total
  rw [hpc, Pc.holds, if_pos rfl] at hle
  cases mode with
  | write =>
    have hactive : state.m_nActive = -1 := by omega
    have hlast : Last state thread := ⟨⟨.write, hpc⟩, by omega, by omega, by omega⟩
    rw [State.unlock, hactive]
    exact h.handOver hlast
  | read =>
    have hpos : 0 < state.m_nActive := by omega
    by_cases hone : state.m_nActive = 1
    · have hlast : Last state thread := ⟨⟨.read, hpc⟩, by omega, by omega, by omega⟩
      rw [State.unlock, hone]
      exact h.handOver hlast
    · -- Other readers are left, or about to enter.
      have hmore : ¬state.m_nActive - 1 = 0 := by omega
      have hread := weights_update .read hpc .idle
      have hwrite := weights_update .write hpc .idle
      simp only [Pc.holds, Pc.waits, Pc.posts, if_true, reduceCtorEq, if_false] at hread hwrite
      simp only [State.granted] at hreaders hwriter hfree hwaitingRead hwaitingWrite
      simp only [State.unlock, if_pos hpos, if_neg hmore]
      constructor <;> simp only [State.granted] <;> omega

theorem next (h : Invariant state) {action : Action Tid} (hnext : next state action = some result) :
    Invariant result := by
  cases action with
  | lock thread mode =>
    simp only [Win.next] at hnext
    split at hnext
    · rename_i hpc
      obtain rfl := Option.some.inj hnext
      exact h.readLock hpc
    · rename_i hpc
      obtain rfl := Option.some.inj hnext
      exact h.writeLock hpc
    · cases hnext
  | enter thread =>
    simp only [Win.next] at hnext
    split at hnext
    · rename_i mode hpc
      split_ifs at hnext with hpermit
      obtain rfl := Option.some.inj hnext
      exact h.enter hpc hpermit
    · cases hnext
  | unlock thread =>
    simp only [Win.next] at hnext
    split at hnext
    · rename_i mode hpc
      obtain rfl := Option.some.inj hnext
      exact h.unlock hpc
    · cases hnext
  | post thread =>
    simp only [Win.next] at hnext
    split at hnext
    · rename_i hsem lCount hpc
      obtain rfl := Option.some.inj hnext
      exact h.post hpc
    · cases hnext

end Invariant

/-! ### Runs -/

/-- The runs of the lock. -/
def Reaches (actions : List (Action Tid)) (state : State Tid) : Prop :=
  Run (stepOf next) initial actions state

omit [DecidableEq Tid] in
theorem initial_invariant : Invariant (initial : State Tid) := by
  have hholds (mode : Mode) : total (Pc.holds mode) (fun _ : Tid ↦ Pc.idle) = 0 :=
    total_const (Pc.holds mode) rfl
  have hwaits (mode : Mode) : total (Pc.waits mode) (fun _ : Tid ↦ Pc.idle) = 0 :=
    total_const (Pc.waits mode) rfl
  have hposts (mode : Mode) : total (Pc.posts mode) (fun _ : Tid ↦ Pc.idle) = 0 :=
    total_const (Pc.posts mode) rfl
  refine ⟨fun hpos ↦ absurd hpos (lt_irrefl _), fun hneg ↦ absurd hneg (lt_irrefl _),
    fun _ ↦ ⟨?_, ?_, rfl, rfl⟩, ?_, ?_⟩ <;>
    simp only [initial, State.granted, hholds, hwaits, hposts]

theorem Reaches.invariant {actions : List (Action Tid)} (hrun : Reaches actions state) :
    Invariant state :=
  Run.invariant Invariant hrun initial_invariant fun _ _ _ h hnext ↦ h.next hnext

theorem Pc.holds_eq (mode : Mode) (place : Pc) :
    Pc.holds mode place = if place = .holding mode then 1 else 0 := by
  cases place with
  | idle | waiting | posting => rfl
  | holding held => simp [Pc.holds]

omit [DecidableEq Tid] in
theorem total_holds (mode : Mode) (pc : Tid → Pc) :
    total (Pc.holds mode) pc =
      (Finset.univ.filter fun thread ↦ pc thread = .holding mode).card :=
  total_eq_card (Pc.holds_eq mode) pc

/-- The counter says who has the lock, those included to whom it is being handed over; there is at
most one writer, and never together with a reader. -/
theorem handed_over_excluded {actions : List (Action Tid)} (hrun : Reaches actions state) :
    state.m_nActive =
        ((Finset.univ.filter fun thread ↦ state.pc thread = .holding .read).card +
          state.granted .read : ℤ) -
        ((Finset.univ.filter fun thread ↦ state.pc thread = .holding .write).card +
          state.granted .write) ∧
      (Finset.univ.filter fun thread ↦ state.pc thread = .holding .write).card ≤ 1 ∧
      ¬((∃ reader, state.pc reader = .holding .read) ∧
        ∃ writer, state.pc writer = .holding .write) := by
  obtain ⟨hreaders, hwriter, hfree, -, -⟩ := hrun.invariant
  have hcount {mode : Mode} {thread : Tid} (hholds : state.pc thread = .holding mode) :
      0 < total (Pc.holds mode) state.pc := by
    have hle : Pc.holds mode (state.pc thread) ≤ total (Pc.holds mode) state.pc := le_total
    rw [hholds, Pc.holds, if_pos rfl] at hle
    exact hle
  rw [← total_holds, ← total_holds]
  refine ⟨by omega, by omega, ?_⟩
  rintro ⟨⟨reader, hreader⟩, writer, hwriting⟩
  have hread := hcount hreader
  have hwrite := hcount hwriting
  omega

/-- A reader leaves while a writer waits; the writer gets the lock by a permit. -/
theorem handed_over_excluded_to_writer : ∃ state : State (Fin 2),
    Reaches [.lock 0 .read, .lock 1 .write, .unlock 0, .post 0, .enter 1] state ∧
      state.m_nActive = -1 ∧
      (Finset.univ.filter fun thread ↦ state.pc thread = .holding .write).card ≤ 1 :=
  have hsome : (List.foldlM next (initial : State (Fin 2))
      [.lock 0 .read, .lock 1 .write, .unlock 0, .post 0, .enter 1]).isSome := by decide +kernel
  have hactive : (Option.get _ hsome).m_nActive = -1 := by decide +kernel +revert
  ⟨_, Run.of_eval hsome, hactive, (handed_over_excluded (Run.of_eval hsome)).2.1⟩

/-- Nobody waits in vain: while a thread waits, some thread holds the lock, or is about to post, or
waits on a semaphore that has a permit. -/
theorem waiter_has_permit {actions : List (Action Tid)} (hrun : Reaches actions state) {mode : Mode}
    (hwaits : state.pc thread = .waiting mode) :
    ∃ other, (∃ held, state.pc other = .holding held) ∨
      (∃ hsem lCount, state.pc other = .posting hsem lCount) ∨
      ∃ wanted, state.pc other = .waiting wanted ∧ 0 < state.semaphore wanted := by
  obtain ⟨hreaders, hwriter, hfree, hwaitingRead, hwaitingWrite⟩ := hrun.invariant
  -- A positive total has a thread that counts.
  have hholder (mode : Mode) (hpos : total (Pc.holds mode) state.pc ≠ 0) :
      ∃ other held, state.pc other = .holding held := by
    obtain ⟨other, -, hne⟩ := Finset.exists_ne_zero_of_sum_ne_zero hpos
    cases hpc : state.pc other with
    | holding held => exact ⟨other, held, hpc⟩
    | idle | waiting | posting =>
      rw [hpc] at hne
      exact absurd rfl hne
  have hposter (mode : Mode) (hpos : total (Pc.posts mode) state.pc ≠ 0) :
      ∃ other hsem lCount, state.pc other = .posting hsem lCount := by
    obtain ⟨other, -, hne⟩ := Finset.exists_ne_zero_of_sum_ne_zero hpos
    cases hpc : state.pc other with
    | posting hsem lCount => exact ⟨other, hsem, lCount, hpc⟩
    | idle | waiting | holding =>
      rw [hpc] at hne
      exact absurd rfl hne
  have hwaiter (mode : Mode) (hpos : total (Pc.waits mode) state.pc ≠ 0) :
      ∃ other, state.pc other = .waiting mode := by
    obtain ⟨other, -, hne⟩ := Finset.exists_ne_zero_of_sum_ne_zero hpos
    cases hpc : state.pc other with
    | waiting wanted =>
      rw [hpc, Pc.waits] at hne
      exact ⟨other, by rw [hpc, (ite_ne_right_iff.mp hne).1]⟩
    | idle | holding | posting =>
      rw [hpc] at hne
      exact absurd rfl hne
  have hsome : total (Pc.waits .read) state.pc + total (Pc.waits .write) state.pc ≠ 0 := by
    have hle : Pc.waits mode (state.pc thread) ≤ total (Pc.waits mode) state.pc := le_total
    rw [hwaits, Pc.waits, if_pos rfl] at hle
    cases mode with
    | read => omega
    | write => omega
  have hhas : ∃ mode, total (Pc.holds mode) state.pc + state.granted mode ≠ 0 ∧
      state.granted mode ≤ total (Pc.waits mode) state.pc := by
    rcases lt_trichotomy state.m_nActive 0 with hneg | hzero | hpos
    · exact ⟨.write, by omega, by omega⟩
    · omega
    · exact ⟨.read, by omega, by omega⟩
  obtain ⟨mode, hhas, hle⟩ := hhas
  by_cases hholds : total (Pc.holds mode) state.pc = 0
  · by_cases hposts : total (Pc.posts mode) state.pc = 0
    · have hsemaphore : 0 < state.semaphore mode := by
        rw [State.granted] at hhas
        omega
      obtain ⟨other, hother⟩ := hwaiter mode (by omega)
      exact ⟨other, .inr (.inr ⟨mode, hother, hsemaphore⟩)⟩
    · obtain ⟨other, hsem, lCount, hother⟩ := hposter mode hposts
      exact ⟨other, .inr (.inl ⟨hsem, lCount, hother⟩)⟩
  · obtain ⟨other, held, hother⟩ := hholder mode hholds
    exact ⟨other, .inl ⟨held, hother⟩⟩

/-- Two readers wait for a writer that has left and is about to post. -/
theorem waiter_has_permit_posting : ∃ state : State (Fin 3),
    Reaches [.lock 0 .write, .lock 1 .read, .lock 2 .read, .unlock 0] state ∧
      ∃ other, (∃ held, state.pc other = .holding held) ∨
        (∃ hsem lCount, state.pc other = .posting hsem lCount) ∨
        ∃ wanted, state.pc other = .waiting wanted ∧ 0 < state.semaphore wanted :=
  have hsome : (List.foldlM next (initial : State (Fin 3))
      [.lock 0 .write, .lock 1 .read, .lock 2 .read, .unlock 0]).isSome := by decide +kernel
  ⟨_, Run.of_eval hsome, waiter_has_permit (Run.of_eval hsome)
    (show (Option.get _ hsome).pc 1 = .waiting .read by decide +kernel +revert)⟩

end Exc.RWLock.Win
