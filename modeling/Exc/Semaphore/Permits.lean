import Exc.Semaphore.CSemaphore

/-!
# Permits of a counting semaphore

The value of a semaphore and the grants that have taken it make up its first value, in every
interleaving of constructors, `Acquire`, `TryAcquire`, `Release`, `MoveTo` and destructors
(`permits_conserved`): `MoveTo` neither loses nor copies a permit. A permit that is on its way back
is already in the value while its grant still says that it has it.

Nobody is left waiting for a permit that is there: while a thread is blocked, there are at least as
many threads on their way as there are permits, and each of them was woken and has yet to test the
value, or has yet to notify (`permit_not_stranded`).

Each operation of the model keeps both invariants (`Invariant`), and an action is one operation.
-/

set_option autoImplicit false
set_option relaxedAutoImplicit false

namespace Exc.CSemaphore

open Lib

variable {Tid Obj Sem : Type} [DecidableEq Obj] [DecidableEq Sem]

/-! ### Grants -/

/-- A grant that has a semaphore counts for one. -/
def holds (sem : Sem) : Option (Grant Sem) → ℕ
  | some ⟨some other, true⟩ => if other = sem then 1 else 0
  | _ => 0

/-- A thread in `post` counts for one. -/
def Pc.posts (sem : Sem) : Pc Obj Sem → ℕ
  | .posting _ other => if other = sem then 1 else 0
  | _ => 0

/-- A thread that was woken, or that has yet to notify, counts for one. -/
def Pc.onWay (sem : Sem) : Pc Obj Sem → ℕ
  | .woken _ other | .posting _ other => if other = sem then 1 else 0
  | _ => 0

/-- The grant that a thread is busy with is as the thread has left it. -/
def Pc.Matches (grants : Obj → Option (Grant Sem)) : Pc Obj Sem → Prop
  | .idle => True
  | .blocked grant sem | .woken grant sem => grants grant = some ⟨some sem, false⟩
  | .posting method sem => grants method.released = some ⟨some sem, true⟩

omit [DecidableEq Obj] in
theorem Method.released_mem_uses (method : Method Obj) : method.released ∈ method.uses := by
  cases method <;> simp [released, uses]

omit [DecidableEq Obj] [DecidableEq Sem] in
/-- Only the grants in use matter. -/
theorem Pc.Matches.congr {place : Pc Obj Sem} {grants others : Obj → Option (Grant Sem)}
    (hmatches : place.Matches grants) (hsame : ∀ grant ∈ place.uses, others grant = grants grant) :
    place.Matches others := by
  cases place with
  | idle => trivial
  | blocked grant sem | woken grant sem =>
    exact (hsame grant (List.mem_singleton_self grant)).trans hmatches
  | posting method sem =>
    exact (hsame method.released method.released_mem_uses).trans hmatches

omit [DecidableEq Sem] in
theorem setHaveGrant_of_ne (grants : Obj → Option (Grant Sem)) {grant other : Obj}
    (hne : other ≠ grant) (fHaveGrant : Bool) :
    setHaveGrant grants grant fHaveGrant other = grants other :=
  Function.update_of_ne hne _ _

omit [DecidableEq Sem] in
/-- A method changes no grant that it does not use. -/
theorem Method.finish_of_notMem (method : Method Obj) (grants : Obj → Option (Grant Sem))
    {other : Obj} (hnot : other ∉ method.uses) : method.finish grants other = grants other := by
  cases method with
  | release grant =>
    exact setHaveGrant_of_ne grants (by simpa [uses] using hnot) false
  | moveTo source grant =>
    obtain ⟨hsource, hgrant⟩ : other ≠ source ∧ other ≠ grant := by simpa [uses] using hnot
    rw [finish, Function.update_of_ne hsource, Function.update_of_ne hgrant,
      setHaveGrant_of_ne grants hgrant]
  | destroy grant =>
    exact Function.update_of_ne (by simpa [uses] using hnot) _ _

theorem holds_of_not_fHaveGrant (sem : Sem) (object : Option (Grant Sem)) :
    holds sem (object.map fun object ↦ { object with fHaveGrant := false }) = 0 := by
  cases object with
  | none => rfl
  | some object => rcases object with ⟨_ | _, _⟩ <;> rfl

section Totals

variable [Fintype Obj]

/-- A grant is released: it counts no more. -/
theorem total_setHaveGrant_false (sem : Sem) (grants : Obj → Option (Grant Sem)) (grant : Obj) :
    total (holds sem) (setHaveGrant grants grant false) + holds sem (grants grant) =
      total (holds sem) grants := by
  have hupdate := total_update (holds sem) grants grant
    ((grants grant).map fun object ↦ { object with fHaveGrant := false })
  rwa [holds_of_not_fHaveGrant] at hupdate

/-- A method gives back what its grant has, and moves the rest. -/
theorem Method.total_finish (method : Method Obj) (sem : Sem) (grants : Obj → Option (Grant Sem)) :
    total (holds sem) (method.finish grants) + holds sem (grants method.released) =
      total (holds sem) grants := by
  cases method with
  | release grant => exact total_setHaveGrant_false sem grants grant
  | destroy grant => exact total_update (holds sem) grants grant none
  | moveTo source grant =>
    have hreleased := total_setHaveGrant_false sem grants grant
    have hzero : holds sem (setHaveGrant grants grant false grant) = 0 := by
      rw [setHaveGrant, Function.update_self, holds_of_not_fHaveGrant]
    rw [finish, released]
    generalize setHaveGrant grants grant false = released at hreleased hzero
    have hfirst := total_update (holds sem) released grant (released source)
    have hsecond := total_update (holds sem)
      (Function.update released grant (released source)) source (some ⟨none, false⟩)
    have hkept : Function.update released grant (released source) source = released source := by
      by_cases hsame : source = grant
      · subst hsame
        rw [Function.update_self]
      · rw [Function.update_of_ne hsame]
    have hnone : holds sem (some ⟨none, false⟩) = 0 := rfl
    rw [hkept, hnone] at hsecond
    omega

/-- A grant that has nothing takes its semaphore. -/
theorem total_setHaveGrant_true (sem : Sem) {grants : Obj → Option (Grant Sem)} {grant : Obj}
    {taken : Sem} (hgrant : grants grant = some ⟨some taken, false⟩) :
    total (holds sem) (setHaveGrant grants grant true) =
      total (holds sem) grants + if taken = sem then 1 else 0 := by
  have hupdate := total_update (holds sem) grants grant
    ((grants grant).map fun object ↦ { object with fHaveGrant := true })
  rw [hgrant] at hupdate
  rw [setHaveGrant, hgrant]
  exact hupdate

end Totals

/-! ### The operations -/

variable [Fintype Tid] [DecidableEq Tid] [Fintype Obj]

/-- The permits are accounted for, the grants of two busy threads are different, and a thread that
is blocked is served. -/
structure Invariant (init : Sem → ℕ) (state : State Tid Obj Sem) : Prop where
  conserved : ∀ sem, state.value sem + total (holds sem) state.grant =
    init sem + total (Pc.posts sem) state.pc
  nonneg : ∀ sem, 0 ≤ state.value sem
  unshared : ∀ thread other, ∀ grant ∈ (state.pc thread).uses,
    grant ∈ (state.pc other).uses → thread = other
  busy : ∀ thread, (state.pc thread).Matches state.grant
  served : ∀ sem thread, (state.pc thread).waitsOn sem = true →
    state.value sem ≤ total (Pc.onWay sem) state.pc

variable {init : Sem → ℕ} {state result : State Tid Obj Sem} {thread : Tid} {grant : Obj}
  {sem : Sem}

omit [Fintype Tid] [DecidableEq Tid] [Fintype Obj] [DecidableEq Obj] [DecidableEq Sem] in
/-- Two threads that are busy with different grants, after one of them has moved on. -/
theorem unshared_update {pc : Tid → Pc Obj Sem} [DecidableEq Tid]
    (hunshared : ∀ thread other, ∀ grant ∈ (pc thread).uses, grant ∈ (pc other).uses →
      thread = other) {place : Pc Obj Sem}
    (hplace : ∀ other ≠ thread, ∀ grant ∈ place.uses, grant ∉ (pc other).uses) (first second : Tid)
    (grant : Obj) (hfirst : grant ∈ (Function.update pc thread place first).uses)
    (hsecond : grant ∈ (Function.update pc thread place second).uses) : first = second := by
  by_cases hone : first = thread
  · by_cases htwo : second = thread
    · rw [hone, htwo]
    · rw [Function.update_of_ne htwo] at hsecond
      rw [hone, Function.update_self] at hfirst
      exact absurd hsecond (hplace second htwo grant hfirst)
  · rw [Function.update_of_ne hone] at hfirst
    by_cases htwo : second = thread
    · rw [htwo, Function.update_self] at hsecond
      exact absurd hfirst (hplace first hone grant hsecond)
    · rw [Function.update_of_ne htwo] at hsecond
      exact hunshared first second grant hfirst hsecond

omit [Fintype Tid] [Fintype Obj] [DecidableEq Obj] in
/-- A thread moves on to a place where it does not wait: a thread that waits is another one. -/
theorem waits_of_update {pc : Tid → Pc Obj Sem} {place : Pc Obj Sem} {waiter : Tid}
    (hplace : place.waitsOn sem = false)
    (hwaits : (Function.update pc thread place waiter).waitsOn sem = true) :
    waiter ≠ thread ∧ (pc waiter).waitsOn sem = true := by
  have hne : waiter ≠ thread := by
    rintro rfl
    rw [Function.update_self, hplace] at hwaits
    cases hwaits
  exact ⟨hne, by rwa [Function.update_of_ne hne] at hwaits⟩

omit [DecidableEq Obj] [Fintype Obj] in
/-- Before it tests the value, a thread in `wait` has done nothing that counts. -/
theorem posts_of_wait (other : Sem) {place : Pc Obj Sem}
    (hpc : place = .idle ∨ place = .woken grant sem) : place.posts other = 0 := by
  rcases hpc with rfl | rfl <;> rfl

omit [DecidableEq Obj] [Fintype Obj] in
theorem onWay_of_wait (other : Sem) {place : Pc Obj Sem}
    (hpc : place = .idle ∨ place = .woken grant sem) :
    place.onWay other ≤ if sem = other then 1 else 0 := by
  rcases hpc with rfl | rfl
  · exact Nat.zero_le _
  · exact le_rfl

namespace Invariant

omit [DecidableEq Tid] [DecidableEq Obj] in
/-- Grants change that no thread is busy with, and what they have is the same. -/
theorem setGrants (h : Invariant init state) {grants : Obj → Option (Grant Sem)}
    (hsame : ∀ sem, total (holds sem) grants = total (holds sem) state.grant)
    (hother : ∀ thread, ∀ grant ∈ (state.pc thread).uses, grants grant = state.grant grant) :
    Invariant init { state with grant := grants } where
  conserved sem := by rw [hsame sem]; exact h.conserved sem
  nonneg := h.nonneg
  unshared := h.unshared
  busy thread := (h.busy thread).congr (hother thread)
  served := h.served

omit [DecidableEq Tid] in
/-- A new grant, which has nothing yet. -/
theorem make (h : Invariant init state) (sem : Option Sem)
    (hnew : (state.grant grant).isNone = true) (hother : ∀ other, grant ∉ (state.pc other).uses) :
    Invariant init
      { state with grant := Function.update state.grant grant (some ⟨sem, false⟩) } := by
  refine h.setGrants (fun other ↦ ?_) fun thread used hused ↦ ?_
  · have hupdate := total_update (holds other) state.grant grant (some ⟨sem, false⟩)
    have hzero : holds other (some ⟨sem, false⟩) = 0 := by cases sem <;> rfl
    rw [Option.isNone_iff_eq_none.mp hnew, hzero] at hupdate
    exact hupdate
  · refine Function.update_of_ne ?_ _ _
    rintro rfl
    exact hother thread hused

/-- A grant takes a permit that is there. -/
theorem take (h : Invariant init state) (hgrant : state.grant grant = some ⟨some sem, false⟩)
    (hvalue : ¬state.value sem < 1)
    (hpc : state.pc thread = .idle ∨ state.pc thread = .woken grant sem)
    (hother : ∀ other ≠ thread, grant ∉ (state.pc other).uses) :
    Invariant init
      { value := Function.update state.value sem (state.value sem - 1)
        pc := Function.update state.pc thread .idle
        grant := setHaveGrant state.grant grant true } where
  conserved other := by
    have hconserved := h.conserved other
    have hholds := total_setHaveGrant_true other hgrant
    have hposts := total_update (Pc.posts other) state.pc thread .idle
    rw [posts_of_wait other hpc, show Pc.posts other (Pc.idle : Pc Obj Sem) = 0 from rfl] at hposts
    by_cases hsem : sem = other
    · subst hsem
      simp only [Function.update_self, hholds, if_true]
      omega
    · simp only [Function.update_of_ne (Ne.symm hsem), hholds, if_neg hsem]
      omega
  nonneg other := by
    by_cases hsem : other = sem
    · subst hsem
      simp only [Function.update_self]
      omega
    · simp only [Function.update_of_ne hsem]
      exact h.nonneg other
  unshared := unshared_update h.unshared fun _ _ _ hgrant ↦ absurd hgrant (List.not_mem_nil)
  busy other := by
    by_cases hthread : other = thread
    · subst hthread
      simp only [Function.update_self]
      trivial
    · simp only [Function.update_of_ne hthread]
      refine (h.busy other).congr fun used hused ↦ setHaveGrant_of_ne _ ?_ _
      rintro rfl
      exact hother other hthread hused
  served other waiter hwaits := by
    have hserved := h.served other waiter (waits_of_update rfl hwaits).2
    have hway := total_update (Pc.onWay other) state.pc thread .idle
    rw [show Pc.onWay other (Pc.idle : Pc Obj Sem) = 0 from rfl] at hway
    have hle := onWay_of_wait other hpc
    by_cases hsem : sem = other
    · subst hsem
      simp only [Function.update_self]
      rw [if_pos rfl] at hle
      omega
    · simp only [Function.update_of_ne (Ne.symm hsem)]
      rw [if_neg hsem] at hle
      omega

omit [DecidableEq Obj] in
/-- A thread blocks while there is no permit. -/
theorem block (h : Invariant init state) (hgrant : state.grant grant = some ⟨some sem, false⟩)
    (hvalue : state.value sem < 1)
    (hpc : state.pc thread = .idle ∨ state.pc thread = .woken grant sem)
    (hother : ∀ other ≠ thread, grant ∉ (state.pc other).uses) :
    Invariant init
      { state with pc := Function.update state.pc thread (.blocked grant sem) } where
  conserved other := by
    have hconserved := h.conserved other
    have hposts := total_update (Pc.posts other) state.pc thread (.blocked grant sem)
    rw [posts_of_wait other hpc, show Pc.posts other (.blocked grant sem) = 0 from rfl] at hposts
    simp only
    omega
  nonneg := h.nonneg
  unshared := unshared_update h.unshared fun other hne used hused ↦ by
    rw [List.mem_singleton.mp hused]
    exact hother other hne
  busy other := by
    by_cases hthread : other = thread
    · subst hthread
      simp only [Function.update_self]
      exact hgrant
    · simp only [Function.update_of_ne hthread]
      exact h.busy other
  served other waiter hwaits := by
    have hnonneg := h.nonneg other
    have hway := total_update (Pc.onWay other) state.pc thread (.blocked grant sem)
    rw [show Pc.onWay other (.blocked grant sem) = 0 from rfl] at hway
    by_cases hsem : sem = other
    · subst hsem
      simp only
      omega
    · have hplace : Pc.waitsOn other (.blocked grant sem) = false := decide_eq_false hsem
      have hserved := h.served other waiter (waits_of_update hplace hwaits).2
      have hle := onWay_of_wait other hpc
      rw [if_neg hsem] at hle
      simp only
      omega

/-- `sem->wait()` from the test of the value on. -/
theorem wait (h : Invariant init state) (hgrant : state.grant grant = some ⟨some sem, false⟩)
    (hpc : state.pc thread = .idle ∨ state.pc thread = .woken grant sem)
    (hother : ∀ other ≠ thread, grant ∉ (state.pc other).uses) :
    Invariant init (state.wait thread grant sem) := by
  rw [State.wait]
  split_ifs with hvalue
  · exact h.block hgrant hvalue hpc hother
  · exact h.take hgrant hvalue hpc hother

theorem acquire (h : Invariant init state) (hpc : state.pc thread = .idle)
    (hother : ∀ other, grant ∉ (state.pc other).uses)
    (hacquire : state.acquire thread grant = some result) : Invariant init result := by
  unfold State.acquire at hacquire
  split at hacquire
  · cases hacquire
  · obtain rfl := Option.some.inj hacquire
    exact h
  · cases hacquire
  · rename_i sem hgrant
    obtain rfl := Option.some.inj hacquire
    exact h.wait hgrant (.inl hpc) fun other _ ↦ hother other

theorem tryAcquire (h : Invariant init state) (hpc : state.pc thread = .idle)
    (hother : ∀ other, grant ∉ (state.pc other).uses)
    (htry : state.tryAcquire grant = some result) : Invariant init result := by
  unfold State.tryAcquire at htry
  split at htry
  · cases htry
  · obtain rfl := Option.some.inj htry
    exact h
  · cases htry
  · rename_i sem hgrant
    split_ifs at htry with hvalue
    · obtain rfl := Option.some.inj htry
      exact h
    · obtain rfl := Option.some.inj htry
      have htake := h.take hgrant hvalue (.inl hpc) fun other _ ↦ hother other
      rwa [← hpc, Function.update_eq_self] at htake

/-- A method that begins with `Release`. -/
theorem release (h : Invariant init state) (hpc : state.pc thread = .idle) {method : Method Obj}
    (hother : ∀ other, ∀ grant ∈ method.uses, grant ∉ (state.pc other).uses)
    (hrelease : state.release thread method = some result) : Invariant init result := by
  unfold State.release at hrelease
  split_ifs at hrelease
  split at hrelease
  · cases hrelease
  · rename_i sem hgrant
    obtain rfl := Option.some.inj hrelease
    rw [State.finish, ← hpc, Function.update_eq_self]
    refine h.setGrants (fun other ↦ ?_) fun other used hused ↦
      method.finish_of_notMem _ fun hmem ↦ hother other used hmem hused
    have htotal := method.total_finish other state.grant
    have hzero : holds other (state.grant method.released) = 0 := by
      rw [hgrant]
      cases sem <;> rfl
    omega
  · cases hrelease
  · rename_i sem hgrant
    obtain rfl := Option.some.inj hrelease
    have hposts := fun other ↦ total_update (Pc.posts other) state.pc thread (.posting method sem)
    have hway := fun other ↦ total_update (Pc.onWay other) state.pc thread (.posting method sem)
    rw [hpc] at hposts hway
    simp only [Pc.posts, Pc.onWay] at hposts hway
    refine ⟨fun other ↦ ?_, fun other ↦ ?_, ?_, fun other ↦ ?_, fun other waiter hwaits ↦ ?_⟩
    · have hconserved := h.conserved other
      have hother := hposts other
      by_cases hsem : sem = other
      · subst hsem
        rw [if_pos rfl] at hother
        simp only [Function.update_self]
        omega
      · rw [if_neg hsem] at hother
        simp only [Function.update_of_ne (Ne.symm hsem)]
        omega
    · have hnonneg := h.nonneg other
      by_cases hsem : other = sem
      · subst hsem
        simp only [Function.update_self]
        omega
      · simp only [Function.update_of_ne hsem]
        exact hnonneg
    · exact unshared_update h.unshared fun other _ ↦ hother other
    · by_cases hthread : other = thread
      · subst hthread
        simp only [Function.update_self]
        exact hgrant
      · simp only [Function.update_of_ne hthread]
        exact h.busy other
    · have hserved := h.served other waiter (waits_of_update rfl hwaits).2
      have hother := hway other
      by_cases hsem : sem = other
      · subst hsem
        rw [if_pos rfl] at hother
        simp only [Function.update_self]
        omega
      · rw [if_neg hsem] at hother
        simp only [Function.update_of_ne (Ne.symm hsem)]
        omega

omit [DecidableEq Tid] [DecidableEq Obj] [Fintype Obj] in
/-- Threads that are blocked on one semaphore are woken: they are on their way now. -/
theorem total_onWay_wakeUp [DecidableEq Tid] {pc : Tid → Pc Obj Sem} {woken : Finset Tid}
    (hwoken : woken ⊆ waiters (Pc.waitsOn sem) pc) (other : Sem) :
    total (Pc.onWay other) (wakeUp Pc.wake woken pc) =
      total (Pc.onWay other) pc + if sem = other then woken.card else 0 := by
  have hone (thread : Tid) : (wakeUp Pc.wake woken pc thread).onWay other =
      (pc thread).onWay other + if thread ∈ woken then (if sem = other then 1 else 0) else 0 := by
    by_cases hmem : thread ∈ woken
    · have hwaits := mem_waiters.mp (hwoken hmem)
      rw [wakeUp_of_mem hmem, if_pos hmem]
      cases hpc : pc thread with
      | blocked grant blockedOn =>
        rw [hpc] at hwaits
        obtain rfl : blockedOn = sem := of_decide_eq_true hwaits
        exact (Nat.zero_add _).symm
      | idle | woken | posting =>
        rw [hpc] at hwaits
        cases hwaits
    · rw [wakeUp_of_notMem hmem, if_neg hmem, Nat.add_zero]
  rw [total, Finset.sum_congr rfl fun thread _ ↦ hone thread, Finset.sum_add_distrib,
    Finset.sum_ite_mem, Finset.univ_inter, total]
  split_ifs
  · rw [Finset.card_eq_sum_ones]
  · rw [Finset.sum_const_zero]

omit [DecidableEq Obj] in
/-- Threads that are blocked are woken. -/
theorem wakeUp (h : Invariant init state) {woken : Finset Tid}
    (hwoken : woken ⊆ waiters (Pc.waitsOn sem) state.pc) :
    Invariant init { state with pc := wakeUp Pc.wake woken state.pc } := by
  have huses (thread : Tid) :
      (Lib.wakeUp Pc.wake woken state.pc thread).uses = (state.pc thread).uses := by
    unfold Lib.wakeUp
    split_ifs
    · cases state.pc thread <;> rfl
    · rfl
  have hposts (other : Sem) : total (Pc.posts other) (Lib.wakeUp Pc.wake woken state.pc) =
      total (Pc.posts other) state.pc := total_wakeUp hwoken fun place _ ↦ by cases place <;> rfl
  refine ⟨fun other ↦ ?_, h.nonneg, fun first second used ↦ ?_, fun thread ↦ ?_,
    fun other waiter hwaits ↦ ?_⟩
  · simp only [hposts other]
    exact h.conserved other
  · simp only [huses]
    exact h.unshared first second used
  · have hbusy := h.busy thread
    simp only [Lib.wakeUp]
    split_ifs
    · cases hpc : state.pc thread <;> rw [hpc] at hbusy <;> exact hbusy
    · exact hbusy
  · have hbefore : (state.pc waiter).waitsOn other = true := by
      simp only [Lib.wakeUp] at hwaits
      split_ifs at hwaits
      · cases hpc : state.pc waiter <;> rw [hpc] at hwaits <;> cases hwaits
      · exact hwaits
    have hserved := h.served other waiter hbefore
    have hway := total_onWay_wakeUp hwoken other
    simp only
    omega

/-- `notify_one` at the end of `post`, and the rest of the method. -/
theorem notify (h : Invariant init state) {method : Method Obj} {woken : Finset Tid}
    (hpc : state.pc thread = .posting method sem)
    (hsignals : Signals (Pc.waitsOn sem) state.pc woken) :
    Invariant init
      ({ state with pc := Lib.wakeUp Pc.wake woken state.pc }.finish thread method) := by
  have hwake := h.wakeUp hsignals.1
  have hnot : thread ∉ woken := fun hmem ↦ by
    have hwaits := mem_waiters.mp (hsignals.1 hmem)
    rw [hpc] at hwaits
    cases hwaits
  have hplace : Lib.wakeUp Pc.wake woken state.pc thread = .posting method sem := by
    rw [wakeUp_of_notMem hnot, hpc]
  have hgrant : state.grant method.released = some ⟨some sem, true⟩ := by
    have hbusy := h.busy thread
    rwa [hpc] at hbusy
  refine ⟨fun other ↦ ?_, h.nonneg, ?_, fun other ↦ ?_, fun other waiter hwaits ↦ ?_⟩
  · have hconserved := hwake.conserved other
    have hholds := method.total_finish other state.grant
    have hposts := total_update (Pc.posts other) (Lib.wakeUp Pc.wake woken state.pc) thread .idle
    rw [hgrant] at hholds
    rw [hplace] at hposts
    simp only [holds, Pc.posts] at hholds hposts
    simp only [State.finish] at hconserved ⊢
    omega
  · exact unshared_update hwake.unshared fun _ _ _ hused ↦ absurd hused List.not_mem_nil
  · by_cases hthread : other = thread
    · subst hthread
      simp only [State.finish, Function.update_self]
      trivial
    · simp only [State.finish, Function.update_of_ne hthread]
      refine (hwake.busy other).congr fun used hused ↦ method.finish_of_notMem _ fun hmem ↦ ?_
      refine hthread (hwake.unshared other thread used hused ?_)
      simp only [hplace]
      exact hmem
  · obtain ⟨-, hwaits⟩ := waits_of_update rfl hwaits
    have hway := total_update (Pc.onWay other) (Lib.wakeUp Pc.wake woken state.pc) thread .idle
    have htotal := total_onWay_wakeUp hsignals.1 other
    rw [hplace] at hway
    simp only [Pc.onWay] at hway
    simp only [State.finish]
    by_cases hsem : sem = other
    · -- The waiter was left asleep, so another one was woken in place of the thread that notifies.
      subst hsem
      obtain ⟨target, htarget, hblocked⟩ := hsignals.exists_woken hwaits
      have hserved := h.served sem target hblocked
      have hcard : 0 < woken.card := Finset.card_pos.mpr ⟨target, htarget⟩
      simp only [if_true] at hway htotal
      omega
    · have hserved := hwake.served other waiter hwaits
      simp only [if_neg hsem] at hway htotal
      simp only at hserved
      omega

/-- Every action keeps the invariant. -/
theorem next (h : Invariant init state) {action : Action Tid Obj Sem}
    (hunshared : Unshared state action) (hnext : next state action = some result) :
    Invariant init result := by
  cases action with
  | call thread call =>
    simp only [CSemaphore.next] at hnext
    split at hnext
    · rename_i hpc
      have hother : ∀ grant ∈ call.uses, ∀ other, grant ∉ (state.pc other).uses :=
        fun grant hgrant other ↦ hunshared other grant hgrant
      cases call with
      | construct grant =>
        simp only [State.call] at hnext
        split_ifs at hnext with hnew
        obtain rfl := Option.some.inj hnext
        exact h.make none hnew (hother grant (List.mem_singleton_self _))
      | constructOn grant sema fTry =>
        simp only [State.call] at hnext
        split_ifs at hnext with hnew hfTry
        · exact (h.make (some sema) hnew (hother grant (List.mem_singleton_self _))).tryAcquire hpc
            (hother grant (List.mem_singleton_self _)) hnext
        · exact (h.make (some sema) hnew (hother grant (List.mem_singleton_self _))).acquire hpc
            (hother grant (List.mem_singleton_self _)) hnext
      | acquire grant => exact h.acquire hpc (hother grant (List.mem_singleton_self _)) hnext
      | tryAcquire grant => exact h.tryAcquire hpc (hother grant (List.mem_singleton_self _)) hnext
      | leave method => exact h.release hpc hunshared hnext
    · cases hnext
  | retest thread =>
    simp only [CSemaphore.next] at hnext
    split at hnext
    · rename_i grant sem hpc
      obtain rfl := Option.some.inj hnext
      have hgrant : state.grant grant = some ⟨some sem, false⟩ := by
        have hbusy := h.busy thread
        rwa [hpc] at hbusy
      refine h.wait hgrant (.inr hpc) fun other hne hused ↦ hne ?_
      refine h.unshared other thread grant hused ?_
      rw [hpc]
      exact List.mem_singleton_self _
    · cases hnext
  | notify thread woken =>
    simp only [CSemaphore.next] at hnext
    split at hnext
    · rename_i method sem hpc
      split_ifs at hnext with hsignals
      obtain rfl := Option.some.inj hnext
      exact h.notify hpc hsignals
    · cases hnext
  | spurious thread =>
    simp only [CSemaphore.next] at hnext
    split at hnext
    · rename_i grant sem hpc
      obtain rfl := Option.some.inj hnext
      have hwoken : {thread} ⊆ waiters (Pc.waitsOn sem) state.pc := by
        rw [Finset.singleton_subset_iff, mem_waiters, hpc]
        exact decide_eq_true rfl
      exact h.wakeUp hwoken
    · cases hnext

end Invariant

/-! ### Runs -/

/-- The runs in which no grant is shared. -/
def Reaches (init : Sem → ℕ) (actions : List (Action Tid Obj Sem)) (state : State Tid Obj Sem) :
    Prop :=
  Run (guarded Unshared (stepOf next)) (initial init) actions state

omit [DecidableEq Tid] [DecidableEq Obj] in
theorem initial_invariant (init : Sem → ℕ) :
    Invariant init (initial init : State Tid Obj Sem) where
  conserved sem := by
    have hholds : total (holds sem) (fun _ : Obj ↦ (none : Option (Grant Sem))) = 0 :=
      total_const (holds sem) rfl
    have hposts : total (Pc.posts sem) (fun _ : Tid ↦ (Pc.idle : Pc Obj Sem)) = 0 :=
      total_const (Pc.posts sem) rfl
    simp only [initial, hholds, hposts]
  nonneg _ := Int.natCast_nonneg _
  unshared _ _ _ hused := absurd hused List.not_mem_nil
  busy _ := trivial
  served _ _ hwaits := by cases hwaits

theorem Reaches.invariant {actions : List (Action Tid Obj Sem)}
    (hrun : Reaches init actions state) : Invariant init state :=
  Run.invariant (Invariant init) hrun (initial_invariant init)
    fun _ _ _ h hstep ↦ h.next hstep.1 hstep.2

/-- The grants that a thread is giving back. -/
def Pc.givesBack (sem : Sem) : Pc Obj Sem → Option Obj
  | .posting method other => if other = sem then some method.released else none
  | _ => none

/-- The grants that have taken a semaphore and are not being given back. -/
def State.taken (state : State Tid Obj Sem) (sem : Sem) : Finset Obj :=
  Finset.univ.filter fun grant ↦ state.grant grant = some ⟨some sem, true⟩ ∧
    ∀ thread, (state.pc thread).givesBack sem ≠ some grant

omit [DecidableEq Obj] [Fintype Obj] in
theorem Pc.posts_eq (sem : Sem) (place : Pc Obj Sem) :
    place.posts sem = if place.givesBack sem ≠ none then 1 else 0 := by
  cases place with
  | posting method other =>
    simp only [posts, givesBack]
    split_ifs <;> simp_all
  | idle | blocked | woken => rfl

theorem holds_eq (sem : Sem) (object : Option (Grant Sem)) :
    holds sem object = if object = some ⟨some sem, true⟩ then 1 else 0 := by
  rcases object with _ | ⟨_ | other, _ | _⟩ <;> simp [holds]

omit [DecidableEq Tid] in
/-- The grants that have a semaphore are those that keep it and those that a thread gives back, each
by a thread of its own. -/
theorem Invariant.total_holds (h : Invariant init state) (sem : Sem) :
    total (holds sem) state.grant = (state.taken sem).card + total (Pc.posts sem) state.pc := by
  let holders := Finset.univ.filter fun grant ↦ state.grant grant = some ⟨some sem, true⟩
  let posters := Finset.univ.filter fun thread ↦ (state.pc thread).givesBack sem ≠ none
  have hholders : total (holds sem) state.grant = holders.card :=
    total_eq_card (holds_eq sem) state.grant
  have hposters : total (Pc.posts sem) state.pc = posters.card :=
    total_eq_card (fun place ↦ place.posts_eq sem) state.pc
  have hgives {thread : Tid} {grant : Obj}
      (hthread : (state.pc thread).givesBack sem = some grant) :
      state.grant grant = some ⟨some sem, true⟩ ∧ grant ∈ (state.pc thread).uses := by
    have hbusy := h.busy thread
    cases hpc : state.pc thread with
    | posting method other =>
      rw [hpc] at hthread hbusy
      simp only [Pc.givesBack] at hthread
      split_ifs at hthread with hsem
      obtain rfl := Option.some.inj hthread
      subst hsem
      exact ⟨hbusy, method.released_mem_uses⟩
    | idle | blocked | woken =>
      rw [hpc] at hthread
      cases hthread
  have hback : ((holders.filter fun grant ↦
      ¬∀ thread, (state.pc thread).givesBack sem ≠ some grant).image some) =
        posters.image fun thread ↦ (state.pc thread).givesBack sem := by
    ext object
    simp only [holders, posters, Finset.mem_image, Finset.mem_filter, Finset.mem_univ, true_and,
      not_forall, not_not]
    constructor
    · rintro ⟨grant, ⟨-, thread, hthread⟩, rfl⟩
      exact ⟨thread, by rw [hthread]; exact Option.some_ne_none grant, hthread⟩
    · rintro ⟨thread, hsome, rfl⟩
      obtain ⟨grant, hgrant⟩ := Option.ne_none_iff_exists'.mp hsome
      exact ⟨grant, ⟨(hgives hgrant).1, thread, hgrant⟩, hgrant.symm⟩
  have hcard : (holders.filter fun grant ↦
      ¬∀ thread, (state.pc thread).givesBack sem ≠ some grant).card = posters.card := by
    rw [← Finset.card_image_of_injective _ (Option.some_injective Obj), hback]
    refine Finset.card_image_of_injOn fun first hfirst second _ hsame ↦ ?_
    obtain ⟨grant, hgrant⟩ := Option.ne_none_iff_exists'.mp (Finset.mem_filter.mp hfirst).2
    exact h.unshared first second grant (hgives hgrant).2
      (hgives ((show _ = _ from hsame.symm).trans hgrant)).2
  have htaken : state.taken sem = holders.filter fun grant ↦
      ∀ thread, (state.pc thread).givesBack sem ≠ some grant := by
    rw [State.taken, Finset.filter_filter]
  rw [hholders, hposters, htaken, ← hcard]
  exact (Finset.card_filter_add_card_filter_not _).symm

/-- The value of a semaphore and the grants that have taken it, but for those that are being given
back, make up its first value. Assumes: a grant is not called by two threads at once. -/
theorem permits_conserved {actions : List (Action Tid Obj Sem)}
    (hrun : Reaches init actions state) (sem : Sem) :
    state.value sem + (state.taken sem).card = init sem ∧ 0 ≤ state.value sem ∧
      state.value sem ≤ init sem := by
  have hconserved := hrun.invariant.conserved sem
  have htotal := hrun.invariant.total_holds sem
  have hnonneg := hrun.invariant.nonneg sem
  omega

/-- A permit moves from a grant to another, which gives it back when it is destroyed, and the thread
that waited for it goes on. -/
theorem permits_conserved_moved :
    ∃ state : State (Fin 2) (Fin 3) Unit,
      Reaches (fun _ ↦ 1) [.call 0 (.constructOn 0 () false), .call 0 (.construct 1),
        .call 1 (.constructOn 2 () false), .call 0 (.leave (.moveTo 0 1)),
        .call 0 (.leave (.destroy 1)), .notify 0 {1}, .retest 1] state ∧
      state.value () + (state.taken ()).card = 1 ∧ state.value () = 0 :=
  have hsome : (List.foldlM (guardedNext Unshared next)
      (initial fun _ ↦ 1 : State (Fin 2) (Fin 3) Unit)
      [.call 0 (.constructOn 0 () false), .call 0 (.construct 1),
        .call 1 (.constructOn 2 () false), .call 0 (.leave (.moveTo 0 1)),
        .call 0 (.leave (.destroy 1)), .notify 0 {1}, .retest 1]).isSome := by decide +kernel
  have hzero : (Option.get _ hsome).value () = 0 := by decide +kernel +revert
  ⟨_, Run.of_isSome hsome, (permits_conserved (Run.of_isSome hsome) ()).1, hzero⟩

/-- Whether a thread was woken and is about to test the value, or is about to notify. -/
def Pc.isOnWay (sem : Sem) : Pc Obj Sem → Bool
  | .woken _ other | .posting _ other => other = sem
  | _ => false

/-- While a thread is blocked on a semaphore, there are at least as many threads on their way as it
has permits: woken and about to test the value, or about to notify. Assumes: a grant is not called
by two threads at once. -/
theorem permit_not_stranded {actions : List (Action Tid Obj Sem)}
    (hrun : Reaches init actions state) (hblocked : state.pc thread = .blocked grant sem) :
    state.value sem ≤
      (Finset.univ.filter fun other ↦ (state.pc other).isOnWay sem = true).card := by
  have hserved := hrun.invariant.served sem thread (by rw [hblocked]; exact decide_eq_true rfl)
  rw [Finset.card_filter]
  refine hserved.trans (le_of_eq (congrArg Nat.cast ?_))
  refine Finset.sum_congr rfl fun other _ ↦ ?_
  cases state.pc other with
  | idle | blocked => rfl
  | woken grant other | posting method other => simp [Pc.onWay, Pc.isOnWay]

/-- Two threads wait for the permit that a third one gives back. -/
theorem permit_not_stranded_posting :
    ∃ state : State (Fin 3) (Fin 3) Unit,
      Reaches (fun _ ↦ 1) [.call 0 (.constructOn 0 () false), .call 1 (.constructOn 1 () false),
        .call 2 (.constructOn 2 () false), .call 0 (.leave (.release 0))] state ∧
      state.value () = 1 ∧
      state.value () ≤
        (Finset.univ.filter fun other ↦ (state.pc other).isOnWay () = true).card :=
  have hsome : (List.foldlM (guardedNext Unshared next)
      (initial fun _ ↦ 1 : State (Fin 3) (Fin 3) Unit)
      [.call 0 (.constructOn 0 () false), .call 1 (.constructOn 1 () false),
        .call 2 (.constructOn 2 () false), .call 0 (.leave (.release 0))]).isSome := by
    decide +kernel
  have hone : (Option.get _ hsome).value () = 1 := by decide +kernel +revert
  ⟨_, Run.of_isSome hsome, hone, permit_not_stranded (Run.of_isSome hsome)
    (show (Option.get _ hsome).pc 1 = .blocked 1 () by decide +kernel +revert)⟩

end Exc.CSemaphore
