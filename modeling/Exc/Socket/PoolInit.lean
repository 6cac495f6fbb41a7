import Exc.Socket.PoolExclusive

/-!
# Making a pool, with all its failures

`sckCltPool_init` is all or nothing when nothing fails and the flag `terminated`, which is not
initialised, is not 1 by chance. When a connection attempt fails, the clean-up closes the entries
with status 1. It does not know the socket of the attempt that failed, `sckClient_closeconn` does
not close the descriptor 0, and the status entries from that attempt on are not initialised. When
the first array cannot be allocated, the pointer to the second one, which is not initialised either,
is freed. And `sckClient_connect` returns 0 without a socket when `socket` fails and `errno` is 0:
the attempt counts as a connection, and its entry is not written. `init_allOrNothing_iff` says
exactly when all of this does no harm.

`sckCltPoolInitTraced` is `sckCltPool_init` with its allocations and with the descriptors that it
closes. `connectLoop_spec` says what the loop does: `Filled` is the pool after a number of attempts,
and `failedPool` the pool after the attempt that fails.

Scope. The sizes of the arrays are in the range of `size_t`.
-/

set_option autoImplicit false
set_option relaxedAutoImplicit false

namespace Exc.Socket

open Lib

/-! ### The call -/

/-- Which calls of `malloc` succeed, in order, and whether the pointer to the second array is not
null in the memory that the handle gets. -/
structure Allocations where
  handle : Bool
  criticalSection : Bool
  fdArray : Bool
  statusArray : Bool
  statusPointer : Bool

/-- Undefined behaviour: `free` of a pointer that is not initialised. -/
inductive InitFault
  | wildFree
  deriving DecidableEq

/-- What `sckCltPool_init` returns and stores through `handle`, the descriptors that are open when
the connection attempts are over, and those that it closes then, in order. -/
structure InitResult where
  ret : ℤ
  pool : Option Pool
  opened : List ℤ
  closed : List ℤ

/-- The descriptors of the entries with status 1 that `sckClient_closeconn` closes. -/
def markedFds (fds statuses : List ℤ) : List ℤ :=
  ((fds.zip statuses).filter fun entry ↦ entry.2 = 1 ∧ 0 < entry.1).map Prod.fst

/-- `sckCltPool_init`, where each `malloc` can fail. -/
def sckCltPoolInitTraced (param : PoolParam) (memory : Memory param.bounds)
    (allocations : Allocations) (startup : ℤ) (envs : ℕ → ConnectEnv) (opened : List ℤ) :
    Except InitFault InitResult :=
  if ¬allocations.handle ∨ ¬allocations.criticalSection then .ok ⟨errMalloc, none, opened, []⟩
  else if ¬allocations.fdArray then
    if allocations.statusPointer then .error .wildFree else .ok ⟨errMalloc, none, opened, []⟩
  else if ¬allocations.statusArray then .ok ⟨errMalloc, none, opened, []⟩
  else if startup ≠ 0 then .ok ⟨startup, none, opened, []⟩
  else
    let (pool, opened) := connectLoop envs param.bounds memory.pool.enter opened
    if pool.valid < pool.bounds then
      .ok ⟨errPoolCreateConn, none, opened, markedFds pool.fdArray pool.statusArray⟩
    else .ok ⟨0, some pool.leave, opened, []⟩

/-- To close an entry whose descriptor is not positive does nothing. -/
theorem foldl_closeconn (fds statuses opened : List ℤ) :
    (markedFds fds statuses).foldl (fun opened fd ↦ sckClientCloseconn fd opened) opened =
      ((fds.zip statuses).filter fun entry ↦ entry.2 = 1).foldl
        (fun opened entry ↦ sckClientCloseconn entry.1 opened) opened := by
  rw [markedFds]
  induction fds.zip statuses generalizing opened with
  | nil => rfl
  | cons entry entries ih =>
    by_cases hstatus : entry.2 = 1
    · by_cases hfd : 0 < entry.1
      · rw [List.filter_cons_of_pos (by simp [hstatus, hfd]),
          List.filter_cons_of_pos (by simp [hstatus])]
        exact ih _
      · rw [List.filter_cons_of_neg (by simp [hfd]), List.filter_cons_of_pos (by simp [hstatus]),
          List.foldl_cons, sckClientCloseconn, if_neg hfd]
        exact ih _
    · rw [List.filter_cons_of_neg (by simp [hstatus]), List.filter_cons_of_neg (by simp [hstatus])]
      exact ih _

/-- When every `malloc` succeeds, this is `sckCltPool_init`. -/
theorem sckCltPoolInitTraced_allocated (param : PoolParam) (memory : Memory param.bounds)
    (statusPointer : Bool) (startup : ℤ) (envs : ℕ → ConnectEnv) (opened : List ℤ) :
    (sckCltPoolInitTraced param memory ⟨true, true, true, true, statusPointer⟩ startup envs
        opened).map
      (fun result ↦ (result.ret, result.pool,
        result.closed.foldl (fun opened fd ↦ sckClientCloseconn fd opened) result.opened)) =
      .ok (sckCltPoolInit param memory startup envs opened) := by
  simp only [sckCltPoolInitTraced, sckCltPoolInit, not_true_eq_false, or_self, if_false]
  by_cases hstartup : startup = 0
  · rw [if_neg (not_not_intro hstartup), if_neg (not_not_intro hstartup)]
    let loop := connectLoop envs param.bounds memory.pool.enter opened
    change Except.map _ (if loop.1.valid < loop.1.bounds then _ else _) =
      .ok (if loop.1.valid < loop.1.bounds then _ else _)
    split_ifs with hfailed
    · simp only [Except.map, foldl_closeconn]
      rfl
    · rfl
  · rw [if_pos hstartup, if_pos hstartup]
    rfl

/-! ### Connection attempts -/

/-- The arguments pass the check of `sckClient_connect`. -/
def PoolParam.Valid (param : PoolParam) : Prop :=
  ¬(param.serverport ≤ 0 ∨ 65537 < param.serverport ∨ param.connecttime < 0)

instance (param : PoolParam) : Decidable param.Valid := inferInstanceAs (Decidable (¬_))

/-- The descriptors that are open before an attempt, when all before it have passed. -/
def openedBefore (envs : ℕ → ConnectEnv) (opened : List ℤ) : ℕ → List ℤ
  | 0 => opened
  | index + 1 =>
    let earlier := openedBefore envs opened index
    let sockfd := (envs index).socket earlier
    if 0 ≤ sockfd then sockfd :: earlier else earlier

/-- What `socket` returns in an attempt, when all before it have passed. -/
def attemptSocket (envs : ℕ → ConnectEnv) (opened : List ℤ) (index : ℕ) : ℤ :=
  (envs index).socket (openedBefore envs opened index)

/-- An attempt returns 0: it gets a connection, or `socket` fails and `errno` is 0. -/
def Passes (param : PoolParam) (envs : ℕ → ConnectEnv) (opened : List ℤ) (index : ℕ) : Prop :=
  param.Valid ∧
    if 0 ≤ attemptSocket envs opened index then (envs index).connectTimeout = 0
    else (envs index).errno = 0

/-- The sockets that an attempt opens, at most one. -/
def attemptOpens (param : PoolParam) (envs : ℕ → ConnectEnv) (opened : List ℤ) (index : ℕ) :
    List ℤ :=
  if param.Valid ∧ 0 ≤ attemptSocket envs opened index then [attemptSocket envs opened index]
  else []

/-- What an attempt stores in the array. -/
def attemptStores (param : PoolParam) (envs : ℕ → ConnectEnv) (opened : List ℤ) (index : ℕ) :
    Option ℤ :=
  if param.Valid ∧ 0 ≤ attemptSocket envs opened index ∧ 0 ≤ (envs index).connectTimeout then
    some (attemptSocket envs opened index)
  else none

/-- The entry of an attempt that has passed: its socket, or what was in the memory. -/
def attemptEntry (fds : List ℤ) (envs : ℕ → ConnectEnv) (opened : List ℤ) (index : ℕ) : ℤ :=
  if 0 ≤ attemptSocket envs opened index then attemptSocket envs opened index else fds.getD index 0

variable {param : PoolParam} {envs : ℕ → ConnectEnv} {opened : List ℤ} {index : ℕ}

theorem openedBefore_succ (envs : ℕ → ConnectEnv) (opened : List ℤ) (index : ℕ) :
    openedBefore envs opened (index + 1) =
      if 0 ≤ attemptSocket envs opened index then
        attemptSocket envs opened index :: openedBefore envs opened index
      else openedBefore envs opened index := rfl

theorem sckClientConnect_passes (hpasses : Passes param envs opened index) :
    sckClientConnect param.serverport param.connecttime (envs index)
        (openedBefore envs opened index) =
      ⟨0, if 0 ≤ attemptSocket envs opened index then some (attemptSocket envs opened index)
        else none, openedBefore envs opened (index + 1)⟩ := by
  obtain ⟨hparam, houtcome⟩ := hpasses
  rw [sckClientConnect, if_neg hparam, ← attemptSocket, openedBefore_succ]
  dsimp only
  by_cases hsocket : 0 ≤ attemptSocket envs opened index
  · rw [if_pos hsocket] at houtcome
    rw [if_pos hsocket, if_pos hsocket, if_neg (not_lt.mpr hsocket), houtcome,
      if_neg (lt_irrefl 0)]
  · rw [if_neg hsocket] at houtcome
    rw [if_neg hsocket, if_neg hsocket, if_pos (not_le.mp hsocket), houtcome]

theorem sckClientConnect_fails (hfails : ¬Passes param envs opened index) :
    ∃ ret, ret ≠ 0 ∧
      sckClientConnect param.serverport param.connecttime (envs index)
          (openedBefore envs opened index) =
        ⟨ret, attemptStores param envs opened index,
          attemptOpens param envs opened index ++ openedBefore envs opened index⟩ := by
  have herr : errParam ≠ 0 ∧ errTimeOut ≠ 0 := by decide
  rw [Passes] at hfails
  rw [sckClientConnect]
  by_cases hparam : param.Valid
  · rw [if_neg hparam, ← attemptSocket]
    dsimp only
    by_cases hsocket : 0 ≤ attemptSocket envs opened index
    · have hopens : attemptOpens param envs opened index = [attemptSocket envs opened index] :=
        if_pos ⟨hparam, hsocket⟩
      rw [if_pos hsocket] at hfails
      rw [if_neg (not_lt.mpr hsocket), hopens]
      by_cases htimeout : 0 ≤ (envs index).connectTimeout
      · have hstores : attemptStores param envs opened index =
            some (attemptSocket envs opened index) := if_pos ⟨hparam, hsocket, htimeout⟩
        rw [if_neg (not_lt.mpr htimeout), hstores]
        exact ⟨_, fun hret ↦ hfails ⟨hparam, hret⟩, rfl⟩
      · have hstores : attemptStores param envs opened index = none :=
          if_neg fun hstores ↦ htimeout hstores.2.2
        rw [if_pos (not_le.mp htimeout), hstores]
        split_ifs
        · exact ⟨_, herr.2, rfl⟩
        · exact ⟨_, (not_le.mp htimeout).ne, rfl⟩
    · rw [if_neg hsocket] at hfails
      rw [if_pos (not_le.mp hsocket), attemptOpens, if_neg fun hopens ↦ hsocket hopens.2,
        attemptStores, if_neg fun hstores ↦ hsocket hstores.2.1]
      exact ⟨_, fun hret ↦ hfails ⟨hparam, hret⟩, rfl⟩
  · rw [if_pos (not_not.mp hparam), attemptOpens, if_neg fun hopens ↦ hparam hopens.1,
      attemptStores, if_neg fun hstores ↦ hparam hstores.1]
    exact ⟨_, herr.1, rfl⟩

/-! ### The loop -/

/-- The pool after a number of attempts that have passed. -/
structure Filled (base : Pool) (entries : ℕ → ℤ) (count : ℕ) (pool : Pool) : Prop where
  shape : PoolShape pool
  valid : pool.valid = count
  bounds : pool.bounds = base.bounds
  serverport : pool.serverport = base.serverport
  connecttime : pool.connecttime = base.connecttime
  terminated : pool.terminated = base.terminated
  free : pool.free = (List.range count).map entries
  fds_rest : pool.fdArray.drop count = base.fdArray.drop count
  statuses_rest : pool.statusArray.drop count = base.statusArray.drop count

variable {base pool : Pool} {entries : ℕ → ℤ} {count : ℕ}

/-- One more entry. -/
theorem Filled.push (h : Filled base entries count pool) (hroom : count < base.bounds) :
    Filled base entries (count + 1) (pool.push (entries count)) := by
  have hvalid : pool.valid < pool.bounds := by rwa [h.valid, h.bounds]
  have hfds := hvalid.trans_eq h.shape.fds_length.symm
  refine ⟨h.shape.push hvalid _, congrArg (· + 1) h.valid, h.bounds, h.serverport, h.connecttime,
    h.terminated, ?_, ?_, ?_⟩
  · rw [Pool.free_push hfds, h.free, List.range_succ, List.map_append]
    rfl
  · have hrest := congrArg (List.drop 1) h.fds_rest
    rw [List.drop_drop, List.drop_drop] at hrest
    rw [Pool.push, h.valid, List.drop_set_of_lt (Nat.lt_add_one _), hrest]
  · have hrest := congrArg (List.drop 1) h.statuses_rest
    rw [List.drop_drop, List.drop_drop] at hrest
    rw [Pool.push, h.valid, List.drop_set_of_lt (Nat.lt_add_one _), hrest]

/-- An entry that is not written keeps what was in the memory. -/
theorem Filled.set_getD (h : Filled base entries count pool) :
    pool.fdArray.set count (base.fdArray.getD count 0) = pool.fdArray := by
  have hentry : base.fdArray[count]? = pool.fdArray[count]? := by
    rw [← Nat.add_zero count, ← List.getElem?_drop, ← List.getElem?_drop, h.fds_rest]
  rw [List.getD_eq_getElem?_getD, hentry]
  refine List.ext_getElem? fun index ↦ ?_
  rw [List.getElem?_set]
  split_ifs with hindex hlength
  · subst hindex
    rw [List.getElem?_eq_getElem hlength, Option.getD_some]
  · rw [← hindex, List.getElem?_eq_none (not_lt.mp hlength)]
  · rfl

/-- The pool after the attempt that fails. -/
def failedPool (stores : Option ℤ) (pool : Pool) : Pool :=
  { pool with
    fdArray := match stores with
      | some fd => pool.fdArray.set pool.valid fd
      | none => pool.fdArray }

/-- One round of the loop, for an attempt that passes. -/
theorem connectLoop_passes (hport : base.serverport = param.serverport)
    (htime : base.connecttime = param.connecttime)
    (hfilled : Filled base (attemptEntry base.fdArray envs opened) index pool)
    (hpasses : Passes param envs opened index) (remaining : ℕ) :
    connectLoop envs (remaining + 1) pool (openedBefore envs opened index) =
      connectLoop envs remaining (pool.push (attemptEntry base.fdArray envs opened index))
        (openedBefore envs opened (index + 1)) := by
  have hmade := sckClientConnect_passes hpasses
  have hset := hfilled.set_getD
  rw [← hport, ← htime, ← hfilled.serverport, ← hfilled.connecttime, ← hfilled.valid] at hmade
  rw [← hfilled.valid] at hset
  rw [connectLoop, ← hfilled.valid, hmade]
  dsimp only
  rw [if_neg (not_not_intro rfl), Pool.push, attemptEntry]
  by_cases hsocket : 0 ≤ attemptSocket envs opened pool.valid
  · rw [if_pos hsocket, if_pos hsocket]
  · rw [if_neg hsocket, if_neg hsocket, hset]

/-- The round in which an attempt fails. -/
theorem connectLoop_fails (hport : base.serverport = param.serverport)
    (htime : base.connecttime = param.connecttime) (hfilled : Filled base entries index pool)
    (hfails : ¬Passes param envs opened index) (remaining : ℕ) :
    connectLoop envs (remaining + 1) pool (openedBefore envs opened index) =
      (failedPool (attemptStores param envs opened index) pool,
        attemptOpens param envs opened index ++ openedBefore envs opened index) := by
  obtain ⟨ret, hret, hmade⟩ := sckClientConnect_fails hfails
  have hindex : pool.valid = index := hfilled.valid
  subst hindex
  rw [← hport, ← htime, ← hfilled.serverport, ← hfilled.connecttime] at hmade
  rw [connectLoop, hmade]
  exact if_pos hret

/-- The loop of `sckCltPool_init` fills the pool, or there is a first attempt that fails. -/
theorem connectLoop_spec (hport : base.serverport = param.serverport)
    (htime : base.connecttime = param.connecttime) {remaining : ℕ}
    (hfilled : Filled base (attemptEntry base.fdArray envs opened) index pool)
    (hsum : index + remaining = base.bounds)
    (hbefore : ∀ earlier < index, Passes param envs opened earlier) :
    (∀ attempt < base.bounds, Passes param envs opened attempt) ∧
      (∃ full, Filled base (attemptEntry base.fdArray envs opened) base.bounds full ∧
        connectLoop envs remaining pool (openedBefore envs opened index) =
          (full, openedBefore envs opened base.bounds)) ∨
    ∃ failed < base.bounds, (∀ earlier < failed, Passes param envs opened earlier) ∧
      ¬Passes param envs opened failed ∧
      ∃ filled, Filled base (attemptEntry base.fdArray envs opened) failed filled ∧
        connectLoop envs remaining pool (openedBefore envs opened index) =
          (failedPool (attemptStores param envs opened failed) filled,
            attemptOpens param envs opened failed ++ openedBefore envs opened failed) := by
  induction remaining generalizing index pool with
  | zero =>
    obtain rfl : index = base.bounds := hsum
    exact .inl ⟨hbefore, pool, hfilled, rfl⟩
  | succ remaining ih =>
    by_cases hpasses : Passes param envs opened index
    · have hnext : ∀ earlier < index + 1, Passes param envs opened earlier := fun earlier hless ↦
        (Nat.lt_succ_iff_lt_or_eq.mp hless).elim (hbefore earlier) (· ▸ hpasses)
      rw [connectLoop_passes hport htime hfilled hpasses]
      exact ih (hfilled.push (by omega)) (by omega) hnext
    · exact .inr ⟨index, by omega, hbefore, hpasses, pool, hfilled,
        connectLoop_fails hport htime hfilled hpasses remaining⟩

/-- The pool before the first attempt. -/
theorem Memory.filled (memory : Memory param.bounds) (entries : ℕ → ℤ) :
    Filled memory.pool.enter entries 0 memory.pool.enter :=
  ⟨⟨⟨memory.fdArray.length_toList, memory.statusArray.length_toList, Nat.zero_le _⟩,
    fun _ hstatus ↦ absurd hstatus List.not_mem_nil⟩, rfl, rfl, rfl, rfl, rfl, rfl, rfl, rfl⟩

/-! ### The clean-up -/

variable {fds statuses : List ℤ}

theorem markedFds_cons (fd status : ℤ) (fds statuses : List ℤ) :
    markedFds (fd :: fds) (status :: statuses) =
      if status = 1 ∧ 0 < fd then fd :: markedFds fds statuses else markedFds fds statuses := by
  rw [markedFds, List.zip_cons_cons]
  split_ifs with hmarked
  · rw [List.filter_cons_of_pos (by simpa using hmarked)]
    rfl
  · rw [List.filter_cons_of_neg (by simpa using hmarked)]
    rfl

theorem markedFds_append (hlength : fds.length = statuses.length)
    (moreFds moreStatuses : List ℤ) :
    markedFds (fds ++ moreFds) (statuses ++ moreStatuses) =
      markedFds fds statuses ++ markedFds moreFds moreStatuses := by
  simp only [markedFds, List.zip_append hlength, List.filter_append, List.map_append]

theorem markedFds_ones (hlength : fds.length = statuses.length)
    (hones : ∀ status ∈ statuses, status = 1) :
    markedFds fds statuses = fds.filter (0 < ·) := by
  induction fds generalizing statuses with
  | nil => simp [markedFds]
  | cons fd fds ih =>
    obtain _ | ⟨status, statuses⟩ := statuses
    · simp at hlength
    · obtain ⟨hfirst, hlater⟩ := List.forall_mem_cons.mp hones
      rw [markedFds_cons, hfirst, ih (by simpa using hlength) hlater, List.filter_cons]
      simp

theorem pos_of_mem_markedFds {fd : ℤ} (hfd : fd ∈ markedFds fds statuses) : 0 < fd := by
  obtain ⟨entry, hentry, rfl⟩ := List.mem_map.mp hfd
  exact (of_decide_eq_true (List.mem_filter.mp hentry).2).2

/-- The entries of the array from the attempt that fails on. -/
def staleFds (stores : Option ℤ) (rest : List ℤ) : List ℤ :=
  match stores with
  | some fd => fd :: rest.drop 1
  | none => rest

theorem fdArray_failedPool (hvalid : pool.valid < pool.fdArray.length) (stores : Option ℤ) :
    (failedPool stores pool).fdArray =
      pool.free ++ staleFds stores (pool.fdArray.drop pool.valid) := by
  cases stores with
  | none => exact (List.take_append_drop pool.valid pool.fdArray).symm
  | some fd =>
    rw [staleFds, List.drop_drop]
    exact List.set_eq_take_cons_drop fd hvalid

/-- What the clean-up closes: the entries of the attempts that passed, and the entries behind them
with status 1. -/
theorem markedFds_failedPool (hfilled : Filled base entries count pool)
    (hcount : count < base.bounds) (stores : Option ℤ) :
    markedFds (failedPool stores pool).fdArray (failedPool stores pool).statusArray =
      ((List.range count).map entries).filter (0 < ·) ++
        markedFds (staleFds stores (base.fdArray.drop count)) (base.statusArray.drop count) := by
  have hvalid : pool.valid < pool.bounds := by rwa [hfilled.valid, hfilled.bounds]
  have hstatuses : (failedPool stores pool).statusArray =
      pool.statusArray.take pool.valid ++ pool.statusArray.drop pool.valid :=
    (List.take_append_drop _ _).symm
  have hlength : pool.free.length = (pool.statusArray.take pool.valid).length := by
    rw [Pool.free, List.length_take, List.length_take, hfilled.shape.fds_length,
      hfilled.shape.statuses_length]
  rw [fdArray_failedPool (hvalid.trans_eq hfilled.shape.fds_length.symm), hstatuses,
    markedFds_append hlength, markedFds_ones hlength hfilled.shape.status, hfilled.free,
    hfilled.valid, hfilled.fds_rest, hfilled.statuses_rest]

/-- The sockets of the attempts that got one. -/
def connections (envs : ℕ → ConnectEnv) (opened : List ℤ) (count : ℕ) : List ℤ :=
  ((List.range count).map (attemptSocket envs opened)).filter (0 ≤ ·)

/-- What was in the memory at the entries of the attempts that passed without a socket, as far as
the clean-up takes it for a descriptor. -/
def strayFds (fds : List ℤ) (envs : ℕ → ConnectEnv) (opened : List ℤ) (count : ℕ) : List ℤ :=
  (((List.range count).filter fun index ↦ attemptSocket envs opened index < 0).map
    fun index ↦ fds.getD index 0).filter (0 < ·)

theorem openedBefore_eq (envs : ℕ → ConnectEnv) (opened : List ℤ) (count : ℕ) :
    openedBefore envs opened count = (connections envs opened count).reverse ++ opened := by
  induction count with
  | zero => rfl
  | succ count ih =>
    rw [openedBefore_succ, connections, List.range_succ, List.map_append, List.filter_append,
      ← connections, List.reverse_append, ih]
    split_ifs with hsocket
    · simp [hsocket]
    · simp [hsocket]

/-- The clean-up closes the sockets that were got, and the stray entries. -/
theorem entries_perm (fds : List ℤ) (envs : ℕ → ConnectEnv) (opened : List ℤ) (count : ℕ) :
    (((List.range count).map (attemptEntry fds envs opened)).filter (0 < ·)).Perm
      ((connections envs opened count).filter (0 < ·) ++ strayFds fds envs opened count) := by
  induction count with
  | zero => exact List.Perm.nil
  | succ count ih =>
    by_cases hsocket : 0 ≤ attemptSocket envs opened count
    · have hstray : strayFds fds envs opened (count + 1) = strayFds fds envs opened count := by
        simp [strayFds, List.range_succ, hsocket]
      have hconnections : connections envs opened (count + 1) =
          connections envs opened count ++ [attemptSocket envs opened count] := by
        simp [connections, List.range_succ, hsocket]
      rw [hstray, hconnections, List.range_succ, List.map_append, List.filter_append,
        List.filter_append, List.map_singleton, attemptEntry, if_pos hsocket, List.append_assoc]
      refine (ih.append_right _).trans ?_
      rw [List.append_assoc]
      exact List.perm_append_comm.append_left _
    · have hconnections : connections envs opened (count + 1) = connections envs opened count := by
        simp [connections, List.range_succ, hsocket]
      have hstray : strayFds fds envs opened (count + 1) =
          strayFds fds envs opened count ++ [fds.getD count 0].filter (0 < ·) := by
        simp [strayFds, List.range_succ, not_le.mp hsocket]
      rw [hstray, hconnections, List.range_succ, List.map_append, List.filter_append,
        List.map_singleton, attemptEntry, if_neg hsocket, ← List.append_assoc]
      exact ih.append_right _

/-! ### All or nothing -/

/-- The pool that a call stores: all connections that were made are free and have status 1, and the
next `sckCltPool_getConnet` returns 0. -/
structure Complete (bounds : ℕ) (opened : List ℤ) (result : InitResult) (pool : Pool) : Prop where
  stored : result.pool = some pool
  valid : pool.valid = bounds
  free_length : pool.free.length = bounds
  free_created : result.opened = pool.free.reverse ++ opened
  status : pool.statusArray.take bounds = List.replicate bounds 1
  available : ∀ env, ∃ got,
    sckCltPoolGetConnet false false env pool result.opened = .ok got ∧ got.ret = 0

/-- Every socket that was opened is closed once, and no other descriptor. -/
def CleanedUp (opened : List ℤ) (result : InitResult) : Prop :=
  ∃ created, result.opened = created ++ opened ∧ result.closed.Perm created

/-- What is expected of a call. -/
def AllOrNothing (bounds : ℕ) (opened : List ℤ) : Except InitFault InitResult → Prop
  | .error _ => False
  | .ok result =>
    (result.ret = 0 → ∃ pool, Complete bounds opened result pool) ∧
      (result.ret ≠ 0 → CleanedUp opened result)

/-- Every `malloc` succeeds. -/
def Allocations.Succeed (allocations : Allocations) : Prop :=
  allocations.handle ∧ allocations.criticalSection ∧ allocations.fdArray ∧ allocations.statusArray

/-- The condition on an attempt that fails: no attempt before it got the descriptor 0, and what the
clean-up closes besides the connections, at the entries of the attempts that passed without a socket
and from its own entry on, is its socket and nothing else. -/
def CleanFailure (param : PoolParam) (memory : Memory param.bounds) (envs : ℕ → ConnectEnv)
    (opened : List ℤ) (failed : ℕ) : Prop :=
  (∀ earlier < failed, attemptSocket envs opened earlier ≠ 0) ∧
    strayFds memory.fdArray.toList envs opened failed ++
        markedFds
          (staleFds (attemptStores param envs opened failed) (memory.fdArray.toList.drop failed))
          (memory.statusArray.toList.drop failed) =
      attemptOpens param envs opened failed

/-- The condition on the memory and the outcomes: the pointer that is freed without the first array
is null; when all attempts pass, each of them got a socket and the pool is not terminated; and
otherwise the first one that fails meets its condition. -/
structure InitGuard (param : PoolParam) (memory : Memory param.bounds) (allocations : Allocations)
    (startup : ℤ) (envs : ℕ → ConnectEnv) (opened : List ℤ) : Prop where
  pointer : allocations.handle → allocations.criticalSection → ¬allocations.fdArray →
    ¬allocations.statusPointer
  passed : allocations.Succeed → startup = 0 →
    (∀ attempt < param.bounds, Passes param envs opened attempt) →
      (∀ attempt < param.bounds, 0 ≤ attemptSocket envs opened attempt) ∧ memory.terminated ≠ 1
  failure : allocations.Succeed → startup = 0 → ∀ failed < param.bounds,
    (∀ earlier < failed, Passes param envs opened earlier) →
      ¬Passes param envs opened failed → CleanFailure param memory envs opened failed

theorem allOrNothing_failed {bounds : ℕ} {result : InitResult} (hret : result.ret ≠ 0) :
    AllOrNothing bounds opened (.ok result) ↔ CleanedUp opened result :=
  ⟨fun hall ↦ hall.2 hret, fun hclean ↦ ⟨fun hzero ↦ absurd hzero hret, fun _ ↦ hclean⟩⟩

/-- A call that ends before the first attempt. -/
theorem allOrNothing_early {bounds : ℕ} {ret : ℤ} (hret : ret ≠ 0) :
    AllOrNothing bounds opened (.ok ⟨ret, none, opened, []⟩) :=
  (allOrNothing_failed hret).mpr ⟨[], rfl, List.Perm.nil⟩

theorem connections_eq
    (hsockets : ∀ attempt < count, 0 ≤ attemptSocket envs opened attempt) :
    connections envs opened count = (List.range count).map (attemptSocket envs opened) := by
  refine List.filter_eq_self.mpr fun fd hfd ↦ ?_
  obtain ⟨attempt, hattempt, rfl⟩ := List.mem_map.mp hfd
  exact decide_eq_true (hsockets attempt (List.mem_range.mp hattempt))

theorem map_attemptEntry (fds : List ℤ)
    (hsockets : ∀ attempt < count, 0 ≤ attemptSocket envs opened attempt) :
    (List.range count).map (attemptEntry fds envs opened) =
      (List.range count).map (attemptSocket envs opened) :=
  List.map_congr_left fun attempt hattempt ↦ if_pos (hsockets attempt (List.mem_range.mp hattempt))

/-- As many sockets were opened as there are entries only if each attempt got one. -/
theorem forall_of_connections_length
    (hlength : (connections envs opened count).length = count) :
    ∀ attempt < count, 0 ≤ attemptSocket envs opened attempt := by
  have hall : ((List.range count).map (attemptSocket envs opened)).filter (0 ≤ ·) =
      (List.range count).map (attemptSocket envs opened) :=
    List.filter_sublist.eq_of_length (by rw [List.length_map, List.length_range]; exact hlength)
  intro attempt hattempt
  have hmem := List.mem_map_of_mem (f := attemptSocket envs opened) (List.mem_range.mpr hattempt)
  rw [← hall] at hmem
  exact of_decide_eq_true (List.mem_filter.mp hmem).2

/-- A pool that is full is complete if each attempt got a socket, unless it is terminated. -/
theorem complete_iff (hbounds : 1 ≤ base.bounds)
    (hfull : Filled base (attemptEntry base.fdArray envs opened) base.bounds pool) :
    AllOrNothing base.bounds opened
        (.ok ⟨0, some pool.leave, openedBefore envs opened base.bounds, []⟩) ↔
      (∀ attempt < base.bounds, 0 ≤ attemptSocket envs opened attempt) ∧ base.terminated ≠ 1 := by
  have hshape : PoolShape pool.leave := hfull.shape.leave
  constructor
  · intro hall
    obtain ⟨stored, hcomplete⟩ := hall.1 rfl
    obtain rfl : pool.leave = stored := Option.some.inj hcomplete.stored
    constructor
    · have hlength := congrArg List.length hcomplete.free_created
      rw [openedBefore_eq, List.length_append, List.length_append, List.length_reverse,
        List.length_reverse, hcomplete.free_length] at hlength
      exact forall_of_connections_length (Nat.add_right_cancel hlength)
    · intro hterminated
      obtain ⟨got, hgot, hret⟩ := hcomplete.available (envs 0)
      have hflag : pool.leave.terminated = 1 := hfull.terminated.trans hterminated
      rw [getConnet_terminated hflag] at hgot
      cases hgot
      exact absurd hret (show errPoolTerminated ≠ 0 by decide)
  · rintro ⟨hsockets, hrunning⟩
    have hfree : pool.leave.free = (List.range base.bounds).map (attemptSocket envs opened) :=
      hfull.free.trans (map_attemptEntry base.fdArray hsockets)
    have hflag : pool.leave.terminated ≠ 1 := fun hone ↦ hrunning (hfull.terminated.symm.trans hone)
    refine ⟨fun _ ↦ ⟨pool.leave, rfl, hfull.valid, ?_, ?_, ?_, fun env ↦ ?_⟩,
      fun hret ↦ absurd rfl hret⟩
    · rw [hfree, List.length_map, List.length_range]
    · rw [hfree, ← connections_eq hsockets, ← openedBefore_eq]
    · refine List.eq_replicate_iff.mpr ⟨?_, fun status hstatus ↦ hshape.status status ?_⟩
      · rw [List.length_take, hshape.statuses_length]
        exact min_eq_left hfull.bounds.ge
      · rwa [show pool.leave.valid = base.bounds from hfull.valid]
    · obtain ⟨hvalid, -⟩ | ⟨rest, fd, -, -, hget⟩ :=
        getConnet_spec hshape hflag env (openedBefore envs opened base.bounds)
      · have hempty : pool.valid = 0 := hvalid
        rw [hfull.valid] at hempty
        omega
      · exact ⟨_, hget, rfl⟩

/-- What is closed are the sockets of the connections and one more list, and what was opened are the
same sockets and those of the attempt that fails. -/
theorem perm_created_iff {sockets stale opens : List ℤ} (hopens : opens.length ≤ 1)
    (hstale : ∀ fd ∈ stale, 0 < fd) :
    (sockets.filter (0 < ·) ++ stale).Perm (opens ++ sockets.reverse) ↔
      (∀ fd ∈ sockets, 0 < fd) ∧ stale = opens := by
  constructor
  · intro hperm
    have hpos : ∀ fd ∈ sockets, 0 < fd := by
      intro fd hfd
      have hclosed := hperm.mem_iff.mpr (List.mem_append_right _ (List.mem_reverse.mpr hfd))
      exact (List.mem_append.mp hclosed).elim
        (fun hmem ↦ of_decide_eq_true (List.mem_filter.mp hmem).2) (hstale fd)
    refine ⟨hpos, ?_⟩
    have hrest : stale.Perm opens := by
      rw [List.filter_eq_self.mpr fun fd hfd ↦ decide_eq_true (hpos fd hfd)] at hperm
      refine (List.perm_append_left_iff sockets).mp (hperm.trans ?_)
      exact ((List.reverse_perm sockets).append_left opens).trans List.perm_append_comm
    obtain _ | ⟨fd, opens⟩ := opens
    · exact hrest.eq_nil
    · obtain rfl : opens = [] := List.eq_nil_of_length_eq_zero (by simpa using hopens)
      exact hrest.eq_singleton
  · rintro ⟨hpos, rfl⟩
    rw [List.filter_eq_self.mpr fun fd hfd ↦ decide_eq_true (hpos fd hfd)]
    exact List.perm_append_comm.trans ((List.reverse_perm sockets).symm.append_left stale)

theorem connections_pos_iff : (∀ fd ∈ connections envs opened count, 0 < fd) ↔
    ∀ earlier < count, attemptSocket envs opened earlier ≠ 0 := by
  constructor
  · intro hpos earlier hearlier hzero
    have hmem : 0 ∈ connections envs opened count :=
      List.mem_filter.mpr ⟨List.mem_map.mpr ⟨earlier, List.mem_range.mpr hearlier, hzero⟩, rfl⟩
    exact lt_irrefl _ (hpos 0 hmem)
  · intro hne fd hfd
    obtain ⟨hmem, hnonneg⟩ := List.mem_filter.mp hfd
    obtain ⟨earlier, hearlier, rfl⟩ := List.mem_map.mp hmem
    exact (of_decide_eq_true hnonneg).lt_of_ne' (hne earlier (List.mem_range.mp hearlier))

/-- A call in which an attempt fails cleans up when that attempt meets its condition. -/
theorem cleanedUp_iff (stores : Option ℤ) {opens : List ℤ} (hopens : opens.length ≤ 1)
    (hfilled : Filled base (attemptEntry base.fdArray envs opened) count pool)
    (hcount : count < base.bounds) :
    CleanedUp opened ⟨errPoolCreateConn, none, opens ++ openedBefore envs opened count,
        markedFds (failedPool stores pool).fdArray (failedPool stores pool).statusArray⟩ ↔
      (∀ earlier < count, attemptSocket envs opened earlier ≠ 0) ∧
        strayFds base.fdArray envs opened count ++
            markedFds (staleFds stores (base.fdArray.drop count)) (base.statusArray.drop count) =
          opens := by
  have hstale : ∀ fd ∈ strayFds base.fdArray envs opened count ++
      markedFds (staleFds stores (base.fdArray.drop count)) (base.statusArray.drop count),
      0 < fd := by
    intro fd hfd
    obtain hstray | hmarked := List.mem_append.mp hfd
    · exact of_decide_eq_true (List.mem_filter.mp hstray).2
    · exact pos_of_mem_markedFds hmarked
  rw [← connections_pos_iff, ← perm_created_iff hopens hstale, ← List.append_assoc,
    CleanedUp, openedBefore_eq, ← List.append_assoc, markedFds_failedPool hfilled hcount]
  have hclosed := (entries_perm base.fdArray envs opened count).append_right
    (markedFds (staleFds stores (base.fdArray.drop count)) (base.statusArray.drop count))
  constructor
  · rintro ⟨created, hcreated, hperm⟩
    rw [List.append_cancel_right hcreated]
    exact hclosed.symm.trans hperm
  · exact fun hperm ↦ ⟨_, rfl, hclosed.trans hperm⟩

theorem attemptOpens_length (param : PoolParam) (envs : ℕ → ConnectEnv) (opened : List ℤ)
    (index : ℕ) : (attemptOpens param envs opened index).length ≤ 1 := by
  unfold attemptOpens
  split_ifs
  · exact le_rfl
  · exact Nat.zero_le _

/-- When the connection attempts are not reached, only the pointer matters. -/
theorem initGuard_early {memory : Memory param.bounds} {allocations : Allocations} {startup : ℤ}
    (hpointer : allocations.handle → allocations.criticalSection → ¬allocations.fdArray →
      ¬allocations.statusPointer)
    (hearly : allocations.Succeed → startup ≠ 0) :
    InitGuard param memory allocations startup envs opened :=
  ⟨hpointer, fun hsucceed hstartup ↦ absurd hstartup (hearly hsucceed),
    fun hsucceed hstartup ↦ absurd hstartup (hearly hsucceed)⟩

section Attempts

variable {memory : Memory param.bounds} {allocations : Allocations}

/-- When all attempts pass, only the sockets and the flag matter. -/
theorem initGuard_passes (hsucceed : allocations.Succeed)
    (hall : ∀ attempt < param.bounds, Passes param envs opened attempt) :
    InitGuard param memory allocations 0 envs opened ↔
      (∀ attempt < param.bounds, 0 ≤ attemptSocket envs opened attempt) ∧
        memory.terminated ≠ 1 := by
  constructor
  · exact fun hguard ↦ hguard.passed hsucceed rfl hall
  · intro hpassed
    exact ⟨fun _ _ hnot ↦ absurd hsucceed.2.2.1 hnot, fun _ _ _ ↦ hpassed,
      fun _ _ failed hless _ hfails ↦ absurd (hall failed hless) hfails⟩

/-- When an attempt fails, only the condition on the first one that does matters. -/
theorem initGuard_fails (hsucceed : allocations.Succeed) {failed : ℕ}
    (hless : failed < param.bounds)
    (hbefore : ∀ earlier < failed, Passes param envs opened earlier)
    (hfails : ¬Passes param envs opened failed) :
    InitGuard param memory allocations 0 envs opened ↔
      CleanFailure param memory envs opened failed := by
  constructor
  · exact fun hguard ↦ hguard.failure hsucceed rfl failed hless hbefore hfails
  · intro hclean
    refine ⟨fun _ _ hnot ↦ absurd hsucceed.2.2.1 hnot,
      fun _ _ hpasses ↦ absurd (hpasses failed hless) hfails,
      fun _ _ other _ hearlier hnot ↦ ?_⟩
    obtain hlt | rfl | hgt := lt_trichotomy other failed
    · exact absurd (hbefore other hlt) hnot
    · exact hclean
    · exact absurd (hearlier failed hgt) hfails

/-- The connection attempts, from an empty pool on. -/
theorem attempts_allOrNothing_iff (hbounds : 1 ≤ param.bounds) (hsucceed : allocations.Succeed) :
    AllOrNothing param.bounds opened
        (let (pool, opened) := connectLoop envs param.bounds memory.pool.enter opened
        if pool.valid < pool.bounds then
          .ok ⟨errPoolCreateConn, none, opened, markedFds pool.fdArray pool.statusArray⟩
        else .ok ⟨0, some pool.leave, opened, []⟩) ↔
      InitGuard param memory allocations 0 envs opened := by
  obtain ⟨hall, full, hfull, hloop⟩ | ⟨failed, hless, hbefore, hfails, filled, hfilled, hloop⟩ :=
    connectLoop_spec (show memory.pool.enter.serverport = param.serverport from rfl) rfl
      (memory.filled _) (Nat.zero_add _) fun earlier hearlier ↦ absurd hearlier (Nat.not_lt_zero _)
  · have hroom : ¬full.valid < full.bounds := by
      rw [hfull.valid, hfull.bounds]
      exact lt_irrefl _
    rw [initGuard_passes hsucceed hall,
      show connectLoop envs param.bounds memory.pool.enter opened = _ from hloop]
    dsimp only
    rw [if_neg hroom]
    exact complete_iff hbounds hfull
  · have hroom : filled.valid < filled.bounds := by
      rw [hfilled.valid, hfilled.bounds]
      exact hless
    have herr : errPoolCreateConn ≠ 0 := by decide
    rw [initGuard_fails hsucceed hless hbefore hfails,
      show connectLoop envs param.bounds memory.pool.enter opened = _ from hloop]
    change AllOrNothing _ _ (if filled.valid < filled.bounds then _ else _) ↔ _
    rw [if_pos hroom, allOrNothing_failed herr]
    exact cleanedUp_iff (attemptStores param envs opened failed)
      (attemptOpens_length param envs opened failed) hfilled hless

end Attempts

/-- A call of `sckCltPool_init` is all or nothing exactly when the memory and the outcomes meet the
condition. Assumes: there is room for a connection. For every content of the memory, every outcome
of `malloc` and of the connection attempts, and whatever descriptors are open before. -/
theorem init_allOrNothing_iff (param : PoolParam) (hbounds : 1 ≤ param.bounds)
    (memory : Memory param.bounds) (allocations : Allocations) (startup : ℤ)
    (envs : ℕ → ConnectEnv) (opened : List ℤ) :
    AllOrNothing param.bounds opened
        (sckCltPoolInitTraced param memory allocations startup envs opened) ↔
      InitGuard param memory allocations startup envs opened := by
  have hmalloc : errMalloc ≠ 0 := by decide
  rw [sckCltPoolInitTraced]
  split_ifs with hhandle hfds hstatuses hstartup hpointer
  · refine iff_of_true (allOrNothing_early hmalloc) (initGuard_early ?_ ?_)
    · exact fun hone htwo ↦ absurd hhandle (by simp [hone, htwo])
    · exact fun hsucceed ↦ absurd hhandle (by simp [hsucceed.1, hsucceed.2.1])
  · exact iff_of_true (allOrNothing_early hstartup) (initGuard_early
      (fun _ _ hnot ↦ absurd hfds hnot) fun _ ↦ hstartup)
  · rw [not_or, not_not, not_not] at hhandle
    obtain rfl : startup = 0 := not_not.mp hstartup
    exact attempts_allOrNothing_iff hbounds ⟨hhandle.1, hhandle.2, hfds, hstatuses⟩
  · exact iff_of_true (allOrNothing_early hmalloc) (initGuard_early
      (fun _ _ hnot ↦ absurd hfds hnot) fun hsucceed ↦ absurd hsucceed.2.2.2 hstatuses)
  · rw [not_or, not_not, not_not] at hhandle
    exact iff_of_false (fun hall ↦ hall) fun hguard ↦
      hguard.pointer hhandle.1 hhandle.2 hfds hpointer
  · exact iff_of_true (allOrNothing_early hmalloc) (initGuard_early (fun _ _ _ ↦ hpointer)
      fun hsucceed ↦ absurd hsucceed.2.2.1 hfds)

/-- Every `malloc` succeeds. -/
def allAllocated : Allocations := ⟨true, true, true, true, true⟩

/-- No socket can be opened. -/
def noSocket : ConnectEnv where
  socket _ := -1
  socket_new _ hnonneg := absurd hnonneg (by decide)
  errno := 24
  connectTimeout := 0
  timedOut := false

/-- A server at which a connection attempt times out. -/
def timingOut : ConnectEnv := { listening with connectTimeout := -1, timedOut := true }

/-- No socket for the second of two connections, and memory that is zero: the first connection is
closed. -/
theorem init_allOrNothing_no_socket :
    AllOrNothing 2 [0, 1, 2] (sckCltPoolInitTraced ⟨80, 2, 5⟩ ⟨0, #v[0, 0], #v[0, 0]⟩ allAllocated 0
      (fun attempt ↦ if attempt = 0 then listening else noSocket) [0, 1, 2]) := by
  refine (init_allOrNothing_iff ⟨80, 2, 5⟩ (by decide) ⟨0, #v[0, 0], #v[0, 0]⟩ allAllocated 0
    (fun attempt ↦ if attempt = 0 then listening else noSocket) [0, 1, 2]).mpr ⟨?_, ?_, ?_⟩
  · exact fun _ _ hnot ↦ absurd rfl hnot
  · intro _ _ hpasses
    have hsecond := (hpasses 1 (by decide)).2
    rw [if_neg (by decide +kernel)] at hsecond
    exact absurd hsecond (by decide)
  · intro _ _ failed hless hbefore hfails
    obtain rfl | rfl : failed = 0 ∨ failed = 1 := by
      change failed < 2 at hless
      omega
    · exact absurd ⟨by decide, rfl⟩ hfails
    · exact ⟨by decide +kernel, by decide +kernel⟩

/-- The second of two attempts times out: the first connection is closed, and the socket 4 is not.
-/
theorem init_leaks_socket :
    sckCltPoolInitTraced ⟨80, 2, 5⟩ ⟨0, #v[0, 0], #v[0, 0]⟩ allAllocated 0
        (fun attempt ↦ if attempt = 0 then listening else timingOut) [0, 1, 2] =
      .ok ⟨errPoolCreateConn, none, [4, 3, 0, 1, 2], [3]⟩ ∧
    ¬∀ (param : PoolParam) (memory : Memory param.bounds) (allocations : Allocations) (startup : ℤ)
      (envs : ℕ → ConnectEnv) (opened : List ℤ), 1 ≤ param.bounds →
      AllOrNothing param.bounds opened
        (sckCltPoolInitTraced param memory allocations startup envs opened) := by
  have hinit : sckCltPoolInitTraced ⟨80, 2, 5⟩ ⟨0, #v[0, 0], #v[0, 0]⟩ allAllocated 0
      (fun attempt ↦ if attempt = 0 then listening else timingOut) [0, 1, 2] =
        .ok ⟨errPoolCreateConn, none, [4, 3, 0, 1, 2], [3]⟩ := rfl
  refine ⟨hinit, fun hall ↦ ?_⟩
  have hclean := hall ⟨80, 2, 5⟩ ⟨0, #v[0, 0], #v[0, 0]⟩ allAllocated 0
    (fun attempt ↦ if attempt = 0 then listening else timingOut) [0, 1, 2] (by decide)
  rw [hinit] at hclean
  obtain ⟨created, hcreated, hperm⟩ := hclean.2 (show errPoolCreateConn ≠ 0 by decide)
  have hlength := congrArg List.length hcreated
  rw [List.length_append, ← hperm.length_eq] at hlength
  exact absurd hlength (by decide)

end Exc.Socket
