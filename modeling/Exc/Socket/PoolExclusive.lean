import Exc.Socket.Poolsocket

/-!
# Connections are held by one client

In a pool that `sckCltPool_init` has filled, no descriptor is at two places: it is free at one
index, or one client holds it. `PoolInvariant` says so, and that there is room in the pool for
everything that clients hold.

The rules `PoolInvariant.take`, `release`, `close`, `connect` and `push` are what the calls are made
of. `connectLoop_invariant` is about the loop of `sckCltPool_init`, `getConnet_spec` and
`putConnet_spec` are about the calls of clients, and `pool_exclusive` is about runs. The
branches for a broken connection at the end of the free ones, for a descriptor that is already in
the pool and for a full pool turn out to be dead.
-/

set_option autoImplicit false
set_option relaxedAutoImplicit false

namespace Exc.Socket

open Lib

/-! ### The array -/

/-- The free descriptors. -/
def Pool.free (pool : Pool) : List ℤ := pool.fdArray.take pool.valid

/-- The pool with one more free descriptor. -/
def Pool.push (pool : Pool) (fd : ℤ) : Pool :=
  { pool with
    fdArray := pool.fdArray.set pool.valid fd
    statusArray := pool.statusArray.set pool.valid 1
    valid := pool.valid + 1 }

@[simp] theorem Pool.leave_enter (pool : Pool) : pool.enter.leave = pool := by
  simp [Pool.enter, Pool.leave]

theorem take_succ_set {array : List ℤ} {index : ℕ} (hindex : index < array.length) (value : ℤ) :
    (array.set index value).take (index + 1) = array.take index ++ [value] := by
  rw [List.take_add_one, List.take_set_of_le le_rfl, List.getElem?_set_self hindex]
  rfl

theorem Pool.free_push {pool : Pool} (hroom : pool.valid < pool.fdArray.length) (fd : ℤ) :
    (pool.push fd).free = pool.free ++ [fd] := take_succ_set hroom fd

theorem readAt_eq {array : List ℤ} {index : ℕ} (hindex : index < array.length) :
    readAt array index = .ok array[index] := by
  rw [readAt, List.getElem?_eq_getElem hindex]

theorem writeAt_eq {array : List ℤ} {index : ℕ} (hindex : index < array.length) (value : ℤ) :
    writeAt array index value = .ok (array.set index value) := if_pos hindex

theorem haveExist_eq {connfd : ℤ} {count : ℕ} {fds : List ℤ} (hcount : count ≤ fds.length) :
    haveExist connfd count fds = .ok (decide (connfd ∈ fds.take count)) := by
  induction count generalizing fds with
  | zero => rfl
  | succ count ih =>
    obtain _ | ⟨fd, fds⟩ := fds
    · simp at hcount
    · rw [haveExist]
      split_ifs with hfd
      · simp [hfd]
      · rw [ih (by simpa using hcount)]
        simp [Ne.symm hfd]

/-! ### Connecting -/

/-- A connection attempt closes nothing. When it returns 0 it stores a new descriptor, or `socket`
failed and left 0 in `errno`. -/
theorem sckClientConnect_spec (port connecttime : ℤ) (env : ConnectEnv) (opened : List ℤ) :
    (∀ fd ∈ opened, fd ∈ (sckClientConnect port connecttime env opened).opened) ∧
    ((sckClientConnect port connecttime env opened).ret = 0 →
      (∃ fd, 0 ≤ fd ∧ fd ∉ opened ∧
        sckClientConnect port connecttime env opened = ⟨0, some fd, fd :: opened⟩) ∨
      env.errno = 0 ∧ sckClientConnect port connecttime env opened = ⟨0, none, opened⟩) := by
  have herr : errParam ≠ 0 ∧ errTimeOut ≠ 0 := by decide
  unfold sckClientConnect
  dsimp only
  split_ifs with hparam hsocket htimeout hlate
  · exact ⟨fun _ hfd ↦ hfd, fun hret ↦ absurd hret herr.1⟩
  · exact ⟨fun _ hfd ↦ hfd, fun hret ↦ .inr ⟨hret, by rw [← hret]⟩⟩
  · exact ⟨fun _ hfd ↦ List.mem_cons_of_mem _ hfd, fun hret ↦ absurd hret herr.2⟩
  · exact ⟨fun _ hfd ↦ List.mem_cons_of_mem _ hfd, fun hret ↦ absurd hret htimeout.ne⟩
  · refine ⟨fun _ hfd ↦ List.mem_cons_of_mem _ hfd, fun hret ↦ ?_⟩
    exact .inl ⟨env.socket opened, by omega, env.socket_new opened (by omega), by rw [← hret]⟩

/-! ### The invariant -/

/-- The two arrays of a pool have their length, and the free entries are in them. -/
structure PoolFits (pool : Pool) : Prop where
  fds_length : pool.fdArray.length = pool.bounds
  statuses_length : pool.statusArray.length = pool.bounds
  valid_le : pool.valid ≤ pool.bounds

/-- The shape of a pool: besides, the free entries have status 1. -/
structure PoolShape (pool : Pool) : Prop extends PoolFits pool where
  status : ∀ status ∈ pool.statusArray.take pool.valid, status = 1

variable {Client : Type} {pool : Pool} {opened later : List ℤ} {held : List (Client × ℤ)}
  {client : Client} {fd : ℤ}

/-- The descriptors that are free or held. -/
def inUse (pool : Pool) (held : List (Client × ℤ)) : List ℤ := pool.free ++ held.map Prod.snd

/-- What holds in every state of every run: of the pool, the descriptors that are open, and those
that clients hold. -/
structure PoolInvariant (pool : Pool) (opened : List ℤ) (held : List (Client × ℤ)) : Prop extends
    PoolShape pool where
  room : pool.valid + held.length ≤ pool.bounds
  distinct : (inUse pool held).Nodup
  inUse_opened : ∀ fd ∈ inUse pool held, 0 ≤ fd ∧ fd ∈ opened

/-- More descriptors are open. -/
theorem PoolInvariant.open (h : PoolInvariant pool opened held)
    (hopened : ∀ fd ∈ opened, fd ∈ later) : PoolInvariant pool later held :=
  ⟨h.toPoolShape, h.room, h.distinct,
    fun fd hfd ↦ ⟨(h.inUse_opened fd hfd).1, hopened fd (h.inUse_opened fd hfd).2⟩⟩

/-- A descriptor that is not in use is closed. -/
theorem PoolInvariant.close (h : PoolInvariant pool opened held)
    (hunused : fd ∉ inUse pool held) :
    PoolInvariant pool (sckClientCloseconn fd opened) held := by
  refine ⟨h.toPoolShape, h.room, h.distinct, fun other hother ↦ ?_⟩
  obtain ⟨hpos, hopened⟩ := h.inUse_opened other hother
  refine ⟨hpos, ?_⟩
  unfold sckClientCloseconn
  split_ifs
  · have hne : other ≠ fd := fun heq ↦ hunused (heq ▸ hother)
    exact List.mem_filter.mpr ⟨hopened, by simpa using hne⟩
  · exact hopened

/-- A descriptor is entered. -/
theorem PoolShape.push (h : PoolShape pool) (hroom : pool.valid < pool.bounds) (fd : ℤ) :
    PoolShape (pool.push fd) := by
  have hstatuses : pool.valid < pool.statusArray.length := hroom.trans_eq h.statuses_length.symm
  refine ⟨⟨(List.length_set ..).trans h.fds_length, (List.length_set ..).trans h.statuses_length,
    hroom⟩, fun status hstatus ↦ ?_⟩
  rw [Pool.push, take_succ_set hstatuses, List.mem_append, List.mem_singleton] at hstatus
  exact hstatus.elim (h.status status) id

/-- A new descriptor becomes free. -/
theorem PoolInvariant.push (h : PoolInvariant pool opened held)
    (hroom : pool.valid + held.length < pool.bounds) (hpos : 0 ≤ fd) (hopened : fd ∈ opened)
    (hunused : fd ∉ inUse pool held) :
    PoolInvariant (pool.push fd) opened held := by
  have hfds : pool.valid < pool.fdArray.length := by
    have hlength := h.fds_length
    omega
  have hshape := h.toPoolShape.push (by omega) fd
  have hperm : (inUse (pool.push fd) held).Perm (fd :: inUse pool held) := by
    simp only [inUse, Pool.free_push hfds, List.append_assoc, List.singleton_append]
    exact List.perm_middle
  refine ⟨hshape, ?_, ?_, ?_⟩
  · change pool.valid + 1 + held.length ≤ pool.bounds
    omega
  · exact hperm.nodup_iff.mpr (List.nodup_cons.mpr ⟨hunused, h.distinct⟩)
  · intro other hother
    rcases List.mem_cons.mp (hperm.mem_iff.mp hother) with rfl | hold
    · exact ⟨hpos, hopened⟩
    · exact h.inUse_opened other hold

/-- The array at the last free descriptor. -/
theorem PoolShape.last {rest : List ℤ} (h : PoolShape pool) (hfree : pool.free = rest ++ [fd]) :
    pool.fdArray.take (pool.valid - 1) = rest ∧
      pool.fdArray.drop (pool.valid - 1) = fd :: pool.fdArray.drop pool.valid := by
  have hlength := congrArg List.length hfree
  have hbound := h.valid_le
  have hfds := h.fds_length
  simp only [Pool.free, List.length_take, List.length_append, List.length_singleton] at hlength
  have hsplit : pool.fdArray = rest ++ fd :: pool.fdArray.drop pool.valid := by
    rw [List.append_cons, ← hfree]
    exact (List.take_append_drop pool.valid pool.fdArray).symm
  constructor
  · exact (congrArg _ hsplit).trans (List.take_left' (by omega))
  · exact (congrArg _ hsplit).trans (List.drop_left' (by omega))

/-- The last descriptor is taken out. -/
theorem PoolShape.take (h : PoolShape pool) : PoolShape { pool with valid := pool.valid - 1 } where
  fds_length := h.fds_length
  statuses_length := h.statuses_length
  status := fun status hstatus ↦
    h.status status ((List.take_prefix_take_left (Nat.sub_le pool.valid 1)).subset hstatus)
  valid_le := (Nat.sub_le _ _).trans h.valid_le

/-- The last free descriptor goes to a client. -/
theorem PoolInvariant.take {rest : List ℤ} (h : PoolInvariant pool opened held)
    (hvalid : pool.valid ≠ 0) (hfree : pool.free = rest ++ [fd]) (client : Client) :
    PoolInvariant { pool with valid := pool.valid - 1 } opened (held ++ [(client, fd)]) := by
  obtain ⟨hrest, -⟩ := h.toPoolShape.last hfree
  have hperm : (inUse { pool with valid := pool.valid - 1 } (held ++ [(client, fd)])).Perm
      (inUse pool held) := by
    simp only [inUse, Pool.free, hrest]
    rw [← Pool.free, hfree, List.map_append, List.append_assoc]
    exact List.perm_append_comm.append_left rest
  refine ⟨h.toPoolShape.take, ?_, ?_, ?_⟩
  · have hroom := h.room
    simp only [List.length_append, List.length_singleton] at hroom ⊢
    omega
  · exact hperm.nodup_iff.mpr h.distinct
  · exact fun other hother ↦ h.inUse_opened other (hperm.mem_iff.mp hother)

/-- A client gives up a descriptor: it is open and no longer in use, and there is room for it. -/
theorem PoolInvariant.release [DecidableEq Client] (h : PoolInvariant pool opened held)
    (hheld : (client, fd) ∈ held) :
    PoolInvariant pool opened (held.erase (client, fd)) ∧ 0 ≤ fd ∧ fd ∈ opened ∧
      fd ∉ inUse pool (held.erase (client, fd)) ∧
      pool.valid + (held.erase (client, fd)).length < pool.bounds := by
  have hperm : (inUse pool held).Perm
      (fd :: inUse pool (held.erase (client, fd))) := by
    refine List.Perm.trans ?_ List.perm_middle
    exact ((List.perm_cons_erase hheld).map Prod.snd).append_left _
  have hdistinct := List.nodup_cons.mp (hperm.nodup_iff.mp h.distinct)
  have hlength := List.length_erase_of_mem hheld
  have hpos := List.length_pos_of_mem hheld
  have hroom := h.room
  refine ⟨⟨h.toPoolShape, ?_, hdistinct.2, ?_⟩, ?_, ?_, hdistinct.1, ?_⟩
  · omega
  · intro other hother
    exact h.inUse_opened other (hperm.mem_iff.mpr (List.mem_cons_of_mem _ hother))
  · exact (h.inUse_opened fd (hperm.mem_iff.mpr List.mem_cons_self)).1
  · exact (h.inUse_opened fd (hperm.mem_iff.mpr List.mem_cons_self)).2
  · omega

/-- A connection attempt: the pool stays as it is, and a new descriptor can become free. -/
theorem PoolInvariant.connect (h : PoolInvariant pool opened held) {env : ConnectEnv}
    (herrno : env.errno ≠ 0) (hroom : pool.valid + held.length < pool.bounds) :
    let made := sckClientConnect pool.serverport pool.connecttime env opened
    PoolInvariant pool made.opened held ∧
      (made.ret = 0 → ∃ fd, made.connfd = some fd ∧
        PoolInvariant (pool.push fd) made.opened held) := by
  intro made
  obtain ⟨hopened, hmade⟩ := sckClientConnect_spec pool.serverport pool.connecttime env opened
  refine ⟨h.open hopened, fun hret ↦ ?_⟩
  obtain ⟨fd, hpos, hnew, heq⟩ := (hmade hret).resolve_right fun hzero ↦ herrno hzero.1
  have hmade : made = ⟨0, some fd, fd :: opened⟩ := heq
  refine ⟨fd, by rw [hmade], ?_⟩
  rw [hmade]
  exact (h.open fun _ hother ↦ List.mem_cons_of_mem _ hother).push hroom hpos List.mem_cons_self
    fun hused ↦ hnew (h.inUse_opened fd hused).2

/-! ### Making a pool -/

/-- A write behind the free descriptors. -/
theorem PoolInvariant.set (h : PoolInvariant pool opened held) (fd : ℤ) :
    PoolInvariant { pool with fdArray := pool.fdArray.set pool.valid fd } opened held := by
  have hfree : ({ pool with fdArray := pool.fdArray.set pool.valid fd } : Pool).free = pool.free :=
    List.take_set_of_le le_rfl
  have hinUse : inUse { pool with fdArray := pool.fdArray.set pool.valid fd } held =
      inUse pool held :=
    congrArg (· ++ held.map Prod.snd) hfree
  exact ⟨⟨⟨(List.length_set ..).trans h.fds_length, h.statuses_length, h.valid_le⟩, h.status⟩,
    h.room, hinUse ▸ h.distinct, hinUse ▸ h.inUse_opened⟩

/-- The loop of `sckCltPool_init` keeps the invariant. -/
theorem connectLoop_invariant {envs : ℕ → ConnectEnv} (herrno : ∀ attempt, (envs attempt).errno ≠ 0)
    (remaining : ℕ) (h : PoolInvariant pool opened held)
    (hroom : pool.valid + held.length + remaining ≤ pool.bounds) :
    PoolInvariant (connectLoop envs remaining pool opened).1
      (connectLoop envs remaining pool opened).2 held := by
  induction remaining generalizing pool opened with
  | zero => exact h
  | succ remaining ih =>
    obtain ⟨hopened, hpush⟩ := h.connect (herrno pool.valid) (by omega)
    rw [connectLoop]
    split_ifs with hret
    · split
      · exact hopened.set _
      · exact hopened
    · obtain ⟨fd, hfd, hpushed⟩ := hpush (not_not.mp hret)
      rw [hfd]
      refine ih hpushed ?_
      change pool.valid + 1 + held.length + remaining ≤ pool.bounds
      omega

/-- A pool without connections. -/
theorem empty_invariant (hfds : pool.fdArray.length = pool.bounds)
    (hstatuses : pool.statusArray.length = pool.bounds) (hvalid : pool.valid = 0) :
    PoolInvariant pool opened ([] : List (Client × ℤ)) where
  fds_length := hfds
  statuses_length := hstatuses
  valid_le := hvalid.trans_le (Nat.zero_le _)
  status := fun status hstatus ↦ by simp [hvalid] at hstatus
  room := by simp [hvalid]
  distinct := by simp [inUse, Pool.free, hvalid]
  inUse_opened := fun fd hfd ↦ by simp [inUse, Pool.free, hvalid] at hfd

theorem PoolShape.leave (h : PoolShape pool) : PoolShape pool.leave :=
  ⟨⟨h.fds_length, h.statuses_length, h.valid_le⟩, h.status⟩

theorem PoolInvariant.leave (h : PoolInvariant pool opened held) :
    PoolInvariant pool.leave opened held :=
  ⟨h.toPoolShape.leave, h.room, h.distinct, h.inUse_opened⟩

/-- A pool that `sckCltPool_init` returns is what the loop leaves, and it is full. -/
theorem sckCltPoolInit_full {param : PoolParam} {memory : Memory param.bounds} {startup : ℤ}
    {envs : ℕ → ConnectEnv}
    (hinit : sckCltPoolInit param memory startup envs opened = (0, some pool, later)) :
    ∃ full, connectLoop envs param.bounds memory.pool.enter opened = (full, later) ∧
      full.bounds ≤ full.valid ∧ pool = full.leave := by
  unfold sckCltPoolInit at hinit
  dsimp only at hinit
  split_ifs at hinit with hstartup hvalid
  · cases hinit
  · cases hinit
  · cases hinit
    exact ⟨_, rfl, not_lt.mp hvalid, rfl⟩

/-- A pool that `sckCltPool_init` returns meets the invariant, with no client yet. -/
theorem sckCltPoolInit_invariant {param : PoolParam} {memory : Memory param.bounds} {startup : ℤ}
    {envs : ℕ → ConnectEnv} (herrno : ∀ attempt, (envs attempt).errno ≠ 0)
    (hinit : sckCltPoolInit param memory startup envs opened = (0, some pool, later)) :
    PoolInvariant pool later ([] : List (Client × ℤ)) := by
  obtain ⟨full, hloop, -, rfl⟩ := sckCltPoolInit_full hinit
  have hempty : PoolInvariant memory.pool.enter opened ([] : List (Client × ℤ)) :=
    empty_invariant memory.fdArray.length_toList memory.statusArray.length_toList rfl
  have hinvariant := connectLoop_invariant herrno param.bounds hempty (Nat.zero_add _).le
  rw [hloop] at hinvariant
  exact hinvariant.leave

/-! ### Calls -/

theorem getConnet_terminated (hterminated : pool.terminated = 1) (env : ConnectEnv)
    (opened : List ℤ) :
    sckCltPoolGetConnet false false env pool opened =
      .ok ⟨errPoolTerminated, none, pool, opened⟩ := by
  rw [sckCltPoolGetConnet, if_neg (by simp),
    if_pos (show pool.enter.terminated = 1 from hterminated), Pool.leave_enter]

theorem getConnet_empty (hrunning : pool.terminated ≠ 1) (hvalid : pool.valid = 0)
    (env : ConnectEnv) (opened : List ℤ) :
    sckCltPoolGetConnet false false env pool opened =
      .ok ⟨errPoolGetConnValidIsZero, none, pool, opened⟩ := by
  rw [sckCltPoolGetConnet, if_neg (by simp),
    if_neg (show ¬pool.enter.terminated = 1 from hrunning),
    if_pos (show pool.enter.valid = 0 from hvalid), Pool.leave_enter]

/-- `sckCltPool_getConnet` fails on an empty pool and changes nothing, or hands out the last free
descriptor. -/
theorem getConnet_spec (h : PoolShape pool) (hrunning : pool.terminated ≠ 1) (env : ConnectEnv)
    (opened : List ℤ) :
    pool.valid = 0 ∧ sckCltPoolGetConnet false false env pool opened =
      .ok ⟨errPoolGetConnValidIsZero, none, pool, opened⟩ ∨
    ∃ rest fd, pool.valid ≠ 0 ∧ pool.free = rest ++ [fd] ∧
      sckCltPoolGetConnet false false env pool opened =
        .ok ⟨0, some fd, { pool with valid := pool.valid - 1 }, opened⟩ := by
  have hterminated : ¬ pool.enter.terminated = 1 := hrunning
  by_cases hvalid : pool.valid = 0
  · exact Or.inl ⟨hvalid, getConnet_empty hrunning hvalid env opened⟩
  · have hfds := h.fds_length
    have hstatuses := h.statuses_length
    have hroom := h.valid_le
    have hfd : pool.valid - 1 < pool.fdArray.length := by omega
    have hstatus : pool.valid - 1 < pool.statusArray.length := by omega
    have hone : pool.statusArray[pool.valid - 1] = 1 :=
      h.status _ (List.mem_take_iff_getElem.mpr ⟨pool.valid - 1, by omega, rfl⟩)
    refine Or.inr ⟨pool.fdArray.take (pool.valid - 1), pool.fdArray[pool.valid - 1], hvalid, ?_, ?_⟩
    · rw [Pool.free, ← List.take_succ_eq_append_getElem hfd, Nat.sub_add_cancel (by omega)]
    · have hread : readAt pool.enter.statusArray (pool.enter.valid - 1) = .ok 1 :=
        (readAt_eq hstatus).trans (by rw [hone])
      have htake : readAt pool.enter.fdArray (pool.enter.valid - 1) =
          .ok pool.fdArray[pool.valid - 1] := readAt_eq hfd
      rw [sckCltPoolGetConnet, if_neg (by simp), if_neg hterminated,
        if_neg (show ¬ pool.enter.valid = 0 from hvalid)]
      simp only [hread, htake, takeLast, bind, Except.bind, pure, Except.pure, one_ne_zero,
        if_false]
      simp [Pool.enter, Pool.leave]

theorem putLast_eq (h : PoolFits pool) (hroom : pool.valid < pool.bounds) (fd : ℤ)
    (later : List ℤ) : putLast pool.enter fd later = .ok ⟨0, none, pool.push fd, later⟩ := by
  have hfds : pool.enter.valid < pool.enter.fdArray.length := hroom.trans_eq h.fds_length.symm
  have hstatuses : pool.enter.valid < pool.enter.statusArray.length :=
    hroom.trans_eq h.statuses_length.symm
  rw [putLast, writeAt_eq hfds, writeAt_eq hstatuses]
  simp [bind, Except.bind, pure, Except.pure, Pool.enter, Pool.leave, Pool.push]

/-- `sckCltPool_putConnet` changes nothing when the descriptor is free or the pool is full. It
enters a descriptor that is said to be valid, and another one it closes and tries to replace. When
it fails the pool stays as it is. -/
theorem putConnet_spec (h : PoolFits pool) (hrunning : pool.terminated ≠ 1) (hpos : 0 ≤ fd)
    (validFlag : ℤ) (env : ConnectEnv) (opened : List ℤ) :
    ∃ result, sckCltPoolPutConnet false fd validFlag env pool opened = .ok result ∧
      (result.ret ≠ 0 → result.pool = pool) ∧
      ((fd ∈ pool.free ∨ pool.bounds ≤ pool.valid) ∧ result.pool = pool ∧ result.opened = opened ∨
        fd ∉ pool.free ∧ pool.valid < pool.bounds ∧
          (validFlag = 1 ∧ result.pool = pool.push fd ∧ result.opened = opened ∨
            validFlag ≠ 1 ∧
              ∃ made, made = sckClientConnect pool.serverport pool.connecttime env
                  (sckClientCloseconn fd opened) ∧
                result.opened = made.opened ∧
                (made.ret ≠ 0 ∧ result.pool = pool ∨
                  made.ret = 0 ∧ result.pool = pool.push (made.connfd.getD 0)))) := by
  have hterminated : ¬ pool.enter.terminated = 1 := hrunning
  have hexist : haveExist fd pool.enter.valid pool.enter.fdArray = .ok (decide (fd ∈ pool.free)) :=
    haveExist_eq (h.valid_le.trans_eq h.fds_length.symm)
  rw [sckCltPoolPutConnet, if_neg (by simpa using hpos), if_neg hterminated]
  simp only [hexist, bind, Except.bind, decide_eq_true_eq]
  split_ifs with hfree hbounds hflag hret
  · exact ⟨_, rfl, fun _ ↦ Pool.leave_enter pool, .inl ⟨.inl hfree, Pool.leave_enter pool, rfl⟩⟩
  · exact ⟨_, rfl, fun _ ↦ Pool.leave_enter pool, .inl ⟨.inr hbounds, Pool.leave_enter pool, rfl⟩⟩
  · exact ⟨_, putLast_eq h (not_le.mp hbounds) fd opened, fun hzero ↦ absurd rfl hzero,
      .inr ⟨hfree, not_le.mp hbounds, .inl ⟨hflag, rfl, rfl⟩⟩⟩
  · exact ⟨_, rfl, fun _ ↦ Pool.leave_enter pool, .inr ⟨hfree, not_le.mp hbounds, .inr ⟨hflag, _,
      rfl, rfl, .inl ⟨hret, Pool.leave_enter pool⟩⟩⟩⟩
  · exact ⟨_, putLast_eq h (not_le.mp hbounds) _ _, fun hzero ↦ absurd rfl hzero,
      .inr ⟨hfree, not_le.mp hbounds, .inr ⟨hflag, _, rfl, rfl, .inr ⟨not_not.mp hret, rfl⟩⟩⟩⟩

variable [DecidableEq Client]

/-- `sckCltPool_putConnet` of a descriptor that the client holds returns and keeps the invariant. -/
theorem putConnet_invariant (h : PoolInvariant pool opened held) (hrunning : pool.terminated = 0)
    (hheld : (client, fd) ∈ held) (validFlag : ℤ) {env : ConnectEnv} (herrno : env.errno ≠ 0) :
    ∃ result, sckCltPoolPutConnet false fd validFlag env pool opened = .ok result ∧
      PoolInvariant result.pool result.opened (held.erase (client, fd)) ∧
      result.pool.terminated = 0 := by
  obtain ⟨hrelease, hpos, hopened, hunused, hroom⟩ := h.release hheld
  obtain ⟨result, hput, -, hcases⟩ :=
    putConnet_spec h.toPoolFits (by rw [hrunning]; decide) hpos validFlag env opened
  refine ⟨result, hput, ?_⟩
  obtain ⟨hdead, -⟩ | ⟨-, -, ⟨-, hpool, hafter⟩ | ⟨-, made, hmade, hafter, hpool⟩⟩ := hcases
  · obtain hfree | hfull := hdead
    · exact absurd (List.mem_append_left _ hfree) hunused
    · omega
  · rw [hpool, hafter]
    exact ⟨hrelease.push hroom hpos hopened hunused, hrunning⟩
  · obtain ⟨hclosed, hpush⟩ := (hrelease.close hunused).connect herrno hroom
    rw [← hmade] at hclosed hpush
    rw [hafter]
    obtain ⟨-, hpool⟩ | ⟨hret, hpool⟩ := hpool
    · rw [hpool]
      exact ⟨hclosed, hrunning⟩
    · obtain ⟨new, hnew, hpushed⟩ := hpush hret
      rw [hpool, hnew]
      exact ⟨hpushed, hrunning⟩

/-- Every allowed call returns and keeps the invariant. -/
theorem call_invariant {state : PoolState Client} {action : PoolAction Client}
    (h : PoolInvariant state.pool state.opened state.held) (hrunning : state.pool.terminated = 0)
    (hallowed : action.Allowed state) :
    ∃ result, call state action = .ok result ∧
      PoolInvariant result.pool result.opened result.held ∧ result.pool.terminated = 0 := by
  cases action with
  | get client env =>
    obtain ⟨-, hnone⟩ | ⟨rest, fd, hvalid, hfree, hsome⟩ :=
      getConnet_spec h.toPoolShape (by rw [hrunning]; decide) env state.opened
    · refine ⟨state, ?_, h, hrunning⟩
      simp [call, hnone, bind, Except.bind, pure, Except.pure]
    · refine ⟨⟨{ state.pool with valid := state.pool.valid - 1 }, state.opened,
        state.held ++ [(client, fd)]⟩, ?_, h.take hvalid hfree client, hrunning⟩
      rw [call, hsome]
      rfl
  | put client fd validFlag env =>
    obtain ⟨result, hput, hinvariant, hterminated⟩ :=
      putConnet_invariant h hrunning hallowed.1 validFlag hallowed.2
    exact ⟨_, by rw [call, hput]; rfl, hinvariant, hterminated⟩

/-! ### Runs -/

/-- No descriptor is at two places. Assumes: `sckCltPool_init` has filled the pool, its flag
`terminated` is 0, and each connection attempt fails or yields a new descriptor. In every state that
calls of clients lead to, in any order and with any outcomes of the connection attempts: there is
room for what clients hold; the free entries are distinct, open, have status 1 and are held by no
client; no two holds are of one descriptor, and what is held is open; and every call that is allowed
returns. -/
theorem pool_exclusive (param : PoolParam) (memory : Memory param.bounds) (startup : ℤ)
    (envs : ℕ → ConnectEnv) (opened : List ℤ)
    (herrno : ∀ attempt, (envs attempt).errno ≠ 0)
    (hinit : sckCltPoolInit param memory startup envs opened = (0, some pool, later))
    (hrunning : pool.terminated = 0) {actions : List (PoolAction Client)} {state : PoolState Client}
    (hrun : Run (stepOf nextCall) ⟨pool, later, []⟩ actions state) :
    state.pool.valid ≤ state.pool.bounds ∧
    state.pool.valid + state.held.length ≤ state.pool.bounds ∧
    state.pool.free.Nodup ∧
    (∀ fd ∈ state.pool.free, fd ∈ state.opened ∧ ∀ client, (client, fd) ∉ state.held) ∧
    (∀ status ∈ state.pool.statusArray.take state.pool.valid, status = 1) ∧
    (state.held.map Prod.snd).Nodup ∧
    (∀ hold ∈ state.held, hold.2 ∈ state.opened) ∧
    ∀ action, action.Allowed state → ∃ result, call state action = .ok result := by
  have hall : PoolInvariant state.pool state.opened state.held ∧ state.pool.terminated = 0 := by
    refine hrun.invariant
      (fun state ↦ PoolInvariant state.pool state.opened state.held ∧ state.pool.terminated = 0)
      ⟨sckCltPoolInit_invariant herrno hinit, hrunning⟩ ?_
    rintro state action next ⟨h, hterminated⟩ hnext
    rw [stepOf, nextCall] at hnext
    split_ifs at hnext with hallowed
    obtain ⟨result, hcall, hresult⟩ := call_invariant h hterminated hallowed
    rw [hcall] at hnext
    obtain rfl := Option.some.inj hnext
    exact hresult
  obtain ⟨h, hterminated⟩ := hall
  obtain ⟨hfree, hheld, hdisjoint⟩ := List.nodup_append.mp h.distinct
  refine ⟨(Nat.le_add_right _ _).trans h.room, h.room, hfree,
    fun fd hfd ↦ ⟨?_, fun client hhold ↦ ?_⟩, h.status, hheld, fun hold hhold ↦ ?_,
    fun action hallowed ↦ ?_⟩
  · exact (h.inUse_opened fd (List.mem_append_left _ hfd)).2
  · exact hdisjoint fd hfd fd (List.mem_map_of_mem (f := Prod.snd) hhold) rfl
  · exact (h.inUse_opened hold.2 (List.mem_append_right _ (List.mem_map_of_mem hhold))).2
  · obtain ⟨result, hcall, -⟩ := call_invariant h hterminated hallowed
    exact ⟨result, hcall⟩

theorem foldr_max_new (opened : List ℤ) : opened.foldr max 0 + 1 ∉ opened := by
  have hbound : ∀ fd ∈ opened, fd ≤ opened.foldr max 0 := by
    induction opened with
    | nil => exact fun fd hfd ↦ by cases hfd
    | cons first rest ih =>
      intro fd hfd
      rw [List.foldr_cons]
      rcases List.mem_cons.mp hfd with rfl | hrest
      · exact le_max_left _ _
      · exact (ih fd hrest).trans (le_max_right _ _)
  exact fun hmem ↦ absurd (hbound _ hmem) (by omega)

/-- A server that accepts connections; `socket` returns the next number. -/
def listening : ConnectEnv where
  socket opened := opened.foldr max 0 + 1
  socket_new opened _ := foldr_max_new opened
  errno := 1
  connectTimeout := 0
  timedOut := false

/-- A pool of two connections, both in use; one is put back as broken, and the connection that
replaces it goes to the client that asks next. -/
theorem pool_exclusive_replaced :
    ∃ pool opened, ∃ state : PoolState (Fin 2),
      sckCltPoolInit ⟨80, 2, 5⟩ ⟨0, #v[7, 7], #v[7, 7]⟩ 0 (fun _ ↦ listening) [0, 1, 2] =
        (0, some pool, opened) ∧
      pool.terminated = 0 ∧
      Run (stepOf nextCall) ⟨pool, opened, []⟩
        [.get 0 listening, .get 1 listening, .put 0 4 0 listening, .get 1 listening] state ∧
      state.held = [(1, 3), (1, 4)] ∧ (state.held.map Prod.snd).Nodup :=
  ⟨_, _, _, rfl, rfl, Run.of_eval (by decide +kernel), by decide +kernel,
    (pool_exclusive ⟨80, 2, 5⟩ ⟨0, #v[7, 7], #v[7, 7]⟩ 0 (fun _ ↦ listening) [0, 1, 2]
      (fun _ ↦ by decide) rfl rfl (Run.of_eval (by decide +kernel))).2.2.2.2.2.1⟩

end Exc.Socket
