import Exc.Socket.PoolDestroy
import Exc.Socket.PoolInit

/-!
# Calls that fail

Each of `sckCltPool_getConnet`, `sckCltPool_putConnet` and `sckCltPool_destroy` is to leave the
critical section as often as it enters it, and a call that fails is to leave the free descriptors as
they are. `sckCltPool_putConnet` with a null handle or a negative descriptor leaves the critical
section through `hdl`, which is null. A pool that is terminated takes what is put back, behind its
array if it is full, and `sckCltPool_putConnet` returns an error. When the connection that replaces
a broken one cannot be made, `sckCltPool_getConnet` writes 0 in its place.

`calls_balanced` says that this is all, for every pool whose arrays have their length, and what the
calls do there that return.
-/

set_option autoImplicit false
set_option relaxedAutoImplicit false

namespace Exc.Socket

/-! ### Destroying -/

/-- `sckCltPool_destroy` up to the point where it frees the handle: its result, and the pool. -/
def sckCltPoolDestroyLocked (handleNull : Bool) (pool : Pool) (opened : List ℤ) :
    Except PoolFault (DestroyResult × Pool) :=
  if handleNull then .ok (⟨errParam, [], opened⟩, pool)
  else do
    let pool := { pool.enter with terminated := 1 }
    let (closed, opened) ← closeLoop pool.bounds pool.fdArray opened
    pure (⟨0, closed, opened⟩, { pool with fdArray := [], statusArray := [] }.leave)

theorem sckCltPoolDestroyLocked_fst (handleNull : Bool) (pool : Pool) (opened : List ℤ) :
    (sckCltPoolDestroyLocked handleNull pool opened).map Prod.fst =
      sckCltPoolDestroy handleNull pool opened := by
  unfold sckCltPoolDestroyLocked sckCltPoolDestroy
  split_ifs
  · rfl
  · change Except.map Prod.fst (closeLoop pool.bounds pool.fdArray opened >>= _) = _
    cases closeLoop pool.bounds pool.fdArray opened <;> rfl

/-! ### What a call does -/

variable {pool : Pool} {opened : List ℤ}

/-- A call returns, with the critical section as it was; and when it fails, these descriptors are
free. -/
def Balanced (pool : Pool) (free : List ℤ) (outcome : Except PoolFault PoolResult) : Prop :=
  ∃ result, outcome = .ok result ∧ result.pool.depth = pool.depth ∧
    (result.ret ≠ 0 → result.pool.free = free)

/-- The last free descriptor is one that `sckCltPool_getConnet` replaces. -/
def Pool.LastBroken (pool : Pool) : Prop :=
  pool.terminated ≠ 1 ∧ 0 < pool.valid ∧ pool.statusArray[pool.valid - 1]? = some 0

instance (pool : Pool) : Decidable pool.LastBroken := inferInstanceAs (Decidable (_ ∧ _ ∧ _))

/-- A call that leaves the pool as it is. -/
theorem balanced_unchanged (ret : ℤ) (connfd : Option ℤ) (later : List ℤ) :
    Balanced pool pool.free (.ok ⟨ret, connfd, pool, later⟩) :=
  ⟨_, rfl, rfl, fun _ ↦ rfl⟩

/-- The call hands out the last free descriptor. -/
theorem takeLast_balanced (fdArray : List ℤ) (hlast : pool.valid - 1 < fdArray.length)
    (free : List ℤ) :
    Balanced pool free (takeLast { pool.enter with fdArray := fdArray } opened) := by
  have hread : readAt fdArray (pool.enter.valid - 1) = .ok fdArray[pool.valid - 1] :=
    readAt_eq hlast
  rw [takeLast, hread]
  exact ⟨_, rfl, add_sub_cancel_right pool.depth 1, fun hzero ↦ absurd rfl hzero⟩

theorem free_dropLast (hbound : pool.valid ≤ pool.fdArray.length) :
    pool.free.dropLast = pool.fdArray.take (pool.valid - 1) := by
  rw [Pool.free, List.dropLast_eq_take, List.length_take_of_le hbound, List.take_take,
    min_eq_left (Nat.sub_le _ _)]

/-- `sckCltPool_getConnet` cannot replace the last free descriptor, and it is not 0. -/
def Pool.LosesLast (pool : Pool) (env : ConnectEnv) (opened : List ℤ) : Prop :=
  pool.LastBroken ∧ (sckClientConnect pool.serverport pool.connecttime env opened).ret ≠ 0 ∧
    pool.fdArray[pool.valid - 1]? ≠ some 0

/-- `sckCltPool_getConnet` on a pool with a free descriptor: it writes 0 in the place of a broken
one that it cannot replace, or hands the last one out. -/
theorem getConnet_free (hfits : PoolFits pool) (hrunning : pool.terminated ≠ 1)
    (hvalid : 0 < pool.valid) (env : ConnectEnv) (opened : List ℤ) :
    (pool.LastBroken ∧ (sckClientConnect pool.serverport pool.connecttime env opened).ret ≠ 0 ∧
      ∃ result, sckCltPoolGetConnet false false env pool opened = .ok result ∧ result.ret ≠ 0 ∧
        result.pool = { pool with fdArray := pool.fdArray.set (pool.valid - 1) 0 }) ∨
    ¬(pool.LastBroken ∧ (sckClientConnect pool.serverport pool.connecttime env opened).ret ≠ 0) ∧
      ∀ free, Balanced pool free (sckCltPoolGetConnet false false env pool opened) := by
  obtain ⟨hfds, hstatuses, hbound⟩ := hfits
  have hflag : ¬pool.enter.terminated = 1 := hrunning
  have hfd : pool.valid - 1 < pool.fdArray.length := by omega
  have hstatus : pool.valid - 1 < pool.statusArray.length := by omega
  have hread : readAt pool.enter.statusArray (pool.enter.valid - 1) =
      .ok pool.statusArray[pool.valid - 1] := readAt_eq hstatus
  have hold : readAt pool.enter.fdArray (pool.enter.valid - 1) =
      .ok pool.fdArray[pool.valid - 1] := readAt_eq hfd
  have hwrite (value : ℤ) : writeAt pool.enter.fdArray (pool.enter.valid - 1) value =
      .ok (pool.fdArray.set (pool.valid - 1) value) := writeAt_eq hfd value
  have hclosed : (if pool.fdArray[pool.valid - 1] = 0 then
      sckClientCloseconn pool.fdArray[pool.valid - 1] opened else opened) = opened := by
    split_ifs with hzero
    · rw [hzero, sckClientCloseconn, if_neg (lt_irrefl 0)]
    · rfl
  have hbroken : pool.statusArray[pool.valid - 1] = 0 ↔ pool.LastBroken := by
    rw [Pool.LastBroken, List.getElem?_eq_getElem hstatus, Option.some.injEq]
    exact ⟨fun hzero ↦ ⟨hrunning, hvalid, hzero⟩, fun h ↦ h.2.2⟩
  rw [sckCltPoolGetConnet, if_neg (by simp), if_neg hflag,
    if_neg (show ¬pool.enter.valid = 0 from hvalid.ne')]
  simp only [hread, hold, hwrite, hclosed, bind, Except.bind, pure, Except.pure]
  by_cases hzero : pool.statusArray[pool.valid - 1] = 0
  · rw [if_pos hzero]
    by_cases hret : (sckClientConnect pool.serverport pool.connecttime env opened).ret = 0
    · refine .inr ⟨fun hboth ↦ hboth.2 hret, fun free ↦ ?_⟩
      rw [if_neg (show ¬(sckClientConnect pool.enter.serverport pool.enter.connecttime env
        opened).ret ≠ 0 from not_not_intro hret)]
      exact takeLast_balanced _ (hfd.trans_eq (List.length_set ..).symm) free
    · refine .inl ⟨hbroken.mp hzero, hret, _, if_pos hret, hret, ?_⟩
      simp [Pool.enter, Pool.leave]
  · rw [if_neg hzero]
    exact .inr ⟨fun hboth ↦ hzero (hbroken.mpr hboth.1),
      takeLast_balanced pool.fdArray hfd⟩

/-- To write 0 in the place of the last free descriptor. -/
theorem take_set_last (hvalid : 0 < pool.valid) (hbound : pool.valid ≤ pool.fdArray.length) :
    (pool.fdArray.set (pool.valid - 1) 0).take pool.valid = pool.free.dropLast ++ [0] := by
  have htake := take_succ_set (show pool.valid - 1 < pool.fdArray.length by omega) 0
  rw [Nat.sub_add_cancel hvalid] at htake
  rw [htake, free_dropLast hbound]

/-- The place held 0 before. -/
theorem dropLast_zero_iff (hvalid : 0 < pool.valid) (hbound : pool.valid ≤ pool.fdArray.length) :
    pool.free.dropLast ++ [0] = pool.free ↔ pool.fdArray[pool.valid - 1]? = some 0 := by
  have hlast : pool.valid - 1 < pool.fdArray.length := by omega
  have hfree : pool.free = pool.free.dropLast ++ [pool.fdArray[pool.valid - 1]] := by
    rw [free_dropLast hbound, ← List.take_succ_eq_append_getElem hlast, Nat.sub_add_cancel hvalid,
      Pool.free]
  rw [List.getElem?_eq_getElem hlast, Option.some.injEq]
  constructor
  · intro hzero
    simpa using (List.append_cancel_left (hzero.trans hfree)).symm
  · intro hzero
    rw [← hzero]
    exact hfree.symm

/-- `sckCltPool_getConnet`, when it returns at once and would not have replaced a descriptor. -/
theorem getConnet_unchanged {handleNull connfdNull : Bool} {env : ConnectEnv} {ret : ℤ}
    (hget : sckCltPoolGetConnet handleNull connfdNull env pool opened =
      .ok ⟨ret, none, pool, opened⟩)
    (hbroken : ¬(¬handleNull ∧ ¬connfdNull ∧ pool.LastBroken)) :
    Balanced pool
      (if ¬handleNull ∧ ¬connfdNull ∧ pool.LastBroken then pool.free.dropLast ++ [0] else pool.free)
      (sckCltPoolGetConnet handleNull connfdNull env pool opened) ∧
    (Balanced pool pool.free (sckCltPoolGetConnet handleNull connfdNull env pool opened) ↔
      ¬(¬handleNull ∧ ¬connfdNull ∧ pool.LosesLast env opened)) := by
  rw [if_neg hbroken, hget]
  exact ⟨balanced_unchanged ret none opened, iff_of_true (balanced_unchanged ret none opened)
    fun hloses ↦ hbroken ⟨hloses.1, hloses.2.1, hloses.2.2.1⟩⟩

/-- `sckCltPool_getConnet`, with any arguments. -/
theorem getConnet_balanced (hfits : PoolFits pool) (handleNull connfdNull : Bool)
    (env : ConnectEnv) (opened : List ℤ) :
    Balanced pool
      (if ¬handleNull ∧ ¬connfdNull ∧ pool.LastBroken then pool.free.dropLast ++ [0] else pool.free)
      (sckCltPoolGetConnet handleNull connfdNull env pool opened) ∧
    (Balanced pool pool.free (sckCltPoolGetConnet handleNull connfdNull env pool opened) ↔
      ¬(¬handleNull ∧ ¬connfdNull ∧ pool.LosesLast env opened)) := by
  have hfds : pool.valid ≤ pool.fdArray.length := hfits.valid_le.trans_eq hfits.fds_length.symm
  by_cases hnull : handleNull ∨ connfdNull
  · exact getConnet_unchanged (if_pos hnull) (by tauto)
  obtain ⟨rfl, rfl⟩ : handleNull = false ∧ connfdNull = false := by simpa using hnull
  by_cases hterminated : pool.terminated = 1
  · exact getConnet_unchanged (getConnet_terminated hterminated env opened)
      fun hbroken ↦ hbroken.2.2.1 hterminated
  by_cases hvalid : 0 < pool.valid
  · obtain ⟨hbroken, hret, result, hget, hfailed, hpool⟩ | ⟨hnot, hall⟩ :=
      getConnet_free hfits hterminated hvalid env opened
    · have hfree : result.pool.free = pool.free.dropLast ++ [0] := by
        rw [hpool]
        exact take_set_last hvalid hfds
      have hdepth : result.pool.depth = pool.depth := by rw [hpool]
      rw [if_pos ⟨by decide, by decide, hbroken⟩, hget]
      refine ⟨⟨result, rfl, hdepth, fun _ ↦ hfree⟩, ?_⟩
      rw [show (¬(¬(false = true) ∧ ¬(false = true) ∧ pool.LosesLast env opened)) ↔
        pool.fdArray[pool.valid - 1]? = some 0 by simp [Pool.LosesLast, hbroken, hret],
        ← dropLast_zero_iff hvalid hfds, ← hfree]
      constructor
      · rintro ⟨other, hother, -, hkept⟩
        obtain rfl := Except.ok.inj hother
        exact hkept hfailed
      · exact fun hkept ↦ ⟨result, rfl, hdepth, fun _ ↦ hkept⟩
    · exact ⟨hall _, iff_of_true (hall _) fun hloses ↦ hnot ⟨hloses.2.2.1, hloses.2.2.2.1⟩⟩
  · exact getConnet_unchanged
      (getConnet_empty hterminated (Nat.eq_zero_of_not_pos hvalid) env opened)
      fun hbroken ↦ hvalid hbroken.2.2.2.1

theorem depth_push (pool : Pool) (fd : ℤ) : (pool.push fd).depth = pool.depth := rfl

/-- `sckCltPool_putConnet` of a descriptor, into a pool that has room for it if it is terminated. -/
theorem putConnet_balanced (hfits : PoolFits pool) {connfd : ℤ} (hconnfd : 0 ≤ connfd)
    (hroom : pool.terminated = 1 → pool.valid < pool.bounds) (validFlag : ℤ) (env : ConnectEnv)
    (opened : List ℤ) :
    Balanced pool (if pool.terminated = 1 then pool.free ++ [connfd] else pool.free)
      (sckCltPoolPutConnet false connfd validFlag env pool opened) := by
  by_cases hterminated : pool.terminated = 1
  · have hfds := (hroom hterminated).trans_eq hfits.fds_length.symm
    have hwrite : writeAt pool.enter.fdArray pool.enter.valid connfd =
        .ok (pool.fdArray.set pool.valid connfd) := writeAt_eq hfds connfd
    rw [if_pos hterminated, sckCltPoolPutConnet, if_neg (by simpa using hconnfd),
      if_pos (show pool.enter.terminated = 1 from hterminated), hwrite]
    exact ⟨_, rfl, add_sub_cancel_right pool.depth 1, fun _ ↦ take_succ_set hfds connfd⟩
  · obtain ⟨result, hput, hfailed, hcases⟩ :=
      putConnet_spec hfits hterminated hconnfd validFlag env opened
    rw [if_neg hterminated]
    refine ⟨result, hput, ?_, fun hret ↦ congrArg Pool.free (hfailed hret)⟩
    obtain ⟨-, hpool, -⟩ | ⟨-, -, ⟨-, hpool, -⟩ | ⟨-, made, -, -, ⟨-, hpool⟩ | ⟨-, hpool⟩⟩⟩ :=
      hcases
    · rw [hpool]
    · rw [hpool, depth_push]
    · rw [hpool]
    · rw [hpool, depth_push]

/-- `sckCltPool_putConnet`, with any arguments. -/
theorem putConnet_balanced_iff (hfits : PoolFits pool) (handleNull : Bool) (connfd validFlag : ℤ)
    (env : ConnectEnv) (opened : List ℤ) :
    Balanced pool pool.free
        (sckCltPoolPutConnet handleNull connfd validFlag env pool opened) ↔
      ¬handleNull ∧ 0 ≤ connfd ∧ pool.terminated ≠ 1 := by
  constructor
  · rintro ⟨result, hput, -, hfree⟩
    have hparam : ¬(handleNull ∨ connfd < 0) := by
      intro hparam
      rw [sckCltPoolPutConnet, if_pos hparam] at hput
      cases hput
    refine ⟨fun hnull ↦ hparam (.inl hnull), not_lt.mp fun hneg ↦ hparam (.inr hneg),
      fun hterminated ↦ ?_⟩
    rw [sckCltPoolPutConnet, if_neg hparam,
      if_pos (show pool.enter.terminated = 1 from hterminated)] at hput
    by_cases hroom : pool.valid < pool.fdArray.length
    · -- the descriptor is entered
      have hwrite : writeAt pool.enter.fdArray pool.enter.valid connfd =
          .ok (pool.fdArray.set pool.valid connfd) := writeAt_eq hroom connfd
      rw [hwrite] at hput
      obtain rfl := Except.ok.inj hput
      have hentered := hfree (show errPoolTerminated ≠ 0 by decide)
      have hlength := congrArg List.length ((take_succ_set hroom connfd).symm.trans hentered)
      rw [List.length_append, Pool.free] at hlength
      exact absurd hlength (Nat.succ_ne_self _)
    · -- it is written behind the array
      have hwrite : writeAt pool.enter.fdArray pool.enter.valid connfd = .error .outOfBounds :=
        if_neg hroom
      rw [hwrite] at hput
      cases hput
  · rintro ⟨hnull, hconnfd, hrunning⟩
    obtain rfl : handleNull = false := by simpa using hnull
    have hbalanced := putConnet_balanced hfits hconnfd (fun hone ↦ absurd hone hrunning) validFlag
      env opened
    rwa [if_neg hrunning] at hbalanced

/-- `sckCltPool_destroy` leaves the critical section as often as it enters it. -/
theorem destroyLocked_balanced (hfits : PoolFits pool) (opened : List ℤ) :
    ∃ result, sckCltPoolDestroyLocked false pool opened = .ok result ∧
      result.2.depth = pool.depth := by
  obtain ⟨after, hloop⟩ := closeLoop_closed pool.fdArray opened
  rw [hfits.fds_length] at hloop
  refine ⟨(⟨0, pool.fdArray.filter (· ≠ 0), after⟩,
    { pool.enter with terminated := 1, fdArray := [], statusArray := [] }.leave), ?_,
    add_sub_cancel_right pool.depth 1⟩
  change (closeLoop pool.bounds pool.fdArray opened >>= _) = _
  rw [hloop]
  rfl

/-- Assumes: the arrays have their length, and the free entries are in them. A call of
`sckCltPool_getConnet` leaves the critical section as often as it enters it, and the free
descriptors as they are when it fails, unless it cannot replace a broken one. A call of
`sckCltPool_putConnet` does so when the arguments are right and the pool is not terminated, and
otherwise never. `sckCltPool_destroy` always leaves the critical section as often as it enters it,
and with a null handle it does not touch the pool, as `sckCltPool_getConnet` does not. What the
calls do that do not leave the free descriptors as they are: a broken one that
`sckCltPool_getConnet` could not replace becomes 0, and one that is put back into a pool that is
terminated and has room is entered. -/
theorem calls_balanced (pool : Pool) (hfits : PoolFits pool) (opened : List ℤ) (env : ConnectEnv) :
    (∀ handleNull connfdNull : Bool,
      Balanced pool pool.free (sckCltPoolGetConnet handleNull connfdNull env pool opened) ↔
        ¬(¬handleNull ∧ ¬connfdNull ∧ pool.LosesLast env opened)) ∧
    (∀ (handleNull : Bool) (connfd validFlag : ℤ),
      Balanced pool pool.free
          (sckCltPoolPutConnet handleNull connfd validFlag env pool opened) ↔
        ¬handleNull ∧ 0 ≤ connfd ∧ pool.terminated ≠ 1) ∧
    (∃ result, sckCltPoolDestroyLocked false pool opened = .ok result ∧
      result.2.depth = pool.depth) ∧
    (∀ connfdNull, sckCltPoolGetConnet true connfdNull env pool opened =
      .ok ⟨errParam, none, pool, opened⟩) ∧
    sckCltPoolDestroyLocked true pool opened = .ok (⟨errParam, [], opened⟩, pool) ∧
    (∀ handleNull connfdNull : Bool,
      Balanced pool
        (if ¬handleNull ∧ ¬connfdNull ∧ pool.LastBroken then pool.free.dropLast ++ [0]
        else pool.free)
        (sckCltPoolGetConnet handleNull connfdNull env pool opened)) ∧
    (∀ connfd validFlag, 0 ≤ connfd → (pool.terminated = 1 → pool.valid < pool.bounds) →
      Balanced pool (if pool.terminated = 1 then pool.free ++ [connfd] else pool.free)
        (sckCltPoolPutConnet false connfd validFlag env pool opened)) := by
  refine ⟨fun handleNull connfdNull ↦ ?_, fun handleNull connfd validFlag ↦ ?_, ?_,
    fun connfdNull ↦ if_pos (.inl rfl), if_pos rfl, fun handleNull connfdNull ↦ ?_,
    fun connfd validFlag hconnfd hroom ↦ ?_⟩
  · exact (getConnet_balanced hfits handleNull connfdNull env opened).2
  · exact putConnet_balanced_iff hfits handleNull connfd validFlag env opened
  · exact destroyLocked_balanced hfits opened
  · exact (getConnet_balanced hfits handleNull connfdNull env opened).1
  · exact putConnet_balanced hfits hconnfd hroom validFlag env opened

/-- A pool of two connections that is terminated, with room for one. -/
def terminatedPool : Pool := ⟨[5, 0], [1, 1], 1, 2, 80, 5, 0, 1⟩

/-- A pool with one connection, which is broken. -/
def brokenPool : Pool := ⟨[5], [0], 1, 1, 80, 5, 0, 0⟩

/-- A pool that is full and not terminated: nothing is entered. -/
theorem calls_balanced_full :
    Balanced ⟨[5], [1], 1, 1, 80, 5, 0, 0⟩ [5]
      (sckCltPoolPutConnet false 7 1 listening ⟨[5], [1], 1, 1, 80, 5, 0, 0⟩ [0, 1, 2, 5, 7]) :=
  (calls_balanced ⟨[5], [1], 1, 1, 80, 5, 0, 0⟩ ⟨rfl, rfl, le_rfl⟩ [0, 1, 2, 5, 7]
    listening).2.1 false 7 1 |>.mpr (by decide)

/-- A put into a pool that is terminated fails and enters the descriptor, and a get that cannot
replace a broken connection fails and writes 0. A put with a null handle, and one into a pool that
is terminated and full, do not return. -/
theorem failed_calls_have_effects :
    ¬Balanced terminatedPool terminatedPool.free
      (sckCltPoolPutConnet false 7 1 listening terminatedPool [0, 1, 2, 5, 7]) ∧
    ¬Balanced brokenPool brokenPool.free
      (sckCltPoolGetConnet false false timingOut brokenPool [0, 1, 2, 5]) ∧
    ¬Balanced brokenPool brokenPool.free
      (sckCltPoolPutConnet true 7 1 listening brokenPool [0, 1, 2, 5]) ∧
    ¬Balanced { brokenPool with terminated := 1 } brokenPool.free
      (sckCltPoolPutConnet false 7 1 listening { brokenPool with terminated := 1 }
        [0, 1, 2, 5, 7]) := by
  refine ⟨?_, ?_, ?_, ?_⟩
  · rintro ⟨result, hput, -, hfree⟩
    obtain rfl := Except.ok.inj hput
    exact absurd (hfree (by decide)) (by decide)
  · rintro ⟨result, hget, -, hfree⟩
    obtain rfl := Except.ok.inj hget
    exact absurd (hfree (by decide)) (by decide)
  · rintro ⟨result, hput, -⟩
    cases hput
  · rintro ⟨result, hput, -⟩
    cases hput

end Exc.Socket
