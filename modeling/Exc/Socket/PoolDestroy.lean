import Exc.Socket.PoolInit

/-!
# Destroying a pool

`sckCltPool_destroy` closes the descriptors of all `bounds` entries of the array, of which only the
first `valid` are free. The others are what was there before: `sckCltPool_getConnet` leaves the
descriptor that it hands out in its entry, and it stays there when the client puts it back elsewhere
or when `sckCltPool_putConnet` closes it. So a descriptor can be closed twice
(`destroy_closes_twice`).

Calls are made with any arguments here, also by clients that put back what they do not hold. For
each number `Whereabouts` keeps where the descriptor went last, and `HistoryInvariant` says that an
entry that is not free is 0 or names a descriptor that a client has or that was closed.
`PoolCall.InPlace` is a condition on a call: what it enters takes an entry of its own, and what it
puts back or closes stands in no entry behind that one. It holds of clients that put back what they
got last. `destroy_closes_once` says that in a run of such calls every descriptor is closed once,
and that the first call that does not meet the condition is one after which this fails.
-/

set_option autoImplicit false
set_option relaxedAutoImplicit false

namespace Exc.Socket

open Lib

/-! ### Where descriptors are -/

/-- Where a descriptor went last: into the pool, to a client, or `sckCltPool_putConnet` closed it.
-/
inductive Whereabouts
  | pool
  | client
  | closed
  deriving DecidableEq

/-- A pool and its history: the descriptors that are open, and where each went last. -/
structure PoolHistory where
  pool : Pool
  opened : List ℤ
  whereabouts : ℤ → Whereabouts

/-- The calls, with any arguments. -/
inductive PoolCall
  | get (env : ConnectEnv)
  | put (connfd validFlag : ℤ) (env : ConnectEnv)

/-- `sckCltPool_putConnet` comes to the point where it closes the descriptor. -/
def Pool.closesInPut (pool : Pool) (connfd validFlag : ℤ) : Bool :=
  pool.terminated ≠ 1 ∧ connfd ∉ pool.free ∧ pool.valid < pool.bounds ∧ validFlag ≠ 1 ∧ 0 < connfd

/-- What a call of `sckCltPool_putConnet` does to the whereabouts: it may close a descriptor, and it
may enter one. -/
def afterPut (before after : Pool) (connfd validFlag : ℤ) (whereabouts : ℤ → Whereabouts) :
    ℤ → Whereabouts :=
  fun fd ↦
    if before.valid < after.valid ∧ after.fdArray[before.valid]? = some fd then .pool
    else if fd = connfd ∧ before.closesInPut connfd validFlag then .closed
    else whereabouts fd

/-- One call. A run ends at a call with undefined behaviour. -/
def PoolHistory.next (history : PoolHistory) : PoolCall → Option PoolHistory
  | .get env => do
    let result ← (sckCltPoolGetConnet false false env history.pool history.opened).toOption
    pure ⟨result.pool, result.opened, match result.connfd with
      | some fd => Function.update history.whereabouts fd .client
      | none => history.whereabouts⟩
  | .put connfd validFlag env => do
    let result ← (sckCltPoolPutConnet false connfd validFlag env history.pool
      history.opened).toOption
    pure ⟨result.pool, result.opened,
      afterPut history.pool result.pool connfd validFlag history.whereabouts⟩

/-- The entries behind the free ones that are not 0. -/
def Pool.stale (pool : Pool) : List ℤ := (pool.fdArray.drop pool.valid).filter (· ≠ 0)

/-! ### What a run keeps -/

variable {history result : PoolHistory} {pool : Pool} {opened later : List ℤ}

/-- What holds in every state of every run. -/
structure HistoryInvariant (history : PoolHistory) : Prop where
  shape : PoolShape history.pool
  full : history.pool.terminated = 1 → history.pool.valid = history.pool.bounds
  free_not_closed : ∀ fd ∈ history.pool.free, history.whereabouts fd ≠ .closed
  stale_gone : ∀ fd ∈ history.pool.stale, fd ∈ history.pool.free ∨
    history.whereabouts fd = .client ∨ history.whereabouts fd = .closed

theorem mem_stale {fd : ℤ} : fd ∈ pool.stale ↔ fd ∈ pool.fdArray.drop pool.valid ∧ fd ≠ 0 := by
  simp [Pool.stale]

theorem stale_push {fd new : ℤ} (hfd : fd ∈ (pool.push new).stale) : fd ∈ pool.stale := by
  obtain ⟨hdrop, hzero⟩ := mem_stale.mp hfd
  refine mem_stale.mpr ⟨?_, hzero⟩
  rw [Pool.push, List.drop_set_of_lt (Nat.lt_succ_self _)] at hdrop
  exact List.drop_subset_drop_left _ (Nat.le_succ _) hdrop

/-- A descriptor is entered: it is in the pool, whatever happened to it before. -/
theorem afterPut_push (hroom : pool.valid < pool.fdArray.length) (new connfd validFlag : ℤ)
    (whereabouts : ℤ → Whereabouts) (fd : ℤ) :
    afterPut pool (pool.push new) connfd validFlag whereabouts fd =
      if fd = new then .pool
      else if fd = connfd ∧ pool.closesInPut connfd validFlag then .closed else whereabouts fd := by
  have hentry : (pool.push new).fdArray[pool.valid]? = some new := List.getElem?_set_self hroom
  have hless : pool.valid < (pool.push new).valid := Nat.lt_succ_self _
  simp only [afterPut, hentry, hless, true_and, Option.some.injEq, eq_comm]

/-- Nothing is entered. -/
theorem afterPut_same (connfd validFlag : ℤ) (whereabouts : ℤ → Whereabouts) (fd : ℤ) :
    afterPut pool pool connfd validFlag whereabouts fd =
      if fd = connfd ∧ pool.closesInPut connfd validFlag then .closed else whereabouts fd := by
  simp [afterPut]

/-- Nothing is entered and nothing closed. -/
theorem afterPut_rejected {connfd : ℤ} (hdead : connfd ∈ pool.free ∨ pool.bounds ≤ pool.valid)
    (validFlag : ℤ) (whereabouts : ℤ → Whereabouts) :
    afterPut pool pool connfd validFlag whereabouts = whereabouts := by
  have hcloses : pool.closesInPut connfd validFlag = false := by
    obtain hfree | hfull := hdead
    · simp [Pool.closesInPut, hfree]
    · simp [Pool.closesInPut, hfull]
  funext fd
  simp [afterPut_same, hcloses]

/-- The last free descriptor goes to a client. -/
theorem HistoryInvariant.take {rest : List ℤ} {fd : ℤ} (h : HistoryInvariant history)
    (hrunning : history.pool.terminated ≠ 1) (hfree : history.pool.free = rest ++ [fd]) :
    HistoryInvariant ⟨{ history.pool with valid := history.pool.valid - 1 }, history.opened,
      Function.update history.whereabouts fd .client⟩ := by
  obtain ⟨hrest, hdrop⟩ := h.shape.last hfree
  refine ⟨h.shape.take, fun hterminated ↦ absurd hterminated hrunning, ?_, ?_⟩
  · intro other hother
    by_cases hfd : other = fd
    · subst hfd
      simp
    · have hold : other ∈ rest := hrest ▸ hother
      simp only [Function.update_of_ne hfd]
      exact h.free_not_closed other (hfree ▸ List.mem_append_left _ hold)
  · intro other hother
    by_cases hfd : other = fd
    · subst hfd
      simp
    · obtain ⟨hentry, hzero⟩ := mem_stale.mp hother
      have hstale : other ∈ history.pool.fdArray.drop history.pool.valid :=
        List.mem_of_ne_of_mem hfd (hdrop ▸ hentry)
      simp only [Function.update_of_ne hfd]
      refine (h.stale_gone other (mem_stale.mpr ⟨hstale, hzero⟩)).imp_left fun hmem ↦ ?_
      rw [hfree] at hmem
      change other ∈ history.pool.fdArray.take (history.pool.valid - 1)
      rw [hrest]
      simpa [hfd] using hmem

/-- A descriptor is entered. -/
theorem HistoryInvariant.push {fd connfd validFlag : ℤ} (h : HistoryInvariant history)
    (hrunning : history.pool.terminated ≠ 1) (hroom : history.pool.valid < history.pool.bounds)
    (hfree : connfd ∉ history.pool.free) :
    HistoryInvariant ⟨history.pool.push fd, later,
      afterPut history.pool (history.pool.push fd) connfd validFlag history.whereabouts⟩ := by
  have hfds := hroom.trans_eq h.shape.fds_length.symm
  refine ⟨h.shape.push hroom fd, fun hterminated ↦ absurd hterminated hrunning, ?_, ?_⟩
  · intro other hother
    dsimp only at hother ⊢
    rw [Pool.free_push hfds, List.mem_append, List.mem_singleton] at hother
    rw [afterPut_push hfds]
    split_ifs with hnew hclosed
    · decide
    · exact absurd (hother.resolve_right hnew) (hclosed.1 ▸ hfree)
    · exact h.free_not_closed other (hother.resolve_right hnew)
  · intro other hother
    dsimp only at hother ⊢
    rw [Pool.free_push hfds, List.mem_append, List.mem_singleton, afterPut_push hfds]
    split_ifs with hnew hclosed
    · exact .inl (.inr hnew)
    · exact .inr (.inr rfl)
    · exact (h.stale_gone other (stale_push hother)).imp_left .inl

/-- A descriptor that is not free is closed, and not replaced. -/
theorem HistoryInvariant.close {connfd validFlag : ℤ} (h : HistoryInvariant history)
    (hfree : connfd ∉ history.pool.free) :
    HistoryInvariant ⟨history.pool, later,
      afterPut history.pool history.pool connfd validFlag history.whereabouts⟩ := by
  refine ⟨h.shape, h.full, fun other hother ↦ ?_, fun other hother ↦ ?_⟩
  · dsimp only
    rw [afterPut_same]
    split_ifs with hclosed
    · exact absurd hother (hclosed.1 ▸ hfree)
    · exact h.free_not_closed other hother
  · dsimp only
    rw [afterPut_same]
    split_ifs with hclosed
    · exact .inr (.inr rfl)
    · exact h.stale_gone other hother

/-- A pool that was terminated from the start hands nothing out and has no room. -/
theorem next_terminated {call : PoolCall} (h : HistoryInvariant history)
    (hterminated : history.pool.terminated = 1) (hnext : history.next call = some result) :
    result = history := by
  cases call with
  | get env =>
    simp only [PoolHistory.next, getConnet_terminated hterminated] at hnext
    exact (Option.some.inj hnext).symm
  | put connfd validFlag env =>
    have hwrite : writeAt history.pool.enter.fdArray history.pool.enter.valid connfd =
        .error .outOfBounds := by
      refine if_neg ?_
      change ¬ history.pool.valid < history.pool.fdArray.length
      rw [h.shape.fds_length, h.full hterminated]
      exact lt_irrefl _
    have hput : ∃ fault, sckCltPoolPutConnet false connfd validFlag env history.pool
        history.opened = .error fault := by
      rw [sckCltPoolPutConnet]
      by_cases hparam : (false : Bool) = true ∨ connfd < 0
      · exact ⟨_, if_pos hparam⟩
      · rw [if_neg hparam, if_pos (show history.pool.enter.terminated = 1 from hterminated), hwrite]
        exact ⟨_, rfl⟩
    obtain ⟨fault, hput⟩ := hput
    simp only [PoolHistory.next, hput] at hnext
    cases hnext

/-- The connection attempt of `sckCltPool_putConnet` after it has closed a descriptor. -/
def PoolHistory.reconnect (history : PoolHistory) (connfd : ℤ) (env : ConnectEnv) : Connected :=
  sckClientConnect history.pool.serverport history.pool.connecttime env
    (sckClientCloseconn connfd history.opened)

/-- What a call can do: nothing; the last free descriptor goes to a client; a descriptor is entered,
which is the one put back or the one that replaces it; or the one put back is closed, and not
replaced. -/
theorem next_cases {call : PoolCall} (h : HistoryInvariant history)
    (hnext : history.next call = some result) :
    (result.pool = history.pool ∧ result.whereabouts = history.whereabouts ∧
      match call with
      | .get _ => True
      | .put connfd _ _ =>
        connfd ∈ history.pool.free ∨ history.pool.bounds ≤ history.pool.valid) ∨
    history.pool.terminated ≠ 1 ∧
      ((∃ env rest fd, call = .get env ∧ history.pool.free = rest ++ [fd] ∧
        result = ⟨{ history.pool with valid := history.pool.valid - 1 }, history.opened,
          Function.update history.whereabouts fd .client⟩) ∨
      ∃ connfd validFlag env later, call = .put connfd validFlag env ∧ 0 ≤ connfd ∧
        connfd ∉ history.pool.free ∧ history.pool.valid < history.pool.bounds ∧
        ((∃ fd, (validFlag = 1 ∧ fd = connfd ∨ validFlag ≠ 1 ∧
              (history.reconnect connfd env).ret = 0 ∧
              fd = (history.reconnect connfd env).connfd.getD 0) ∧
            result = ⟨history.pool.push fd, later,
              afterPut history.pool (history.pool.push fd) connfd validFlag
                history.whereabouts⟩) ∨
          validFlag ≠ 1 ∧ (history.reconnect connfd env).ret ≠ 0 ∧
            result = ⟨history.pool, later,
              afterPut history.pool history.pool connfd validFlag history.whereabouts⟩)) := by
  by_cases hterminated : history.pool.terminated = 1
  · obtain rfl := next_terminated h hterminated hnext
    refine .inl ⟨rfl, rfl, ?_⟩
    cases call with
    | get env => trivial
    | put connfd validFlag env => exact .inr (h.full hterminated).ge
  cases call with
  | get env =>
    obtain ⟨-, hnone⟩ | ⟨rest, fd, -, hfree, hsome⟩ :=
      getConnet_spec h.shape hterminated env history.opened
    · simp only [PoolHistory.next, hnone] at hnext
      obtain rfl := Option.some.inj hnext
      exact .inl ⟨rfl, rfl, trivial⟩
    · simp only [PoolHistory.next, hsome] at hnext
      exact .inr ⟨hterminated, .inl ⟨env, rest, fd, rfl, hfree, (Option.some.inj hnext).symm⟩⟩
  | put connfd validFlag env =>
    by_cases hpos : 0 ≤ connfd
    · obtain ⟨after, hput, -, hcases⟩ :=
        putConnet_spec h.shape.toPoolFits hterminated hpos validFlag env history.opened
      simp only [PoolHistory.next, hput] at hnext
      obtain rfl := Option.some.inj hnext
      obtain ⟨hdead, hpool, -⟩ | ⟨hfree, hroom, hcases⟩ := hcases
      · exact .inl ⟨hpool, by rw [hpool, afterPut_rejected hdead], hdead⟩
      · refine .inr ⟨hterminated, .inr ⟨connfd, validFlag, env, after.opened, rfl, hpos, hfree,
          hroom, ?_⟩⟩
        obtain ⟨hflag, hpool, -⟩ | ⟨hflag, made, rfl, -, ⟨hret, hpool⟩ | ⟨hret, hpool⟩⟩ := hcases
        · exact .inl ⟨connfd, .inl ⟨hflag, rfl⟩, by rw [hpool]⟩
        · exact .inr ⟨hflag, hret, by rw [hpool]⟩
        · exact .inl ⟨_, .inr ⟨hflag, hret, rfl⟩, by rw [hpool]; rfl⟩
    · simp only [PoolHistory.next, sckCltPoolPutConnet] at hnext
      rw [if_pos (.inr (not_le.mp hpos))] at hnext
      cases hnext

/-- Every call keeps the invariant. -/
theorem next_historyInvariant {call : PoolCall} (h : HistoryInvariant history)
    (hnext : history.next call = some result) : HistoryInvariant result := by
  obtain ⟨hpool, hwhereabouts, -⟩ | ⟨hrunning, htake | hput⟩ := next_cases h hnext
  · obtain ⟨pool, opened, whereabouts⟩ := result
    obtain rfl : pool = history.pool := hpool
    obtain rfl : whereabouts = history.whereabouts := hwhereabouts
    exact ⟨h.shape, h.full, h.free_not_closed, h.stale_gone⟩
  · obtain ⟨env, rest, fd, rfl, hfree, rfl⟩ := htake
    exact h.take hrunning hfree
  · obtain ⟨connfd, validFlag, env, later, rfl, -, hfree, hroom, hcases⟩ := hput
    obtain ⟨fd, -, rfl⟩ | ⟨-, -, rfl⟩ := hcases
    · exact h.push hrunning hroom hfree
    · exact h.close hfree

/-- The attempts of `sckCltPool_init` got different sockets. -/
theorem attemptSocket_nodup {envs : ℕ → ConnectEnv} {count : ℕ}
    (hsockets : ∀ attempt < count, 0 ≤ attemptSocket envs opened attempt) :
    ((List.range count).map (attemptSocket envs opened)).Nodup := by
  induction count with
  | zero => exact List.nodup_nil
  | succ count ih =>
    have hbefore : ∀ attempt < count, 0 ≤ attemptSocket envs opened attempt := fun attempt hless ↦
      hsockets attempt (hless.trans (Nat.lt_succ_self _))
    have hnew : attemptSocket envs opened count ∉ openedBefore envs opened count :=
      (envs count).socket_new _ (hsockets count (Nat.lt_succ_self _))
    rw [openedBefore_eq, connections_eq hbefore, List.mem_append, List.mem_reverse] at hnew
    rw [List.range_succ, List.map_append, List.map_singleton, ← List.concat_eq_append,
      List.nodup_concat]
    exact ⟨fun hmem ↦ hnew (.inl hmem), ih hbefore⟩

/-- A pool that `sckCltPool_init` returns: it is full, with the entries that the attempts made. -/
theorem sckCltPoolInit_filled {param : PoolParam} {memory : Memory param.bounds} {startup : ℤ}
    {envs : ℕ → ConnectEnv}
    (hinit : sckCltPoolInit param memory startup envs opened = (0, some pool, later)) :
    PoolShape pool ∧ pool.valid = pool.bounds ∧ pool.bounds = param.bounds ∧
      pool.fdArray =
        (List.range param.bounds).map (attemptEntry memory.fdArray.toList envs opened) := by
  obtain ⟨full, hloop, hvalid, rfl⟩ := sckCltPoolInit_full hinit
  obtain ⟨-, filled, hfilled, heq⟩ | ⟨failed, hless, -, -, filled, hfilled, heq⟩ :=
    connectLoop_spec (show memory.pool.enter.serverport = param.serverport from rfl) rfl
      (memory.filled _) (Nat.zero_add _) fun earlier hearlier ↦ absurd hearlier (Nat.not_lt_zero _)
  · obtain rfl : full = filled := congrArg Prod.fst (hloop.symm.trans heq)
    have hall : full.fdArray = full.free :=
      (List.take_of_length_le (hfilled.shape.fds_length.trans_le hvalid)).symm
    exact ⟨hfilled.shape.leave, hfilled.valid.trans hfilled.bounds.symm, hfilled.bounds,
      hall.trans hfilled.free⟩
  · obtain rfl : full = failedPool _ filled := congrArg Prod.fst (hloop.symm.trans heq)
    have hbounds : filled.bounds ≤ filled.valid := hvalid
    rw [hfilled.valid, hfilled.bounds] at hbounds
    exact absurd hless (not_lt.mpr hbounds)

/-- A pool that `sckCltPool_init` returns, before any call. -/
theorem init_historyInvariant {param : PoolParam} {memory : Memory param.bounds} {startup : ℤ}
    {envs : ℕ → ConnectEnv}
    (hinit : sckCltPoolInit param memory startup envs opened = (0, some pool, later)) :
    HistoryInvariant ⟨pool, later, fun _ ↦ .pool⟩ := by
  obtain ⟨hshape, hfull, -, -⟩ := sckCltPoolInit_filled hinit
  refine ⟨hshape, fun _ ↦ hfull, fun fd _ ↦ by simp, fun fd hfd ↦ ?_⟩
  have hentry := (mem_stale.mp hfd).1
  rw [List.drop_eq_nil_of_le (hshape.fds_length.trans hfull.symm).le] at hentry
  cases hentry

/-! ### Calls in place -/

/-- The entries behind the one that the next descriptor is entered at. -/
def Pool.behind (pool : Pool) : List ℤ := pool.fdArray.drop (pool.valid + 1)

/-- A descriptor can be entered: it is not 0, and no entry but the one that it gets names it. -/
def Pool.HasPlace (pool : Pool) (fd : ℤ) : Prop := fd ≠ 0 ∧ fd ∉ pool.free ∧ fd ∉ pool.behind

instance (pool : Pool) (fd : ℤ) : Decidable (pool.HasPlace fd) :=
  inferInstanceAs (Decidable (_ ∧ _ ∧ _))

/-- The condition on a call. `sckCltPool_putConnet` rejects the descriptor, or it stands in no entry
behind the one that it goes to, and there is a place for what is entered. When nothing is entered,
since the new connection fails, the descriptor does not stand in that entry either. -/
def PoolCall.InPlace (history : PoolHistory) : PoolCall → Prop
  | .get _ => True
  | .put connfd validFlag env =>
    connfd ∈ history.pool.free ∨ history.pool.bounds ≤ history.pool.valid ∨
      connfd ∉ history.pool.behind ∧
        if validFlag = 1 then history.pool.HasPlace connfd
        else if (history.reconnect connfd env).ret = 0 then
          ∃ fd ∈ (history.reconnect connfd env).connfd, history.pool.HasPlace fd
        else history.pool.fdArray[history.pool.valid]? ≠ some connfd

instance (history : PoolHistory) (call : PoolCall) : Decidable (call.InPlace history) :=
  match call with
  | .get _ => inferInstanceAs (Decidable True)
  | .put _ _ _ => inferInstanceAs (Decidable (_ ∨ _ ∨ _ ∧ _))

/-- No two entries name one descriptor, none is 0, and those behind the free ones name descriptors
that a client has. -/
structure Tidy (history : PoolHistory) : Prop where
  distinct : history.pool.fdArray.Nodup
  ne_zero : 0 ∉ history.pool.fdArray
  with_client : ∀ fd ∈ history.pool.fdArray.drop history.pool.valid,
    history.whereabouts fd = .client

theorem fdArray_push (hroom : pool.valid < pool.fdArray.length) (fd : ℤ) :
    (pool.push fd).fdArray = pool.free ++ fd :: pool.behind :=
  List.set_eq_take_cons_drop fd hroom

theorem drop_push (fd : ℤ) :
    (pool.push fd).fdArray.drop (pool.push fd).valid = pool.behind :=
  List.drop_set_of_lt (Nat.lt_succ_self _)

theorem drop_valid (hroom : pool.valid < pool.fdArray.length) :
    pool.fdArray.drop pool.valid = pool.fdArray[pool.valid] :: pool.behind :=
  List.drop_eq_getElem_cons hroom

/-- To hand out the last free descriptor leaves a pool tidy. -/
theorem Tidy.take {rest : List ℤ} {fd : ℤ} (h : Tidy history) (hshape : PoolShape history.pool)
    (hfree : history.pool.free = rest ++ [fd]) :
    Tidy ⟨{ history.pool with valid := history.pool.valid - 1 }, history.opened,
      Function.update history.whereabouts fd .client⟩ := by
  refine ⟨h.distinct, h.ne_zero, fun other hother ↦ ?_⟩
  dsimp only at hother ⊢
  by_cases hfd : other = fd
  · rw [hfd, Function.update_self]
  · rw [(hshape.last hfree).2] at hother
    rw [Function.update_of_ne hfd]
    exact h.with_client other (List.mem_of_ne_of_mem hfd hother)

section Put

variable {connfd validFlag : ℤ}

theorem closesInPut_iff (hrunning : pool.terminated ≠ 1) (hfree : connfd ∉ pool.free)
    (hroom : pool.valid < pool.bounds) :
    pool.closesInPut connfd validFlag ↔ validFlag ≠ 1 ∧ 0 < connfd := by
  simp [Pool.closesInPut, hrunning, hfree, hroom]

/-- A descriptor is entered: the pool stays tidy when there is a place for it, and the one that was
closed stands in no entry behind. -/
theorem Tidy.push_iff {fd : ℤ} (h : Tidy history) (hshape : PoolShape history.pool)
    (hrunning : history.pool.terminated ≠ 1) (hpos : 0 ≤ connfd)
    (hfree : connfd ∉ history.pool.free) (hroom : history.pool.valid < history.pool.bounds)
    (hflag : validFlag = 1 → fd = connfd) :
    Tidy ⟨history.pool.push fd, later,
        afterPut history.pool (history.pool.push fd) connfd validFlag history.whereabouts⟩ ↔
      connfd ∉ history.pool.behind ∧ history.pool.HasPlace fd := by
  have hfds := hroom.trans_eq hshape.fds_length.symm
  have hbehind : history.pool.behind ⊆ history.pool.fdArray.drop history.pool.valid :=
    List.drop_subset_drop_left _ (Nat.le_succ _)
  constructor
  · intro htidy
    have hdistinct := htidy.distinct
    have hzero := htidy.ne_zero
    rw [fdArray_push hfds, List.nodup_middle, List.nodup_cons, List.mem_append, not_or] at hdistinct
    rw [fdArray_push hfds, List.mem_append, List.mem_cons, not_or, not_or] at hzero
    refine ⟨fun hmem ↦ ?_, fun hfd ↦ hzero.2.1 hfd.symm, hdistinct.1.1, hdistinct.1.2⟩
    have hne : connfd ≠ fd := fun heq ↦ hdistinct.1.2 (heq ▸ hmem)
    have hclosed : history.pool.closesInPut connfd validFlag :=
      (closesInPut_iff hrunning hfree hroom).mpr ⟨fun hone ↦ hne (hflag hone).symm,
        hpos.lt_of_ne fun hnil ↦ hzero.2.2 (hnil ▸ hmem)⟩
    have hclient := htidy.with_client connfd (by rwa [drop_push])
    dsimp only at hclient
    rw [afterPut_push hfds, if_neg hne, if_pos ⟨rfl, hclosed⟩] at hclient
    cases hclient
  · rintro ⟨hconnfd, hzero, hnotfree, hnew⟩
    have hsplit : history.pool.fdArray = history.pool.free ++
        history.pool.fdArray[history.pool.valid] :: history.pool.behind := by
      rw [← drop_valid hfds, Pool.free, List.take_append_drop]
    have hdistinct := h.distinct
    rw [hsplit, List.nodup_middle, List.nodup_cons] at hdistinct
    refine ⟨?_, ?_, fun other hother ↦ ?_⟩
    · rw [fdArray_push hfds, List.nodup_middle, List.nodup_cons, List.mem_append, not_or]
      exact ⟨⟨hnotfree, hnew⟩, hdistinct.2⟩
    · rw [fdArray_push hfds, List.mem_append, List.mem_cons, not_or, not_or]
      exact ⟨fun hmem ↦ h.ne_zero (List.mem_of_mem_take hmem), hzero.symm,
        fun hmem ↦ h.ne_zero (List.mem_of_mem_drop hmem)⟩
    · dsimp only at hother ⊢
      rw [drop_push] at hother
      have hne : other ≠ fd := fun heq ↦ hnew (heq ▸ hother)
      have hkept : other ≠ connfd := fun heq ↦ hconnfd (heq ▸ hother)
      rw [afterPut_push hfds, if_neg hne, if_neg (hkept ·.1)]
      exact h.with_client other (hbehind hother)

/-- A descriptor is closed and not replaced: the pool stays tidy when no entry behind the free ones
names it. -/
theorem Tidy.close_iff (h : Tidy history) (hshape : PoolShape history.pool)
    (hrunning : history.pool.terminated ≠ 1) (hpos : 0 ≤ connfd)
    (hfree : connfd ∉ history.pool.free) (hroom : history.pool.valid < history.pool.bounds)
    (hflag : validFlag ≠ 1) :
    Tidy ⟨history.pool, later,
        afterPut history.pool history.pool connfd validFlag history.whereabouts⟩ ↔
      connfd ∉ history.pool.behind ∧
        history.pool.fdArray[history.pool.valid]? ≠ some connfd := by
  have hfds := hroom.trans_eq hshape.fds_length.symm
  have hplace : (connfd ∉ history.pool.behind ∧
      history.pool.fdArray[history.pool.valid]? ≠ some connfd) ↔
        connfd ∉ history.pool.fdArray.drop history.pool.valid := by
    rw [drop_valid hfds, List.mem_cons, not_or, List.getElem?_eq_getElem hfds, Ne,
      Option.some.injEq, eq_comm (a := connfd), and_comm]
  rw [hplace]
  constructor
  · intro htidy hmem
    have hclosed : history.pool.closesInPut connfd validFlag :=
      (closesInPut_iff hrunning hfree hroom).mpr ⟨hflag,
        hpos.lt_of_ne fun hnil ↦ h.ne_zero (hnil ▸ List.mem_of_mem_drop hmem)⟩
    have hclient := htidy.with_client connfd hmem
    dsimp only at hclient
    rw [afterPut_same, if_pos ⟨rfl, hclosed⟩] at hclient
    cases hclient
  · intro hconnfd
    refine ⟨h.distinct, h.ne_zero, fun other hother ↦ ?_⟩
    dsimp only at hother ⊢
    have hkept : other ≠ connfd := fun heq ↦ hconnfd (heq ▸ hother)
    rw [afterPut_same, if_neg (hkept ·.1)]
    exact h.with_client other hother

end Put

/-- A call leaves a tidy pool tidy exactly when it meets the condition. -/
theorem tidy_next_iff {call : PoolCall} (h : HistoryInvariant history) (htidy : Tidy history)
    (hnext : history.next call = some result) : Tidy result ↔ call.InPlace history := by
  obtain ⟨hpool, hwhereabouts, hcall⟩ | ⟨hrunning, htake | hput⟩ := next_cases h hnext
  · obtain ⟨pool, opened, whereabouts⟩ := result
    obtain rfl : pool = history.pool := hpool
    obtain rfl : whereabouts = history.whereabouts := hwhereabouts
    refine iff_of_true ⟨htidy.distinct, htidy.ne_zero, htidy.with_client⟩ ?_
    cases call with
    | get env => trivial
    | put connfd validFlag env => exact hcall.imp_right .inl
  · obtain ⟨env, rest, fd, rfl, hfree, rfl⟩ := htake
    exact iff_of_true (htidy.take h.shape hfree) trivial
  · obtain ⟨connfd, validFlag, env, later, rfl, hpos, hfree, hroom, hcases⟩ := hput
    rw [PoolCall.InPlace, or_iff_right hfree, or_iff_right (not_le.mpr hroom)]
    obtain ⟨fd, ⟨hflag, rfl⟩ | ⟨hflag, hret, rfl⟩, rfl⟩ | ⟨hflag, hret, rfl⟩ := hcases
    · rw [if_pos hflag]
      exact htidy.push_iff h.shape hrunning hpos hfree hroom fun _ ↦ rfl
    · rw [if_neg hflag, if_pos hret,
        htidy.push_iff h.shape hrunning hpos hfree hroom fun hone ↦ absurd hone hflag]
      refine and_congr_right fun _ ↦ ?_
      cases (history.reconnect connfd env).connfd with
      | none => simp [Pool.HasPlace]
      | some fd => simp
    · rw [if_neg hflag, if_neg hret]
      exact htidy.close_iff h.shape hrunning hpos hfree hroom hflag

/-- A call leaves no 0 behind the free descriptors of a tidy pool. -/
theorem zero_not_stale {call : PoolCall} (h : HistoryInvariant history) (htidy : Tidy history)
    (hnext : history.next call = some result) :
    0 ∉ result.pool.fdArray.drop result.pool.valid := by
  obtain ⟨hpool, -, -⟩ | ⟨-, htake | hput⟩ := next_cases h hnext
  · rw [hpool]
    exact fun hmem ↦ htidy.ne_zero (List.mem_of_mem_drop hmem)
  · obtain ⟨env, rest, fd, rfl, -, rfl⟩ := htake
    exact fun hmem ↦ htidy.ne_zero (List.mem_of_mem_drop hmem)
  · obtain ⟨connfd, validFlag, env, later, rfl, -, -, -, ⟨fd, -, rfl⟩ | ⟨-, -, rfl⟩⟩ := hput
    · rw [drop_push]
      exact fun hmem ↦ htidy.ne_zero (List.mem_of_mem_drop hmem)
    · exact fun hmem ↦ htidy.ne_zero (List.mem_of_mem_drop hmem)

/-- A pool that `sckCltPool_init` returns is tidy when each attempt got a socket other than 0. -/
theorem init_tidy {param : PoolParam} {memory : Memory param.bounds} {startup : ℤ}
    {envs : ℕ → ConnectEnv}
    (hinit : sckCltPoolInit param memory startup envs opened = (0, some pool, later))
    (hsockets : ∀ attempt < param.bounds, 0 < attemptSocket envs opened attempt) :
    Tidy ⟨pool, later, fun _ ↦ .pool⟩ := by
  obtain ⟨hshape, hfull, -, hfds⟩ := sckCltPoolInit_filled hinit
  rw [map_attemptEntry _ fun attempt hless ↦ (hsockets attempt hless).le] at hfds
  refine ⟨?_, fun hmem ↦ ?_, fun fd hfd ↦ ?_⟩
  · rw [hfds]
    exact attemptSocket_nodup fun attempt hless ↦ (hsockets attempt hless).le
  · rw [hfds] at hmem
    obtain ⟨attempt, hattempt, hzero⟩ := List.mem_map.mp hmem
    exact (hsockets attempt (List.mem_range.mp hattempt)).ne' hzero
  · dsimp only at hfd
    rw [List.drop_eq_nil_of_le (hshape.fds_length.trans hfull.symm).le] at hfd
    cases hfd

/-! ### Destroying -/

/-- The loop closes the entries that are not 0. -/
theorem closeLoop_closed (fds opened : List ℤ) :
    ∃ after, closeLoop fds.length fds opened = .ok (fds.filter (· ≠ 0), after) := by
  induction fds generalizing opened with
  | nil => exact ⟨opened, rfl⟩
  | cons fd fds ih =>
    rw [List.length_cons, closeLoop]
    split_ifs with hzero
    · obtain ⟨after, hafter⟩ := ih (sckClientCloseconn fd opened)
      refine ⟨after, ?_⟩
      rw [hafter, List.filter_cons_of_pos (by simpa using hzero)]
      rfl
    · obtain ⟨after, hafter⟩ := ih opened
      refine ⟨after, ?_⟩
      rw [hafter, List.filter_cons_of_neg (by simpa using hzero)]

/-- What is expected of `sckCltPool_destroy`, for the descriptors that it calls
`sckClient_closeconn` with: no descriptor is closed twice, every free one is closed, and none that
was closed before. -/
structure ClosesOnce (history : PoolHistory) (closed : List ℤ) : Prop where
  once : closed.Nodup
  free : ∀ fd ∈ history.pool.free, fd ∈ closed
  not_closed : ∀ fd ∈ closed, history.whereabouts fd ≠ .closed

theorem HistoryInvariant.destroy_spec (h : HistoryInvariant history) :
    ∃ after, sckCltPoolDestroy false history.pool history.opened =
      .ok ⟨0, history.pool.fdArray.filter (· ≠ 0), after⟩ := by
  obtain ⟨after, hloop⟩ := closeLoop_closed history.pool.fdArray history.opened
  refine ⟨after, ?_⟩
  rw [h.shape.fds_length] at hloop
  rw [sckCltPoolDestroy, hloop]
  rfl

theorem Tidy.closesOnce (htidy : Tidy history) (h : HistoryInvariant history) :
    ClosesOnce history (history.pool.fdArray.filter (· ≠ 0)) := by
  have hall : history.pool.fdArray.filter (· ≠ 0) = history.pool.fdArray :=
    List.filter_eq_self.mpr fun fd hfd ↦ by simpa using ne_of_mem_of_not_mem hfd htidy.ne_zero
  rw [hall]
  refine ⟨htidy.distinct, fun fd hfd ↦ List.mem_of_mem_take hfd, fun fd hfd ↦ ?_⟩
  rw [← List.take_append_drop history.pool.valid history.pool.fdArray] at hfd
  obtain hfree | hstale := List.mem_append.mp hfd
  · exact h.free_not_closed fd hfree
  · rw [htidy.with_client fd hstale]
    decide

theorem HistoryInvariant.tidy (h : HistoryInvariant history)
    (hzero : 0 ∉ history.pool.fdArray.drop history.pool.valid)
    (hcloses : ClosesOnce history (history.pool.fdArray.filter (· ≠ 0))) : Tidy history := by
  have hsplit : history.pool.free ++ history.pool.fdArray.drop history.pool.valid =
      history.pool.fdArray := List.take_append_drop _ _
  have hne : 0 ∉ history.pool.fdArray := by
    rw [← hsplit, List.mem_append, not_or]
    exact ⟨fun hfree ↦ by simpa using hcloses.free 0 hfree, hzero⟩
  have hall : history.pool.fdArray.filter (· ≠ 0) = history.pool.fdArray :=
    List.filter_eq_self.mpr fun fd hfd ↦ by simpa using ne_of_mem_of_not_mem hfd hne
  rw [hall] at hcloses
  have hdisjoint := hcloses.once
  rw [← hsplit, List.nodup_append] at hdisjoint
  refine ⟨hcloses.once, hne, fun fd hfd ↦ ?_⟩
  have hstale : fd ∈ history.pool.stale := mem_stale.mpr ⟨hfd, ne_of_mem_of_not_mem hfd hzero⟩
  refine ((h.stale_gone fd hstale).resolve_left fun hfree ↦ ?_).resolve_right
    (hcloses.not_closed fd (List.mem_of_mem_drop hfd))
  exact hdisjoint.2.2 fd hfree fd hfd rfl

/-- A pool that `sckCltPool_init` has made with sockets other than 0, after calls with any outcomes
of the connection attempts that all meet the condition: `sckCltPool_destroy` closes each descriptor
once, all the free ones and none that was closed before. After one more call this is so exactly when
that call meets the condition too. -/
theorem destroy_closes_once (param : PoolParam) (memory : Memory param.bounds) (startup : ℤ)
    (envs : ℕ → ConnectEnv) (opened : List ℤ)
    (hinit : sckCltPoolInit param memory startup envs opened = (0, some pool, later))
    (hsockets : ∀ attempt < param.bounds, 0 < attemptSocket envs opened attempt)
    {calls : List PoolCall}
    (hrun : Run (guarded (fun history call ↦ call.InPlace history) (stepOf PoolHistory.next))
      ⟨pool, later, fun _ ↦ .pool⟩ calls history) :
    (∃ result, sckCltPoolDestroy false history.pool history.opened = .ok result ∧
      ClosesOnce history result.closed) ∧
    ∀ call next, history.next call = some next →
      ∃ result, sckCltPoolDestroy false next.pool next.opened = .ok result ∧
        (ClosesOnce next result.closed ↔ call.InPlace history) := by
  obtain ⟨h, htidy⟩ : HistoryInvariant history ∧ Tidy history := by
    refine hrun.invariant (fun history ↦ HistoryInvariant history ∧ Tidy history)
      ⟨init_historyInvariant hinit, init_tidy hinit hsockets⟩ ?_
    rintro history call next ⟨h, htidy⟩ ⟨hplace, hnext⟩
    exact ⟨next_historyInvariant h hnext, (tidy_next_iff h htidy hnext).mpr hplace⟩
  obtain ⟨after, hdestroy⟩ := h.destroy_spec
  refine ⟨⟨_, hdestroy, htidy.closesOnce h⟩, fun call next hnext ↦ ?_⟩
  have hlater := next_historyInvariant h hnext
  obtain ⟨after, hdestroy⟩ := hlater.destroy_spec
  refine ⟨_, hdestroy, ?_⟩
  rw [← tidy_next_iff h htidy hnext]
  exact ⟨hlater.tidy (zero_not_stale h htidy hnext), fun htidy ↦ htidy.closesOnce hlater⟩

/-- A pool of two connections: both are got; the one got last is put back as broken and replaced,
and the other is put back after it. -/
theorem destroy_closes_once_reverse :
    ∃ pool opened history result,
      sckCltPoolInit ⟨80, 2, 5⟩ ⟨0, #v[7, 7], #v[7, 7]⟩ 0 (fun _ ↦ listening) [0, 1, 2] =
        (0, some pool, opened) ∧
      Run (guarded (fun history call ↦ call.InPlace history) (stepOf PoolHistory.next))
        ⟨pool, opened, fun _ ↦ .pool⟩
        [.get listening, .get listening, .put 3 0 listening, .put 4 1 listening] history ∧
      sckCltPoolDestroy false history.pool history.opened = .ok result ∧
      ClosesOnce history result.closed := by
  obtain ⟨history, hrun⟩ : ∃ history,
      Run (guarded (fun history call ↦ call.InPlace history) (stepOf PoolHistory.next))
        ⟨⟨[3, 4], [1, 1], 2, 2, 80, 5, 0, 0⟩, [4, 3, 0, 1, 2], fun _ ↦ .pool⟩
        [.get listening, .get listening, .put 3 0 listening, .put 4 1 listening] history :=
    ⟨_, Run.of_isSome (by decide +kernel)⟩
  obtain ⟨⟨result, hdestroy, hcloses⟩, -⟩ :=
    destroy_closes_once ⟨80, 2, 5⟩ ⟨0, #v[7, 7], #v[7, 7]⟩ 0 (fun _ ↦ listening) [0, 1, 2] rfl
      (by decide +kernel) hrun
  exact ⟨_, _, history, result, rfl, hrun, hdestroy, hcloses⟩

/-- Both are got, and the one got first is put back: it is closed twice. -/
theorem destroy_closes_twice :
    ∃ pool opened history result,
      sckCltPoolInit ⟨80, 2, 5⟩ ⟨0, #v[7, 7], #v[7, 7]⟩ 0 (fun _ ↦ listening) [0, 1, 2] =
        (0, some pool, opened) ∧
      Run (stepOf PoolHistory.next) ⟨pool, opened, fun _ ↦ .pool⟩
        [.get listening, .get listening, .put 4 1 listening] history ∧
      sckCltPoolDestroy false history.pool history.opened = .ok result ∧
      result.closed = [4, 4] ∧ ¬ ClosesOnce history result.closed := by
  refine ⟨_, _, _, _, rfl, Run.of_eval (by decide +kernel), rfl, by decide +kernel,
    fun hcloses ↦ ?_⟩
  have honce := hcloses.once
  revert honce
  decide +kernel

end Exc.Socket
