import Exc.Lib.Run
import Exc.Socket.Socketutil

/-!
# The pool of connections

`tpc/poolsocket/poolsocket.cpp`: `sckCltPool_init`, `sckCltPool_getConnet`, `sckCltPool_send`,
`sckCltPool_putConnet` and `sckCltPool_destroy`. The pool is an array of descriptors of which the
first `valid` are free; a client gets the last of them and puts it back, or has it replaced by a new
connection.

The memory of the handle and of the two arrays is not initialised. `sizeof(hdl)` is the size of a
pointer, so `memset` clears no more than the first field, and `terminated` keeps what was in the
memory before: `Memory` is this content. The arrays are lists, and an index behind their end is a
`PoolFault`. `depth` is how often the critical section has been entered and not left.

Calls of clients are atomic, since they are made inside of the critical section. `PoolState` is the
pool with the descriptors that are open in the process and those that each client holds, and
`nextCall` lets one client make one call.

Scope. `malloc` succeeds here; its failures are in `PoolInit`. `bounds` is not negative. `nvalid`,
which no function reads, and the times for sending and receiving are left out.
-/

set_option autoImplicit false
set_option relaxedAutoImplicit false

namespace Exc.Socket

/-- `Sck_Err_Pool_CreateConn`. -/
def errPoolCreateConn : ℤ := baseErr + 20

/-- `Sck_Err_Pool_terminated`. -/
def errPoolTerminated : ℤ := baseErr + 21

/-- `Sck_Err_Pool_GetConn_ValidIsZero`. -/
def errPoolGetConnValidIsZero : ℤ := baseErr + 22

/-- `Sck_Err_Pool_HaveExist`. -/
def errPoolHaveExist : ℤ := baseErr + 22

/-- `Sck_Err_Pool_ValidBounds`. -/
def errPoolValidBounds : ℤ := baseErr + 22

/-- `SockePoolHandle`. -/
structure Pool where
  fdArray : List ℤ
  statusArray : List ℤ
  valid : ℕ
  bounds : ℕ
  serverport : ℤ
  connecttime : ℤ
  depth : ℤ
  terminated : ℤ

/-- Undefined behaviour: an index outside of an array, or a null handle. -/
inductive PoolFault
  | outOfBounds
  | nullHandle
  deriving DecidableEq

/-- `EnterCriticalSection(hdl->pCS)`. -/
def Pool.enter (pool : Pool) : Pool := { pool with depth := pool.depth + 1 }

/-- `LeaveCriticalSection(hdl->pCS)`. -/
def Pool.leave (pool : Pool) : Pool := { pool with depth := pool.depth - 1 }

/-- An array read. -/
def readAt (array : List ℤ) (index : ℕ) : Except PoolFault ℤ :=
  match array[index]? with
  | some value => .ok value
  | none => .error .outOfBounds

/-- An array write. -/
def writeAt (array : List ℤ) (index : ℕ) (value : ℤ) : Except PoolFault (List ℤ) :=
  if index < array.length then .ok (array.set index value) else .error .outOfBounds

/-! ### Making a pool -/

/-- `SCKClitPoolParam`. -/
structure PoolParam where
  serverport : ℤ
  bounds : ℕ
  connecttime : ℤ

/-- What the allocated memory holds: the flag and the two arrays. -/
structure Memory (bounds : ℕ) where
  terminated : ℤ
  fdArray : Vector ℤ bounds
  statusArray : Vector ℤ bounds

/-- The pool before the connection attempts. -/
def Memory.pool {param : PoolParam} (memory : Memory param.bounds) : Pool where
  fdArray := memory.fdArray.toList
  statusArray := memory.statusArray.toList
  valid := 0
  bounds := param.bounds
  serverport := param.serverport
  connecttime := param.connecttime
  depth := 0
  terminated := memory.terminated

/-- The loop that makes the connections; its counter is `valid`, and `remaining` of them are left.
The pool, and the descriptors that are open. -/
def connectLoop (envs : ℕ → ConnectEnv) : ℕ → Pool → List ℤ → Pool × List ℤ
  | 0, pool, opened => (pool, opened)
  | remaining + 1, pool, opened =>
    let made := sckClientConnect pool.serverport pool.connecttime (envs pool.valid) opened
    let fdArray := match made.connfd with
      | some fd => pool.fdArray.set pool.valid fd
      | none => pool.fdArray
    if made.ret ≠ 0 then ({ pool with fdArray := fdArray }, made.opened)
    else
      connectLoop envs remaining
        { pool with
          fdArray := fdArray
          statusArray := pool.statusArray.set pool.valid 1
          valid := pool.valid + 1 }
        made.opened

/-- `sckCltPool_init`: the result, the pool it makes, and the descriptors that are open. `startup`
is what `sckClient_init` returns. -/
def sckCltPoolInit (param : PoolParam) (memory : Memory param.bounds) (startup : ℤ)
    (envs : ℕ → ConnectEnv) (opened : List ℤ) : ℤ × Option Pool × List ℤ :=
  let pool : Pool :=
    { fdArray := memory.fdArray.toList
      statusArray := memory.statusArray.toList
      valid := 0
      bounds := param.bounds
      serverport := param.serverport
      connecttime := param.connecttime
      depth := 0
      terminated := memory.terminated }
  if startup ≠ 0 then (startup, none, opened)
  else
    let (pool, opened) := connectLoop envs pool.bounds pool.enter opened
    if pool.valid < pool.bounds then
      let marked := (pool.fdArray.zip pool.statusArray).filter fun entry ↦ entry.2 = 1
      (errPoolCreateConn, none,
        marked.foldl (fun opened entry ↦ sckClientCloseconn entry.1 opened) opened)
    else (0, some pool.leave, opened)

/-! ### Getting, sending and putting -/

/-- What a call returns and stores through `connfd`, the pool, and the descriptors that are open. -/
structure PoolResult where
  ret : ℤ
  connfd : Option ℤ
  pool : Pool
  opened : List ℤ

/-- The end of `sckCltPool_getConnet` for a connection that can be used. -/
def takeLast (pool : Pool) (opened : List ℤ) : Except PoolFault PoolResult := do
  let connfd ← readAt pool.fdArray (pool.valid - 1)
  pure ⟨0, some connfd, { pool with valid := pool.valid - 1 }.leave, opened⟩

/-- `sckCltPool_getConnet`. The second test of `valid`, after `Sleep`, finds what the first one
found, since the critical section is not left. -/
def sckCltPoolGetConnet (handleNull connfdNull : Bool) (env : ConnectEnv) (pool : Pool)
    (opened : List ℤ) : Except PoolFault PoolResult :=
  if handleNull ∨ connfdNull then .ok ⟨errParam, none, pool, opened⟩
  else
    let pool := pool.enter
    if pool.terminated = 1 then .ok ⟨errPoolTerminated, none, pool.leave, opened⟩
    else if pool.valid = 0 then .ok ⟨errPoolGetConnValidIsZero, none, pool.leave, opened⟩
    else do
      let status ← readAt pool.statusArray (pool.valid - 1)
      if status = 0 then
        let broken ← readAt pool.fdArray (pool.valid - 1)
        let opened := if broken = 0 then sckClientCloseconn broken opened else opened
        let made := sckClientConnect pool.serverport pool.connecttime env opened
        if made.ret ≠ 0 then
          let fdArray ← writeAt pool.fdArray (pool.valid - 1) 0
          pure ⟨made.ret, none, { pool with fdArray := fdArray }.leave, made.opened⟩
        else
          let fdArray ← writeAt pool.fdArray (pool.valid - 1) (made.connfd.getD broken)
          takeLast { pool with fdArray := fdArray } made.opened
      else takeLast pool opened

/-- `sckCltPool_send`: the result, and the bytes that the transport accepted. -/
def sckCltPoolSend (handleNull : Bool) (connfd : ℤ) (env : SendEnv) (data : Option (List UInt8))
    (datalen : ℤ) : ℤ × List UInt8 :=
  if handleNull ∨ connfd < 0 ∨ data = none ∨ datalen ≤ 0 then (errParam, [])
  else sckClientSend env data datalen

/-- The loop of `sckCltPool_putConnet` that looks for a descriptor among the first entries. -/
def haveExist (connfd : ℤ) : ℕ → List ℤ → Except PoolFault Bool
  | 0, _ => .ok false
  | _ + 1, [] => .error .outOfBounds
  | count + 1, fd :: fds => if fd = connfd then .ok true else haveExist connfd count fds

/-- A descriptor is entered as the last free one. -/
def putLast (pool : Pool) (connfd : ℤ) (opened : List ℤ) : Except PoolFault PoolResult := do
  let fdArray ← writeAt pool.fdArray pool.valid connfd
  let statusArray ← writeAt pool.statusArray pool.valid 1
  pure ⟨0, none, { pool with
    fdArray := fdArray, statusArray := statusArray, valid := pool.valid + 1 }.leave, opened⟩

/-- `sckCltPool_putConnet`. When an argument is wrong it leaves the critical section through `hdl`,
which is still null. -/
def sckCltPoolPutConnet (handleNull : Bool) (connfd validFlag : ℤ) (env : ConnectEnv) (pool : Pool)
    (opened : List ℤ) : Except PoolFault PoolResult :=
  if handleNull ∨ connfd < 0 then .error .nullHandle
  else
    let pool := pool.enter
    if pool.terminated = 1 then do
      let fdArray ← writeAt pool.fdArray pool.valid connfd
      pure ⟨errPoolTerminated, none,
        { pool with fdArray := fdArray, valid := pool.valid + 1 }.leave, opened⟩
    else do
      let found ← haveExist connfd pool.valid pool.fdArray
      if found then pure ⟨errPoolHaveExist, none, pool.leave, opened⟩
      else if pool.bounds ≤ pool.valid then pure ⟨errPoolValidBounds, none, pool.leave, opened⟩
      else if validFlag = 1 then putLast pool connfd opened
      else
        let opened := sckClientCloseconn connfd opened
        let made := sckClientConnect pool.serverport pool.connecttime env opened
        if made.ret ≠ 0 then pure ⟨made.ret, none, pool.leave, made.opened⟩
        else putLast pool (made.connfd.getD 0) made.opened

/-! ### Destroying a pool -/

/-- The loop of `sckCltPool_destroy`: the descriptors that `sckClient_closeconn` is called with, in
order, and those that are open afterwards. -/
def closeLoop : ℕ → List ℤ → List ℤ → Except PoolFault (List ℤ × List ℤ)
  | 0, _, opened => .ok ([], opened)
  | _ + 1, [], _ => .error .outOfBounds
  | count + 1, fd :: fds, opened =>
    if fd ≠ 0 then do
      let (closed, opened) ← closeLoop count fds (sckClientCloseconn fd opened)
      pure (fd :: closed, opened)
    else closeLoop count fds opened

/-- What `sckCltPool_destroy` returns, the descriptors that it has called `sckClient_closeconn`
with, and those that are open. -/
structure DestroyResult where
  ret : ℤ
  closed : List ℤ
  opened : List ℤ

/-- `sckCltPool_destroy`, which frees the pool. -/
def sckCltPoolDestroy (handleNull : Bool) (pool : Pool) (opened : List ℤ) :
    Except PoolFault DestroyResult :=
  if handleNull then .ok ⟨errParam, [], opened⟩
  else do
    let (closed, opened) ← closeLoop pool.bounds pool.fdArray opened
    pure ⟨0, closed, opened⟩

/-! ### Clients -/

variable {Client : Type}

/-- The pool, the descriptors that are open, and those that clients hold. -/
structure PoolState (Client : Type) where
  pool : Pool
  opened : List ℤ
  held : List (Client × ℤ)

/-- The calls of clients. -/
inductive PoolAction (Client : Type)
  | get (client : Client) (env : ConnectEnv)
  | put (client : Client) (connfd validFlag : ℤ) (env : ConnectEnv)

variable [DecidableEq Client]

/-- A call of a client. It holds what it gets, and it gives up what it puts back. -/
def call (state : PoolState Client) : PoolAction Client → Except PoolFault (PoolState Client)
  | .get client env => do
    let result ← sckCltPoolGetConnet false false env state.pool state.opened
    pure ⟨result.pool, result.opened,
      state.held ++ (result.connfd.toList.map fun connfd ↦ (client, connfd))⟩
  | .put client connfd validFlag env => do
    let result ← sckCltPoolPutConnet false connfd validFlag env state.pool state.opened
    pure ⟨result.pool, result.opened, state.held.erase (client, connfd)⟩

/-- Clients put back only what they hold, and `sckClient_connect` fails when `socket` fails. -/
def PoolAction.Allowed (state : PoolState Client) : PoolAction Client → Prop
  | .get _ env => env.errno ≠ 0
  | .put client connfd _ env => (client, connfd) ∈ state.held ∧ env.errno ≠ 0

instance (state : PoolState Client) (action : PoolAction Client) :
    Decidable (action.Allowed state) :=
  match action with
  | .get _ _ => inferInstanceAs (Decidable (_ ≠ _))
  | .put _ _ _ _ => inferInstanceAs (Decidable (_ ∧ _))

/-- A call that is allowed and returns. -/
def nextCall (state : PoolState Client) (action : PoolAction Client) : Option (PoolState Client) :=
  if action.Allowed state then (call state action).toOption else none

end Exc.Socket
