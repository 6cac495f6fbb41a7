import Exc.Lib.ByteOrder

/-!
# Sending and receiving messages

`tpc/poolsocket/socketutil.cpp`: `sckClient_connect`, `sckClient_closeconn`, `readn`,
`sckClient_send`, `sckServer_send`, `sckClient_rev` and `sckServer_rev`. A message is sent as a
frame, its length in four bytes in network order and its bytes.

What the transport does is an input. The `Wire` is what the `recv` calls of the receiver will find:
pieces of the stream, interruptions (`EINTR`) and errors; a piece that is longer than what is asked
for leaves its rest on the wire, and an empty wire is a connection that the peer has closed. The
results of `read_timeout`, `write_timeout`, `malloc` and `send` are fields of `RevEnv` and
`SendEnv`, those of `socket` and `connect_timeout` of `ConnectEnv`. The descriptors that are open
are a list.

`int` has 32 bits and `size_t` 32 or 64. The receivers take the length from the frame without a
check, so `n + 1` can overflow, the buffer can be too short, and the final null byte can fall
outside of it: these are the values of `RevFault`.

Scope. Log output is left out, and so is the release of buffers.
-/

set_option autoImplicit false
set_option relaxedAutoImplicit false

namespace Exc.Socket

open Lib

/-- `Sck_BaseErr`. -/
def baseErr : ℤ := 3000

/-- `Sck_ErrParam`. -/
def errParam : ℤ := baseErr + 1

/-- `Sck_ErrTimeOut`. -/
def errTimeOut : ℤ := baseErr + 2

/-- `Sck_ErrPeerClosed`. -/
def errPeerClosed : ℤ := baseErr + 3

/-- `Sck_ErrMalloc`. -/
def errMalloc : ℤ := baseErr + 4

/-! ### Connections -/

/-- The surroundings of a connection attempt: what `socket` returns when certain descriptors are
open, which is negative or a descriptor that is not open, the `errno` after a `socket` that fails,
which `socket` of Winsock does not set, what `connect_timeout` returns, and whether `errno` is
`ETIMEDOUT` then. -/
structure ConnectEnv where
  socket : List ℤ → ℤ
  socket_new : ∀ opened, 0 ≤ socket opened → socket opened ∉ opened
  errno : ℤ
  connectTimeout : ℤ
  timedOut : Bool

/-- What `sckClient_connect` returns, what it stores through `connfd`, and the descriptors that are
open afterwards. -/
structure Connected where
  ret : ℤ
  connfd : Option ℤ
  opened : List ℤ

/-- `sckClient_connect`; its pointers are not null. -/
def sckClientConnect (port connecttime : ℤ) (env : ConnectEnv) (opened : List ℤ) : Connected :=
  if port ≤ 0 ∨ 65537 < port ∨ connecttime < 0 then ⟨errParam, none, opened⟩
  else
    let sockfd := env.socket opened
    if sockfd < 0 then ⟨env.errno, none, opened⟩
    else if env.connectTimeout < 0 then
      if env.connectTimeout = -1 ∧ env.timedOut then ⟨errTimeOut, none, sockfd :: opened⟩
      else ⟨env.connectTimeout, none, sockfd :: opened⟩
    else ⟨env.connectTimeout, some sockfd, sockfd :: opened⟩

/-- `sckClient_closeconn`, which always returns 0: the descriptors that are open afterwards. -/
def sckClientCloseconn (connfd : ℤ) (opened : List ℤ) : List ℤ :=
  if 0 < connfd then opened.filter fun fd ↦ fd ≠ connfd else opened

/-! ### The transport -/

/-- What a `recv` call can find: a piece of the stream, which is not empty, `EINTR`, or another
error. -/
inductive Segment
  | data (first : UInt8) (rest : List UInt8)
  | interrupted
  | failed
  deriving DecidableEq

/-- What the following `recv` calls will find. -/
abbrev Wire := List Segment

/-- The bytes of the stream in a segment. -/
def Segment.bytes : Segment → List UInt8
  | .data first rest => first :: rest
  | _ => []

/-- The bytes of the stream that are still to be received. -/
def Wire.content (wire : Wire) : List UInt8 := wire.flatMap Segment.bytes

/-- What `recv` returns; a closed connection gives no bytes. -/
inductive Recv
  | received (bytes : List UInt8)
  | interrupted
  | failed

/-- `recv(fd, bufp, len, 0)`. -/
def recv (len : ℕ) : Wire → Recv × Wire
  | [] => (.received [], [])
  | .interrupted :: wire => (.interrupted, wire)
  | .failed :: wire => (.failed, wire)
  | .data first rest :: wire =>
    match (first :: rest).drop len with
    | [] => (.received (first :: rest), wire)
    | next :: later => (.received ((first :: rest).take len), .data next later :: wire)

/-- A `recv` that is interrupted uses up a segment, and one that receives bytes adds no segment. -/
theorem recv_segments (len : ℕ) (wire : Wire) :
    match recv len wire with
    | (.received _, later) => later.length ≤ wire.length
    | (.interrupted, later) => later.length < wire.length
    | (.failed, _) => True := by
  obtain _ | ⟨segment, wire⟩ := wire
  · simp [recv]
  · cases segment with
    | data first rest =>
      unfold recv
      cases hdrop : (first :: rest).drop len <;> simp [hdrop]
    | interrupted => simp [recv]
    | failed => simp [recv]

/-- The loop of `readn`: what it returns, all that it stored in the buffer, and the wire. -/
def readnLoop (count nleft : ℕ) (stored : List UInt8) (wire : Wire) : ℤ × List UInt8 × Wire :=
  if 0 < nleft then
    match hrecv : recv nleft wire with
    | (.interrupted, later) => readnLoop count nleft stored later
    | (.failed, later) => (-1, stored, later)
    | (.received [], later) => (toInt (count - nleft : ℕ), stored, later)
    | (.received (first :: rest), later) =>
      readnLoop count (nleft - (first :: rest).length) (stored ++ first :: rest) later
  else (toInt count, stored, wire)
termination_by nleft + wire.length
decreasing_by
  · have hless := recv_segments nleft wire
    rw [hrecv] at hless
    dsimp only at hless
    omega
  · have hle := recv_segments nleft wire
    rw [hrecv] at hle
    dsimp only at hle
    simp only [List.length_cons]
    omega

/-- `readn`. -/
def readn (count : ℕ) (wire : Wire) : ℤ × List UInt8 × Wire := readnLoop count count [] wire

/-! ### Sending -/

/-- The surroundings of a send: the byte order, what `write_timeout` returns and whether `errno` is
`ETIMEDOUT` then, whether `malloc` succeeds, and what `send` returns. -/
structure SendEnv where
  order : ByteOrder
  writeTimeout : ℤ
  timedOut : Bool
  malloc : Bool
  accepts : ℤ

/-- The part that the two send functions share: the result, and the bytes that the transport
accepted. Assumes: `datalen + 4` is in the range of `int`. -/
def sendFrame (env : SendEnv) (data : List UInt8) (datalen : ℤ) : ℤ × List UInt8 :=
  if env.writeTimeout = 0 then
    if env.malloc then
      let netlen := env.order.hostToNet (datalen % 2 ^ 32).toNat
      let netdata := env.order.store netlen ++ data.take datalen.toNat
      let accepted := netdata.take env.accepts.toNat
      if env.accepts < datalen + 4 then (env.accepts, accepted) else (0, accepted)
    else (errMalloc, [])
  else if env.writeTimeout = -1 ∧ env.timedOut then (errTimeOut, [])
  else (env.writeTimeout, [])

/-- `sckClient_send`. -/
def sckClientSend (env : SendEnv) (data : Option (List UInt8)) (datalen : ℤ) : ℤ × List UInt8 :=
  match data with
  | none => (errParam, [])
  | some data => if datalen ≤ 0 then (errParam, []) else sendFrame env data datalen

/-- `sckServer_send`, which does not check its arguments. -/
def sckServerSend (env : SendEnv) (data : List UInt8) (datalen : ℤ) : ℤ × List UInt8 :=
  sendFrame env data datalen

/-! ### Receiving -/

/-- The surroundings of a receive: the bits of `size_t`, the byte order, what `read_timeout` returns
and whether `errno` is `ETIMEDOUT` then, and whether `malloc` succeeds. -/
structure RevEnv where
  sizeBits : ℕ
  size_bits : sizeBits = 32 ∨ sizeBits = 64
  order : ByteOrder
  readTimeout : ℤ
  timedOut : Bool
  malloc : Bool

/-- Undefined behaviour of a receive: `n + 1` overflows, `readn` writes behind the buffer, or the
null byte is written outside of it. -/
inductive RevFault
  | signedOverflow
  | overrun
  | outOfBounds
  deriving DecidableEq

/-- What a receive returns, and what it stores through `out` and `outlen`. -/
structure Received where
  ret : ℤ
  out : Option (List UInt8 × ℤ)
  deriving DecidableEq

/-- The second half of a receive, from the allocation of the buffer on: `n` is the length that the
frame gives. -/
def revBody (env : RevEnv) (n : ℤ) (wire : Wire) : Except RevFault (Received × Wire) :=
  if intMax < n + 1 then .error .signedOverflow
  else if ¬ env.malloc then .ok (⟨errMalloc, none⟩, wire)
  else
    let size := ((n + 1) % 2 ^ env.sizeBits).toNat
    let (ret, stored, wire) := readn (n % 2 ^ env.sizeBits).toNat wire
    if size < stored.length then .error .overrun
    else if ret = -1 then .ok (⟨ret, none⟩, wire)
    else if ret < n then .ok (⟨errPeerClosed, none⟩, wire)
    else if 0 ≤ n ∧ n < size then .ok (⟨0, some (stored.take n.toNat ++ [0], n)⟩, wire)
    else .error .outOfBounds

/-- `sckServer_rev` and `sckClient_rev`, which differ in their log messages only. -/
def rev (env : RevEnv) (outNull : Bool) (wire : Wire) : Except RevFault (Received × Wire) :=
  if outNull then .ok (⟨errParam, none⟩, wire)
  else if env.readTimeout ≠ 0 then
    if env.readTimeout = -1 ∨ env.timedOut then .ok (⟨errTimeOut, none⟩, wire)
    else .ok (⟨env.readTimeout, none⟩, wire)
  else
    let (ret, header, wire) := readn 4 wire
    if ret = -1 then .ok (⟨ret, none⟩, wire)
    else if ret < 4 then .ok (⟨errPeerClosed, none⟩, wire)
    else revBody env (toInt (env.order.hostToNet (env.order.load header))) wire

/-- `sckServer_rev`. -/
def sckServerRev (env : RevEnv) (outNull : Bool) (wire : Wire) :
    Except RevFault (Received × Wire) := rev env outNull wire

/-- `sckClient_rev`. -/
def sckClientRev (env : RevEnv) (outNull : Bool) (wire : Wire) :
    Except RevFault (Received × Wire) := rev env outNull wire

end Exc.Socket
