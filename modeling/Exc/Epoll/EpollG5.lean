import Exc.Lib.Run
import Mathlib.Data.UInt

/-!
# The port forwarder

`tpc/epoll/epollG5.c`: for each client that it accepts the forwarder opens a connection to a server
and then passes on what it receives from the one to the other. There is one `ServerEnv`: the two
sockets in it, `listen_addr.sock` and `server_addr.sock`, are those of the client accepted last,
while the sockets of all clients are registered with `epoll`.

A state is the two socket fields, the sockets that are open, the descriptors registered with
`epoll`, and the events of the last `epoll_wait` that `ServerLoop` has not handled yet.
`TransferSocketData` fixes its two descriptors when it is called and then receives in a loop, one
`recv` and `send` a step. The kernel and the peers choose the new descriptors, the events, and what
`accept`, `socket`, `connect`, `getsockopt` and `recv` return; `send` takes all it is given, from a
socket that is open, and a failure of it is not noticed.

A socket belongs to a pair: the client's socket and the socket opened to the server for it. Pairs
have numbers, which the program does not have, and `received` and `written` are the bytes that went
through each socket so far.

Scope. `sock_count`, the size of the array of events and the text of the messages are left out, and
so is the branch for `TEST`, which is not compiled.
-/

set_option autoImplicit false
set_option relaxedAutoImplicit false

namespace Exc.Epoll

open Lib

/-- `BUFSIZE`. -/
def bufSize : ℕ := 4096

/-- A descriptor; a failed call returns `-1`. -/
abbrev Fd := ℤ

/-- The two ends of a forwarded connection. -/
inductive Side
  | client
  | server
  deriving DecidableEq

/-- An open socket: the pair that it belongs to, and its side. -/
structure Socket where
  pair : ℕ
  side : Side
  deriving DecidableEq

/-- `EPOLLIN` and `EPOLLOUT`. -/
inductive Interest
  | input
  | output
  deriving DecidableEq

/-- The sockets of `ServerEnv`, the kernel, where `ServerLoop` is, and what happened so far. -/
structure State where
  listenAddrSock : Fd
  serverAddrSock : Fd
  sockets : Fd → Option Socket
  registered : Fd → Option Interest
  events : List (Fd × Interest)
  /-- `in_sock` and `out_sock` while `TransferSocketData` runs. -/
  transfer : Option (Fd × Fd)
  pairs : ℕ
  received : Socket → List UInt8
  written : Socket → List UInt8
  /-- The source and the target of each `send`, if both are open. -/
  sends : List (Socket × Socket)

/-- After `InitEnv` and `BindListenSocket`. -/
def initial (listenfd : Fd) : State where
  listenAddrSock := 0
  serverAddrSock := 0
  sockets := fun _ ↦ none
  registered := Function.update (fun _ ↦ none) listenfd (some .input)
  events := []
  transfer := none
  pairs := 0
  received := fun _ ↦ []
  written := fun _ ↦ []
  sends := []

/-- What the calls in `AcceptForwardSocket` return: the descriptors of `accept` and `socket`, and
the outcome of `connect`. -/
inductive Accepted
  | acceptFailed
  | socketFailed (client : Fd)
  | connectFailed (client server : Fd)
  | inProgress (client server : Fd)
  | connected (client server : Fd)
  deriving DecidableEq

/-- What `recv` returns. -/
inductive Received
  | data (bytes : List UInt8)
  | wouldBlock
  | failed
  | closed
  deriving DecidableEq

/-- What can happen next: `epoll_wait` returns, the next event is handled, or `recv` returns. -/
inductive Action
  | epollWait (events : List (Fd × Interest))
  | accept (outcome : Accepted)
  | connected (success : Bool)
  | readable
  | recv (outcome : Received)
  deriving DecidableEq

namespace State

/-- `epoll_ctl` with `EPOLL_CTL_ADD`: it fails for a descriptor that is registered or not open. -/
def epollAdd (state : State) (fd : Fd) (interest : Interest) : State :=
  if state.registered fd = none ∧ state.sockets fd ≠ none then
    { state with registered := Function.update state.registered fd (some interest) }
  else state

/-- `epoll_ctl` with `EPOLL_CTL_DEL`. -/
def epollDel (state : State) (fd : Fd) : State :=
  { state with registered := Function.update state.registered fd none }

/-- `close`, which also takes the descriptor out of `epoll`. -/
def close (state : State) (fd : Fd) : State :=
  { state with
    sockets := Function.update state.sockets fd none
    registered := Function.update state.registered fd none }

/-- A new descriptor: none that is open, nor that of the listening socket. -/
def IsNew (listenfd : Fd) (state : State) (fd : Fd) : Prop :=
  0 ≤ fd ∧ fd ≠ listenfd ∧ state.sockets fd = none

instance (listenfd : Fd) (state : State) (fd : Fd) : Decidable (IsNew listenfd state fd) :=
  inferInstanceAs (Decidable (_ ∧ _))

/-- `accept` has returned a socket. -/
def acceptClient (state : State) (client : Fd) : State :=
  { state with
    listenAddrSock := client
    sockets := Function.update state.sockets client (some ⟨state.pairs, .client⟩)
    pairs := state.pairs + 1 }

/-- `socket` has returned the socket for the pair accepted last. -/
def openServer (state : State) (server : Fd) : State :=
  { state with
    serverAddrSock := server
    sockets := Function.update state.sockets server (some ⟨state.pairs - 1, .server⟩) }

/-- `AcceptForwardSocket`. It never returns a negative number. -/
def acceptForwardSocket (listenfd : Fd) (state : State) : Accepted → Option State
  | .acceptFailed => some { state with listenAddrSock := -1 }
  | .socketFailed client =>
    if IsNew listenfd state client then
      some { state.acceptClient client with serverAddrSock := -1 }
    else none
  | .connectFailed client server =>
    if IsNew listenfd state client ∧ IsNew listenfd state server ∧ client ≠ server then
      some (((state.acceptClient client).openServer server).close server)
    else none
  | .inProgress client server =>
    if IsNew listenfd state client ∧ IsNew listenfd state server ∧ client ≠ server then
      some (((state.acceptClient client).openServer server).epollAdd server .output)
    else none
  | .connected client server =>
    if IsNew listenfd state client ∧ IsNew listenfd state server ∧ client ≠ server then
      some ((((state.acceptClient client).openServer server).epollAdd client .input).epollAdd server
        .input)
    else none

/-- `SetSocketConnected`, for the sockets that are in `ServerEnv`. -/
def setSocketConnected (state : State) (success : Bool) : State :=
  let deleted := state.epollDel state.serverAddrSock
  if success then
    (deleted.epollAdd state.listenAddrSock .input).epollAdd state.serverAddrSock .input
  else (deleted.close state.serverAddrSock).close state.listenAddrSock

/-- The beginning of `TransferSocketData`. -/
def transferSocketData (state : State) (sockfd : Fd) : State :=
  { state with
    transfer := some (sockfd,
      if sockfd = state.listenAddrSock then state.serverAddrSock else state.listenAddrSock) }

/-- What is in `buf` when `recv` has stored some bytes there after the `memset`. -/
def buffer (bytes : List UInt8) : List UInt8 :=
  bytes ++ List.replicate (bufSize - bytes.length) 0

/-- `send(out_sock, buf, sizeof(buf), 0)` of what came from a socket. -/
def send (state : State) (source : Socket) (outSock : Fd) (buf : List UInt8) : State :=
  match state.sockets outSock with
  | none => state
  | some target =>
    { state with
      written := Function.update state.written target (state.written target ++ buf)
      sends := state.sends ++ [(source, target)] }

/-- `TransferSocketData` returns after it has closed the sockets in `ServerEnv`. -/
def closeBoth (state : State) : State :=
  { (state.close state.listenAddrSock).close state.serverAddrSock with transfer := none }

/-- One round of the loop of `TransferSocketData`. A descriptor that is not open gives an error. -/
def recv (state : State) (outcome : Received) : Option State :=
  match state.transfer with
  | none => none
  | some (inSock, outSock) =>
    match outcome, state.sockets inSock with
    | .failed, _ => some state.closeBoth
    | _, none => none
    | .closed, some _ => some state.closeBoth
    | .wouldBlock, some _ => some { state with transfer := none }
    | .data bytes, some source =>
      if 0 < bytes.length ∧ bytes.length ≤ bufSize then
        let received := Function.update state.received source (state.received source ++ bytes)
        some ({ state with received := received }.send source outSock (buffer bytes))
      else none

end State

/-- One step of `ServerLoop`. -/
def next (listenfd : Fd) (state : State) (action : Action) : Option State :=
  match state.transfer, action with
  | some _, .recv outcome => state.recv outcome
  | some _, _ => none
  | none, action =>
    match state.events, action with
    | [], .epollWait events =>
      if ∀ event ∈ events, state.registered event.1 = some event.2 then
        some { state with events := events }
      else none
    | (fd, .input) :: rest, .accept outcome =>
      if fd = listenfd then { state with events := rest }.acceptForwardSocket listenfd outcome
      else none
    | (fd, .input) :: rest, .readable =>
      if fd = listenfd then none else some ({ state with events := rest }.transferSocketData fd)
    | (fd, .output) :: rest, .connected success =>
      if fd = state.serverAddrSock then
        some ({ state with events := rest }.setSocketConnected success)
      else some { state with events := rest }
    | _, _ => none

end Exc.Epoll
