import Exc.Epoll.EpollG5

/-!
# The forwarder keeps its clients apart while it serves one at a time

`TransferSocketData` takes the socket to send to from `ServerEnv`, and `send` always sends the whole
buffer. So what comes from a client goes to the client accepted after it
(`client_reaches_other_client`), and a short message is filled up with zeros. In every run in which
`recv` gives data only from sockets of the pair in `ServerEnv`, and a whole buffer of it when it
comes from a client, each server gets what its client has sent and no pair gets anything of another
(`forwarder_isolates`).
-/

set_option autoImplicit false
set_option relaxedAutoImplicit false

namespace Exc.Epoll

open Lib

/-- The descriptor that `TransferSocketData` receives from and its socket, if it is open. -/
def State.reading (state : State) : Option (Fd × Socket) :=
  state.transfer.bind fun transfer ↦ (state.sockets transfer.1).map fun source ↦
    (transfer.1, source)

/-- The sockets in `ServerEnv` are those of the pair that the data comes from: a client is the one
accepted last, its server socket is open and the data fills the buffer; for a server socket the
client socket is that of its pair, or closed. -/
def InServerEnv (state : State) (bytes : List UInt8) (inSock : Fd) (source : Socket) : Prop :=
  match source.side with
  | .client => inSock = state.listenAddrSock ∧
      state.sockets state.serverAddrSock = some ⟨source.pair, .server⟩ ∧ bytes.length = bufSize
  | .server => ∀ target ∈ state.sockets state.listenAddrSock, target = ⟨source.pair, .client⟩

instance (state : State) (bytes : List UInt8) (inSock : Fd) (source : Socket) :
    Decidable (InServerEnv state bytes inSock source) :=
  match source with
  | ⟨_, .client⟩ => inferInstanceAs (Decidable (_ ∧ _ ∧ _))
  | ⟨_, .server⟩ => inferInstanceAs (Decidable (∀ target ∈ _, _))

/-- Data comes only from the pair in `ServerEnv`. -/
def ReadsCurrentPair (state : State) : Action → Prop
  | .recv (.data bytes) =>
    ∀ reading ∈ state.reading, InServerEnv state bytes reading.1 reading.2
  | _ => True

instance (state : State) : (action : Action) → Decidable (ReadsCurrentPair state action)
  | .recv (.data _) => inferInstanceAs (Decidable (∀ reading ∈ _, _))
  | .recv .wouldBlock | .recv .failed | .recv .closed | .epollWait _ | .accept _ | .connected _
  | .readable => .isTrue trivial

/-- What a forwarder promises: a server socket is sent what its client's socket received, and what a
socket received is sent within its pair only. -/
structure Isolated (state : State) : Prop where
  exact : ∀ pair, state.written ⟨pair, .server⟩ = state.received ⟨pair, .client⟩
  apart : ∀ sent ∈ state.sends, sent.1.pair = sent.2.pair

/-- With that, `TransferSocketData` has the descriptors that it chose by the sockets that are still
in `ServerEnv`. -/
structure Forwarding (state : State) : Prop extends Isolated state where
  target : ∀ inSock outSock, state.transfer = some (inSock, outSock) →
    outSock = if inSock = state.listenAddrSock then state.serverAddrSock else state.listenAddrSock

variable {listenfd : Fd} {state result : State}

theorem forwarding_initial : Forwarding (initial listenfd) where
  exact _ := rfl
  apart := List.forall_mem_nil _
  target _ _ htransfer := by cases htransfer

/-! ### Steps that pass nothing on -/

/-- Nothing was received or sent from one state to the next. -/
structure SameTraffic (state result : State) : Prop where
  received : result.received = state.received
  written : result.written = state.written
  sends : result.sends = state.sends
  transfer : result.transfer = state.transfer

theorem SameTraffic.trans {middle : State} (hfirst : SameTraffic state middle)
    (hlast : SameTraffic middle result) : SameTraffic state result :=
  ⟨hlast.received.trans hfirst.received, hlast.written.trans hfirst.written,
    hlast.sends.trans hfirst.sends, hlast.transfer.trans hfirst.transfer⟩

theorem Isolated.of_sameTraffic (h : Isolated state) (hsame : SameTraffic state result) :
    Isolated result := by
  constructor
  · intro pair
    rw [hsame.written, hsame.received]
    exact h.exact pair
  · rw [hsame.sends]
    exact h.apart

theorem sameTraffic_epollAdd (fd : Fd) (interest : Interest) :
    SameTraffic state (state.epollAdd fd interest) := by
  rw [State.epollAdd]
  split_ifs
  · exact ⟨rfl, rfl, rfl, rfl⟩
  · exact ⟨rfl, rfl, rfl, rfl⟩

theorem acceptForwardSocket_sameTraffic {outcome : Accepted}
    (hstep : state.acceptForwardSocket listenfd outcome = some result) :
    SameTraffic state result := by
  have hopen (client server : Fd) :
      SameTraffic state ((state.acceptClient client).openServer server) := ⟨rfl, rfl, rfl, rfl⟩
  cases outcome with
  | acceptFailed =>
    obtain rfl := Option.some.inj hstep
    exact ⟨rfl, rfl, rfl, rfl⟩
  | socketFailed client =>
    simp only [State.acceptForwardSocket] at hstep
    split_ifs at hstep
    obtain rfl := Option.some.inj hstep
    exact ⟨rfl, rfl, rfl, rfl⟩
  | connectFailed client server =>
    simp only [State.acceptForwardSocket] at hstep
    split_ifs at hstep
    obtain rfl := Option.some.inj hstep
    exact ⟨rfl, rfl, rfl, rfl⟩
  | inProgress client server =>
    simp only [State.acceptForwardSocket] at hstep
    split_ifs at hstep
    obtain rfl := Option.some.inj hstep
    exact (hopen client server).trans (sameTraffic_epollAdd server .output)
  | connected client server =>
    simp only [State.acceptForwardSocket] at hstep
    split_ifs at hstep
    obtain rfl := Option.some.inj hstep
    exact ((hopen client server).trans (sameTraffic_epollAdd client .input)).trans
      (sameTraffic_epollAdd server .input)

theorem setSocketConnected_sameTraffic (state : State) (success : Bool) :
    SameTraffic state (state.setSocketConnected success) := by
  have hdeleted : SameTraffic state (state.epollDel state.serverAddrSock) := ⟨rfl, rfl, rfl, rfl⟩
  cases success with
  | false => exact ⟨rfl, rfl, rfl, rfl⟩
  | true =>
    exact (hdeleted.trans (sameTraffic_epollAdd state.listenAddrSock .input)).trans
      (sameTraffic_epollAdd state.serverAddrSock .input)

/-! ### One step -/

/-- A step outside `TransferSocketData` that passes nothing on. -/
theorem Forwarding.of_sameTraffic (h : Forwarding state) (hidle : state.transfer = none)
    (hsame : SameTraffic state result) : Forwarding result where
  toIsolated := h.toIsolated.of_sameTraffic hsame
  target inSock outSock htransfer := by
    rw [hsame.transfer, hidle] at htransfer
    cases htransfer

theorem isolated_send {outSock : Fd} {bytes buf : List UInt8} {source : Socket}
    (h : Isolated state)
    (hclient : source.side = .client →
      state.sockets outSock = some ⟨source.pair, .server⟩ ∧ buf = bytes)
    (hserver : source.side = .server → ∀ target ∈ state.sockets outSock,
      target = ⟨source.pair, .client⟩) :
    Isolated (State.send { state with
      received := Function.update state.received source (state.received source ++ bytes) }
      source outSock buf) := by
  obtain ⟨pair, side⟩ := source
  cases side with
  | client =>
    obtain ⟨hopen, rfl⟩ := hclient rfl
    simp only [State.send, hopen]
    constructor
    · intro other
      by_cases hother : other = pair
      · subst hother
        simp [h.exact other]
      · simp [hother, h.exact other]
    · rw [List.forall_mem_append, List.forall_mem_singleton]
      exact ⟨h.apart, rfl⟩
  | server =>
    have hreceived (other : ℕ) : Function.update state.received ⟨pair, .server⟩
        (state.received ⟨pair, .server⟩ ++ bytes) ⟨other, .client⟩ =
        state.received ⟨other, .client⟩ := Function.update_of_ne (by simp) _ _
    cases hopen : state.sockets outSock with
    | none =>
      simp only [State.send, hopen]
      exact ⟨fun other ↦ (h.exact other).trans (hreceived other).symm, h.apart⟩
    | some target =>
      obtain rfl := hserver rfl target hopen
      simp only [State.send, hopen]
      constructor
      · intro other
        have hwritten := Function.update_of_ne (f := state.written)
          (show (⟨other, .server⟩ : Socket) ≠ ⟨pair, .client⟩ by simp)
          (state.written ⟨pair, .client⟩ ++ buf)
        exact hwritten.trans ((h.exact other).trans (hreceived other).symm)
      · rw [List.forall_mem_append, List.forall_mem_singleton]
        exact ⟨h.apart, rfl⟩

theorem buffer_of_full {bytes : List UInt8} (hfull : bytes.length = bufSize) :
    State.buffer bytes = bytes := by
  rw [State.buffer, hfull, Nat.sub_self, List.replicate_zero, List.append_nil]

/-- A `recv` gives data, which is sent on, or ends `TransferSocketData`. -/
theorem recv_cases {outcome : Received} (hstep : state.recv outcome = some result) :
    (∃ bytes inSock outSock source, outcome = .data bytes ∧
      state.transfer = some (inSock, outSock) ∧ state.sockets inSock = some source ∧
      result = State.send { state with
        received := Function.update state.received source (state.received source ++ bytes) }
        source outSock (State.buffer bytes)) ∨
    (result.transfer = none ∧ result.received = state.received ∧
      result.written = state.written ∧ result.sends = state.sends) := by
  rw [State.recv] at hstep
  split at hstep
  · cases hstep
  · rename_i inSock outSock htransfer
    split at hstep
    · obtain rfl := Option.some.inj hstep
      exact Or.inr ⟨rfl, rfl, rfl, rfl⟩
    · cases hstep
    · obtain rfl := Option.some.inj hstep
      exact Or.inr ⟨rfl, rfl, rfl, rfl⟩
    · obtain rfl := Option.some.inj hstep
      exact Or.inr ⟨rfl, rfl, rfl, rfl⟩
    · rename_i bytes source hsource
      split_ifs at hstep
      exact Or.inl ⟨bytes, inSock, outSock, source, rfl, htransfer, hsource,
        (Option.some.inj hstep).symm⟩

/-- `send` changes neither the sockets in `ServerEnv` nor the two descriptors. -/
theorem send_fields (state : State) (source : Socket) (outSock : Fd) (buf : List UInt8) :
    (state.send source outSock buf).transfer = state.transfer ∧
      (state.send source outSock buf).listenAddrSock = state.listenAddrSock ∧
      (state.send source outSock buf).serverAddrSock = state.serverAddrSock := by
  rw [State.send]
  split
  · exact ⟨rfl, rfl, rfl⟩
  · exact ⟨rfl, rfl, rfl⟩

/-- What `recv` gives from the pair in `ServerEnv` stays in that pair. -/
theorem send_forwarding {bytes : List UInt8} {inSock outSock : Fd} {source : Socket}
    (h : Forwarding state) (hguard : ReadsCurrentPair state (.recv (.data bytes)))
    (htransfer : state.transfer = some (inSock, outSock))
    (hsource : state.sockets inSock = some source) :
    Forwarding (State.send { state with
      received := Function.update state.received source (state.received source ++ bytes) }
      source outSock (State.buffer bytes)) := by
  have htarget := h.target inSock outSock htransfer
  have hcurrent : InServerEnv state bytes inSock source :=
    hguard (inSock, source) (by simp [State.reading, htransfer, hsource])
  refine ⟨isolated_send h.toIsolated (fun hside ↦ ?_) fun hside target hopen ↦ ?_, ?_⟩
  · simp only [InServerEnv, hside] at hcurrent
    obtain ⟨hcurrent, hserver, hfull⟩ := hcurrent
    rw [if_pos hcurrent] at htarget
    rw [htarget]
    exact ⟨hserver, buffer_of_full hfull⟩
  · simp only [InServerEnv, hside] at hcurrent
    -- A server socket is not the one that `ServerEnv` has for the client.
    have hother : inSock ≠ state.listenAddrSock := by
      rintro rfl
      have hclient := hcurrent source hsource
      rw [hclient] at hside
      cases hside
    rw [if_neg hother] at htarget
    rw [htarget] at hopen
    exact hcurrent target hopen
  · obtain ⟨hsame, hlisten, hserver⟩ := send_fields { state with
      received := Function.update state.received source (state.received source ++ bytes) }
      source outSock (State.buffer bytes)
    rw [hsame, hlisten, hserver]
    exact h.target

/-- Every step that reads the pair in `ServerEnv` keeps the pairs apart. -/
theorem next_forwarding {action : Action} (h : Forwarding state)
    (hguard : ReadsCurrentPair state action) (hnext : next listenfd state action = some result) :
    Forwarding result := by
  simp only [next] at hnext
  split at hnext
  · rcases recv_cases hnext with ⟨bytes, inSock, outSock, source, rfl, htransfer, hsource, rfl⟩ |
      ⟨hidle, hreceived, hwritten, hsends⟩
    · exact send_forwarding h hguard htransfer hsource
    · refine ⟨⟨fun pair ↦ ?_, ?_⟩, fun inSock outSock htransfer ↦ ?_⟩
      · rw [hwritten, hreceived]
        exact h.exact pair
      · rw [hsends]
        exact h.apart
      · rw [hidle] at htransfer
        cases htransfer
  · cases hnext
  · rename_i hidle
    split at hnext
    · split_ifs at hnext
      obtain rfl := Option.some.inj hnext
      exact h.of_sameTraffic hidle ⟨rfl, rfl, rfl, rfl⟩
    · split_ifs at hnext
      have hsame := acceptForwardSocket_sameTraffic hnext
      exact h.of_sameTraffic hidle ⟨hsame.received, hsame.written, hsame.sends, hsame.transfer⟩
    · split_ifs at hnext
      obtain rfl := Option.some.inj hnext
      refine ⟨⟨h.exact, h.apart⟩, fun inSock outSock htransfer ↦ ?_⟩
      obtain ⟨rfl, rfl⟩ := Prod.mk.inj (Option.some.inj htransfer)
      rfl
    · rename_i fd rest success _
      split_ifs at hnext
      · obtain rfl := Option.some.inj hnext
        have hsame := setSocketConnected_sameTraffic { state with events := rest } success
        exact h.of_sameTraffic hidle ⟨hsame.received, hsame.written, hsame.sends, hsame.transfer⟩
      · obtain rfl := Option.some.inj hnext
        exact h.of_sameTraffic hidle ⟨rfl, rfl, rfl, rfl⟩
    · cases hnext

/-! ### Runs -/

/-- In every run that receives data only from the pair in `ServerEnv`, every server socket is sent
what its client has sent, and nothing goes to another pair. -/
theorem forwarder_isolates {actions : List Action}
    (hrun : Run (guarded ReadsCurrentPair (stepOf (next listenfd))) (initial listenfd) actions
      state) : Isolated state := by
  have hforwarding : Forwarding state :=
    hrun.invariant Forwarding forwarding_initial
      fun _ _ _ h hstep ↦ next_forwarding h hstep.1 hstep.2
  exact hforwarding.toIsolated

/-- A client sends a whole buffer, and its server answers. -/
theorem forwarder_isolates_one :
    ∃ state, Run (guarded ReadsCurrentPair (stepOf (next 3))) (initial 3)
        [.epollWait [(3, .input)], .accept (.connected 5 6), .epollWait [(5, .input), (6, .input)],
          .readable, .recv (.data (List.replicate bufSize 1)), .recv .wouldBlock,
          .readable, .recv (.data [2])] state ∧ Isolated state ∧
      state.sends = [(⟨0, .client⟩, ⟨0, .server⟩), (⟨0, .server⟩, ⟨0, .client⟩)] :=
  ⟨_, Run.of_isSome (by decide +kernel), forwarder_isolates (Run.of_isSome (by decide +kernel)),
    by decide +kernel⟩

/-- Two clients are accepted, and then the first one sends a byte: the second one gets it, followed
by zeros, and the server of the first one gets nothing. -/
theorem client_reaches_other_client :
    ∃ state, Run (stepOf (next 3)) (initial 3)
        [.epollWait [(3, .input)], .accept (.connected 5 6), .epollWait [(3, .input)],
          .accept (.connected 7 8), .epollWait [(5, .input)], .readable, .recv (.data [1])] state ∧
      state.received ⟨0, .client⟩ = [1] ∧ state.written ⟨0, .server⟩ = [] ∧
      state.written ⟨1, .client⟩ = State.buffer [1] ∧
      state.sends = [(⟨0, .client⟩, ⟨1, .client⟩)] ∧ ¬Isolated state := by
  refine ⟨_, Run.of_eval (by decide +kernel), by decide +kernel, by decide +kernel, rfl,
    by decide +kernel, fun h ↦ ?_⟩
  have hpairs := h.apart (⟨0, .client⟩, ⟨1, .client⟩) (by decide +kernel)
  exact absurd hpairs (by decide)

end Exc.Epoll
