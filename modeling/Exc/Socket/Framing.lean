import Exc.Lib.Refinement
import Exc.Socket.Socketutil

/-!
# Frames over a stream

What is sent with `sckClient_send` and accepted whole is read back, message by message, by
`sckServer_rev`, however the stream is cut into pieces, and the same holds the other way round.

`readnLoop_arriving` is the loop of `readn` on any wire: what is stored are the bytes that arrive
before a `recv` fails, as many as there is room for. `readn_spec` is the case of a wire without
errors. `rev_frame` reads one frame with it, `revs_frames` a sequence of them, and
`messages_delivered` puts the two directions together.
-/

set_option autoImplicit false
set_option relaxedAutoImplicit false

namespace Exc.Socket

open Lib

/-! ### Reading a number of bytes -/

/-- No `recv` of the wire fails, but for interruptions. -/
def Wire.Clean (wire : Wire) : Prop := Segment.failed ∉ wire

instance (wire : Wire) : Decidable wire.Clean := inferInstanceAs (Decidable (_ ∉ _))

theorem Wire.clean_cons {segment : Segment} {wire : Wire} :
    Wire.Clean (segment :: wire) ↔ segment ≠ .failed ∧ wire.Clean := by
  rw [Wire.Clean, List.mem_cons, not_or, ne_comm]
  rfl

/-- The bytes of the stream that arrive before a `recv` fails. -/
def Wire.arriving : Wire → List UInt8
  | [] => []
  | .failed :: _ => []
  | segment :: wire => segment.bytes ++ Wire.arriving wire

theorem Wire.arriving_of_clean {wire : Wire} (hclean : wire.Clean) :
    wire.arriving = wire.content := by
  induction wire with
  | nil => rfl
  | cons segment wire ih =>
    obtain ⟨hfailed, hwire⟩ := Wire.clean_cons.mp hclean
    cases segment with
    | failed => exact absurd rfl hfailed
    | interrupted => exact ih hwire
    | data first rest => exact congrArg (first :: rest ++ ·) (ih hwire)

/-- A `recv` is interrupted, fails, finds the end of the stream, or takes some of the bytes that
arrive. -/
theorem recv_cases {len : ℕ} (hlen : 0 < len) (wire : Wire) :
    ∃ later : Wire,
      (recv len wire = (.interrupted, later) ∧ later.arriving = wire.arriving ∧
        (later.Clean ↔ wire.Clean)) ∨
      (recv len wire = (.failed, later) ∧ wire.arriving = [] ∧ ¬wire.Clean) ∨
      (recv len wire = (.received [], later) ∧ wire.arriving = [] ∧ wire.Clean) ∨
      ∃ first rest, recv len wire = (.received (first :: rest), later) ∧
        (first :: rest).length ≤ len ∧ wire.arriving = first :: rest ++ later.arriving ∧
        (later.Clean ↔ wire.Clean) := by
  obtain _ | ⟨segment, wire⟩ := wire
  · exact ⟨[], .inr (.inr (.inl ⟨rfl, rfl, List.not_mem_nil⟩))⟩
  · cases segment with
    | failed => exact ⟨wire, .inr (.inl ⟨rfl, rfl, by simp [Wire.Clean]⟩)⟩
    | interrupted => exact ⟨wire, .inl ⟨rfl, rfl, by simp [Wire.Clean]⟩⟩
    | data first rest =>
      cases hdrop : (first :: rest).drop len with
      | nil =>
        refine ⟨wire, .inr (.inr (.inr ⟨first, rest, by simp only [recv, hdrop], ?_, rfl,
          by simp [Wire.Clean]⟩))⟩
        exact List.drop_eq_nil_iff.mp hdrop
      | cons next later =>
        obtain ⟨count, rfl⟩ := Nat.exists_eq_add_of_le' hlen
        refine ⟨.data next later :: wire, .inr (.inr (.inr ⟨first, rest.take count, ?_, ?_, ?_,
          by simp [Wire.Clean]⟩))⟩
        · simp only [recv, hdrop, List.take_succ_cons]
        · simp
        · have hcut := List.take_append_drop (count + 1) (first :: rest)
          rw [hdrop, List.take_succ_cons] at hcut
          simp only [Wire.arriving, Segment.bytes]
          rw [← List.append_assoc, hcut]

/-- An interrupted `recv` is tried again. -/
theorem readnLoop_interrupted {count nleft : ℕ} {stored : List UInt8} {wire later : Wire}
    (hleft : 0 < nleft) (hrecv : recv nleft wire = (.interrupted, later)) :
    readnLoop count nleft stored wire = readnLoop count nleft stored later := by
  rw [readnLoop, if_pos hleft]
  split <;> simp_all

/-- The bytes that `recv` got are stored. -/
theorem readnLoop_received {count nleft : ℕ} {stored bytes : List UInt8} {wire later : Wire}
    (hleft : 0 < nleft) (hrecv : recv nleft wire = (.received bytes, later)) (hbytes : bytes ≠ []) :
    readnLoop count nleft stored wire =
      readnLoop count (nleft - bytes.length) (stored ++ bytes) later := by
  rw [readnLoop, if_pos hleft]
  split <;> simp_all

theorem readnLoop_failed {count nleft : ℕ} {stored : List UInt8} {wire later : Wire}
    (hleft : 0 < nleft) (hrecv : recv nleft wire = (.failed, later)) :
    readnLoop count nleft stored wire = (-1, stored, later) := by
  rw [readnLoop, if_pos hleft]
  split <;> simp_all

theorem readnLoop_closed {count nleft : ℕ} {stored : List UInt8} {wire later : Wire}
    (hleft : 0 < nleft) (hrecv : recv nleft wire = (.received [], later)) :
    readnLoop count nleft stored wire = (toInt (count - nleft : ℕ), stored, later) := by
  rw [readnLoop, if_pos hleft]
  split <;> simp_all

/-- The loop of `readn` on any wire: it stores what arrives, up to `nleft` bytes. When less arrives
it returns -1 after a failure, and the number of the bytes at the end of the stream. -/
theorem readnLoop_arriving (count nleft : ℕ) (stored : List UInt8) (wire : Wire)
    (hcount : stored.length + nleft = count) :
    ∃ later : Wire,
      (nleft ≤ wire.arriving.length ∧
        readnLoop count nleft stored wire =
          (toInt count, stored ++ wire.arriving.take nleft, later) ∧
        later.arriving = wire.arriving.drop nleft ∧ (later.Clean ↔ wire.Clean)) ∨
      wire.arriving.length < nleft ∧
        readnLoop count nleft stored wire =
          (if wire.Clean then toInt (stored.length + wire.arriving.length : ℕ) else -1,
            stored ++ wire.arriving, later) := by
  induction hmeasure : nleft + wire.length using Nat.strong_induction_on
    generalizing nleft stored wire with
  | _ measure ih =>
    subst hmeasure
    by_cases hleft : 0 < nleft
    · have hless := recv_segments nleft wire
      obtain ⟨later, ⟨hrecv, harrive, hclean⟩ | ⟨hrecv, harrive, hclean⟩ |
        ⟨hrecv, harrive, hclean⟩ | ⟨first, rest, hrecv, hle, harrive, hclean⟩⟩ :=
          recv_cases hleft wire
      · rw [hrecv] at hless
        dsimp only at hless
        rw [readnLoop_interrupted hleft hrecv, ← harrive]
        simp only [← hclean]
        exact ih _ (by omega) nleft stored later hcount rfl
      · refine ⟨later, .inr ⟨by rw [harrive]; exact hleft, ?_⟩⟩
        rw [readnLoop_failed hleft hrecv, if_neg hclean, harrive, List.append_nil]
      · refine ⟨later, .inr ⟨by rw [harrive]; exact hleft, ?_⟩⟩
        rw [readnLoop_closed hleft hrecv, if_pos hclean, harrive, List.append_nil,
          List.length_nil, show count - nleft = stored.length + 0 by omega]
      · rw [hrecv] at hless
        dsimp only at hless
        have hpos : 0 < (first :: rest).length := Nat.succ_pos _
        obtain ⟨final, hfinal⟩ := ih _ (by omega) (nleft - (first :: rest).length)
          (stored ++ first :: rest) later (by rw [List.length_append]; omega) rfl
        refine ⟨final, ?_⟩
        rw [readnLoop_received hleft hrecv (List.cons_ne_nil _ _), harrive]
        simp only [← hclean]
        obtain ⟨henough, hloop, hrest, hfinal⟩ | ⟨hshort, hloop⟩ := hfinal
        · refine .inl ⟨by rw [List.length_append]; omega, ?_, ?_, hfinal⟩
          · rw [hloop, List.take_append, List.take_of_length_le hle, List.append_assoc]
          · rw [hrest, List.drop_append, List.drop_of_length_le hle, List.nil_append]
        · refine .inr ⟨by rw [List.length_append]; omega, ?_⟩
          rw [hloop, List.length_append, List.length_append, Nat.add_assoc, List.append_assoc]
    · obtain rfl : nleft = 0 := by omega
      refine ⟨wire, .inl ⟨Nat.zero_le _, ?_, rfl, Iff.rfl⟩⟩
      rw [readnLoop, if_neg hleft, List.take_zero, List.append_nil]

/-- `readn` reads the next `count` bytes of the stream, on a wire without errors. -/
theorem readn_spec {count : ℕ} {wire : Wire} {bytes rest : List UInt8} (hclean : wire.Clean)
    (hbytes : bytes.length = count) (hcontent : wire.content = bytes ++ rest)
    (hcount : count < 2 ^ 31) :
    ∃ later : Wire, later.Clean ∧ readn count wire = ((count : ℤ), bytes, later) ∧
      later.content = rest := by
  have harrive : wire.arriving = bytes ++ rest := (Wire.arriving_of_clean hclean).trans hcontent
  obtain ⟨later, ⟨-, hread, hrest, hlater⟩ | ⟨hshort, -⟩⟩ :=
    readnLoop_arriving count count [] wire (Nat.zero_add _)
  · have hend : later.Clean := hlater.mpr hclean
    rw [harrive, List.take_left' hbytes, List.nil_append,
      toInt_eq_self (by omega) (by omega)] at hread
    rw [harrive, List.drop_left' hbytes, Wire.arriving_of_clean hend] at hrest
    exact ⟨later, hend, hread, hrest⟩
  · rw [harrive, List.length_append] at hshort
    omega

/-! ### Sending and receiving one frame -/

/-- The bytes that stand for a message on the stream. -/
def frame (message : List UInt8) : List UInt8 := ByteOrder.big.store message.length ++ message

/-- A message that can be sent: it is not empty, and its frame and its buffer at the receiver have
lengths in the range of `int`. -/
def Sendable (message : List UInt8) : Prop := 1 ≤ message.length ∧ message.length ≤ 2 ^ 31 - 6

/-- The socket is writable, `malloc` succeeds and `send` accepts the whole frame. -/
def SendEnv.Whole (env : SendEnv) (message : List UInt8) : Prop :=
  env.writeTimeout = 0 ∧ env.malloc ∧ env.accepts = message.length + 4

/-- The socket is readable and `malloc` succeeds. -/
def RevEnv.Ready (env : RevEnv) : Prop := env.readTimeout = 0 ∧ env.malloc

/-- The receipt of a message: its bytes with a null byte behind them, and its length. -/
def Received.ofMessage (message : List UInt8) : Received :=
  ⟨0, some (message ++ [0], message.length)⟩

theorem length_frame (message : List UInt8) : (frame message).length = message.length + 4 := by
  rw [frame, List.length_append, ByteOrder.length_store, Nat.add_comm]

/-- A send that is accepted whole puts the frame on the stream, on a machine of either order. -/
theorem sendFrame_whole {env : SendEnv} {message : List UInt8} (hsend : Sendable message)
    (hwhole : env.Whole message) : sendFrame env message message.length = (0, frame message) := by
  obtain ⟨hwrite, hmalloc, haccepts⟩ := hwhole
  have hbound := hsend.2
  have hlen : ((message.length : ℤ) % 2 ^ 32).toNat = message.length := by omega
  simp only [sendFrame, hwrite, hmalloc, haccepts, hlen, if_true, ByteOrder.store_hostToNet,
    Int.toNat_natCast, List.take_length, lt_irrefl, if_false]
  rw [← frame, List.take_of_length_le (by rw [length_frame]; omega)]

/-- The length of a message is what a receive finds in its frame. -/
theorem toInt_header (order : ByteOrder) {length : ℕ} (hlength : length < 2 ^ 31) :
    toInt (order.hostToNet (order.load (ByteOrder.big.store length))) = length := by
  rw [ByteOrder.netToHost_load _ (by omega), toInt_eq_self (by omega) (by omega)]

/-- The buffer for a message is one byte longer than the message, for either size of `size_t`. -/
theorem RevEnv.size_of_length (env : RevEnv) {length : ℕ} (hlength : length < 2 ^ 31) :
    ((length : ℤ) % 2 ^ env.sizeBits).toNat = length ∧
      (((length : ℤ) + 1) % 2 ^ env.sizeBits).toNat = length + 1 := by
  rcases env.size_bits with hbits | hbits <;> rw [hbits] <;> omega

/-- The second half of a receive takes the bytes of the message from the stream. -/
theorem revBody_message {env : RevEnv} {message rest : List UInt8} {wire : Wire}
    (hmalloc : env.malloc) (hsend : Sendable message) (hclean : wire.Clean)
    (hcontent : wire.content = message ++ rest) :
    ∃ later : Wire, later.Clean ∧ later.content = rest ∧
      revBody env message.length wire = .ok (Received.ofMessage message, later) := by
  obtain ⟨hpos, hbound⟩ := hsend
  have hint : message.length < 2 ^ 31 := by omega
  have hmax : ¬ intMax < (message.length : ℤ) + 1 := by
    rw [intMax]
    omega
  obtain ⟨later, hlater, hread, hrest⟩ := readn_spec hclean rfl hcontent hint
  obtain ⟨hcount, hsize⟩ := env.size_of_length hint
  refine ⟨later, hlater, hrest, ?_⟩
  rw [revBody, if_neg hmax, if_neg (not_not_intro hmalloc), hcount, hsize, hread]
  dsimp only
  rw [if_neg (by omega), if_neg (by omega), if_neg (by omega), if_pos (by omega),
    Int.toNat_natCast, List.take_length, Received.ofMessage]

/-- A receive takes exactly one frame from the stream. -/
theorem rev_frame {env : RevEnv} {message rest : List UInt8} {wire : Wire} (hready : env.Ready)
    (hsend : Sendable message) (hclean : wire.Clean)
    (hcontent : wire.content = frame message ++ rest) :
    ∃ later : Wire, later.Clean ∧ later.content = rest ∧
      rev env false wire = .ok (Received.ofMessage message, later) := by
  obtain ⟨hread, hmalloc⟩ := hready
  rw [frame, List.append_assoc] at hcontent
  obtain ⟨middle, hmiddle, hheader, hbody⟩ :=
    readn_spec hclean (ByteOrder.length_store _ _) hcontent (by omega)
  obtain ⟨later, hlater, hrest, hmessage⟩ := revBody_message hmalloc hsend hmiddle hbody
  have hbound := hsend.2
  refine ⟨later, hlater, hrest, ?_⟩
  rw [rev, if_neg Bool.false_ne_true, if_neg (not_not_intro hread), hheader]
  dsimp only
  rw [if_neg (by omega), if_neg (by omega), toInt_header _ (by omega), hmessage]

/-! ### Sequences of messages -/

/-- A sequence of receives takes as many frames from the stream. -/
theorem revs_frames {revs : List RevEnv} (hrevs : ∀ env ∈ revs, env.Ready)
    {messages : List (List UInt8)} (hsend : ∀ message ∈ messages, Sendable message)
    (hcount : revs.length ≤ messages.length) {wire : Wire} (hclean : wire.Clean)
    {rest : List UInt8} (hcontent : wire.content = messages.flatMap frame ++ rest) :
    ∃ later : Wire, later.Clean ∧
      later.content = (messages.drop revs.length).flatMap frame ++ rest ∧
      runExcept (fun wire env ↦ rev env false wire) revs wire =
        .ok ((messages.take revs.length).map Received.ofMessage, later) := by
  induction revs generalizing messages wire with
  | nil => exact ⟨wire, hclean, hcontent, rfl⟩
  | cons env revs ih =>
    obtain _ | ⟨message, messages⟩ := messages
    · simp at hcount
    · rw [List.flatMap_cons, List.append_assoc] at hcontent
      obtain ⟨middle, hmiddle, hframe, hrev⟩ := rev_frame (hrevs env List.mem_cons_self)
        (hsend message List.mem_cons_self) hclean hcontent
      obtain ⟨later, hlater, hrest, hruns⟩ :=
        ih (fun env henv ↦ hrevs env (List.mem_cons_of_mem _ henv))
          (fun message hmessage ↦ hsend message (List.mem_cons_of_mem _ hmessage))
          (by simpa using hcount) hmiddle hframe
      refine ⟨later, hlater, hrest, ?_⟩
      simp only [runExcept, hrev, hruns, bind, Except.bind]
      rfl

/-- The stream of a client that sends messages in order. -/
def clientStream (sends : List (SendEnv × List UInt8)) : List UInt8 :=
  sends.flatMap fun send ↦ (sckClientSend send.1 (some send.2) send.2.length).2

/-- The stream of a server that sends messages in order. -/
def serverStream (sends : List (SendEnv × List UInt8)) : List UInt8 :=
  sends.flatMap fun send ↦ (sckServerSend send.1 send.2 send.2.length).2

/-- Receives of what sends have put on the stream, when each send puts the frame of its message
there. -/
theorem revs_sends {sends : List (SendEnv × List UInt8)} {send : SendEnv × List UInt8 → List UInt8}
    (hframe : ∀ item ∈ sends, send item = frame item.2) (hsend : ∀ item ∈ sends, Sendable item.2)
    {revs : List RevEnv} (hrevs : ∀ env ∈ revs, env.Ready) (hcount : revs.length ≤ sends.length)
    {wire : Wire} (hclean : wire.Clean) {rest : List UInt8}
    (hcontent : wire.content = sends.flatMap send ++ rest) :
    ∃ later : Wire, later.content = (sends.drop revs.length).flatMap send ++ rest ∧
      runExcept (fun wire env ↦ rev env false wire) revs wire =
        .ok ((sends.take revs.length).map fun item ↦ Received.ofMessage item.2, later) := by
  have hstream : ∀ items : List (SendEnv × List UInt8), (∀ item ∈ items, item ∈ sends) →
      items.flatMap send = (items.map Prod.snd).flatMap frame := by
    intro items hitems
    rw [List.flatMap_map]
    exact List.flatMap_congr fun item hitem ↦ hframe item (hitems item hitem)
  have hmessages : ∀ message ∈ sends.map Prod.snd, Sendable message := by
    intro message hmem
    obtain ⟨item, hitem, rfl⟩ := List.mem_map.mp hmem
    exact hsend item hitem
  rw [hstream sends fun _ hitem ↦ hitem] at hcontent
  obtain ⟨later, -, hlater, hruns⟩ :=
    revs_frames hrevs hmessages (by simpa using hcount) hclean hcontent
  refine ⟨later, ?_, ?_⟩
  · rw [hlater, hstream _ fun _ hitem ↦ List.mem_of_mem_drop hitem, List.map_drop]
  · rw [hruns, ← List.map_take, List.map_map]
    rfl

/-- Messages arrive one by one, in both directions. Assumes: every message can be sent and is
accepted whole, and every receive finds the socket readable and gets its buffer. For every way the
stream is cut and interrupted, and every number of receives up to the number of messages, each
receive returns its message, and what the receives leave of the stream starts with the frame of the
next message. -/
theorem messages_delivered (sends : List (SendEnv × List UInt8))
    (hsends : ∀ send ∈ sends, Sendable send.2 ∧ send.1.Whole send.2)
    (revs : List RevEnv) (hrevs : ∀ env ∈ revs, env.Ready) (hcount : revs.length ≤ sends.length)
    (wire : Wire) (hclean : wire.Clean) (rest : List UInt8) :
    (wire.content = clientStream sends ++ rest →
      (∀ send ∈ sends, (sckClientSend send.1 (some send.2) send.2.length).1 = 0) ∧
      ∃ later : Wire, later.content = clientStream (sends.drop revs.length) ++ rest ∧
        runExcept (fun wire env ↦ sckServerRev env false wire) revs wire =
          .ok ((sends.take revs.length).map fun send ↦ Received.ofMessage send.2, later)) ∧
    (wire.content = serverStream sends ++ rest →
      (∀ send ∈ sends, (sckServerSend send.1 send.2 send.2.length).1 = 0) ∧
      ∃ later : Wire, later.content = serverStream (sends.drop revs.length) ++ rest ∧
        runExcept (fun wire env ↦ sckClientRev env false wire) revs wire =
          .ok ((sends.take revs.length).map fun send ↦ Received.ofMessage send.2, later)) := by
  have hclient : ∀ send ∈ sends,
      sckClientSend send.1 (some send.2) send.2.length = (0, frame send.2) := by
    intro send hmem
    obtain ⟨hsend, hwhole⟩ := hsends send hmem
    have hpos := hsend.1
    rw [sckClientSend, if_neg (by omega), sendFrame_whole hsend hwhole]
  have hserver : ∀ send ∈ sends,
      sckServerSend send.1 send.2 send.2.length = (0, frame send.2) := by
    intro send hmem
    rw [sckServerSend, sendFrame_whole (hsends send hmem).1 (hsends send hmem).2]
  have hsend : ∀ send ∈ sends, Sendable send.2 := fun send hmem ↦ (hsends send hmem).1
  refine ⟨fun hcontent ↦ ⟨fun send hmem ↦ by rw [hclient send hmem], ?_⟩,
    fun hcontent ↦ ⟨fun send hmem ↦ by rw [hserver send hmem], ?_⟩⟩
  · exact revs_sends (fun send hmem ↦ by rw [hclient send hmem]) hsend hrevs hcount hclean hcontent
  · exact revs_sends (fun send hmem ↦ by rw [hserver send hmem]) hsend hrevs hcount hclean hcontent

/-- A machine of little byte order on which the frame of a message of this length is accepted. -/
def littleSender (length : ℕ) : SendEnv := ⟨.little, 0, false, true, length + 4⟩

/-- A machine of big byte order with a readable socket. -/
def bigReceiver : RevEnv := ⟨32, Or.inl rfl, .big, 0, false, true⟩

/-- Two messages that arrive in pieces, cut inside the first header and across the frames, with an
interruption. -/
theorem messages_delivered_in_pieces :
    ∃ later : Wire, later.content = clientStream [(littleSender 1, [9])] ∧
      runExcept (fun wire env ↦ sckServerRev env false wire) [bigReceiver]
        [.data 0 [0], .interrupted, .data 0 [2, 7], .data 8 [0, 0, 0, 1, 9]] =
          .ok ([⟨0, some ([7, 8, 0], 2)⟩], later) := by
  obtain ⟨later, hlater, hruns⟩ := ((messages_delivered
    [(littleSender 2, [7, 8]), (littleSender 1, [9])]
    (by simp [Sendable, SendEnv.Whole, littleSender])
    [bigReceiver] (by simp [RevEnv.Ready, bigReceiver]) (by simp)
    [.data 0 [0], .interrupted, .data 0 [2, 7], .data 8 [0, 0, 0, 1, 9]] (by decide) []).1
    (by decide)).2
  exact ⟨later, hlater, hruns⟩

end Exc.Socket
