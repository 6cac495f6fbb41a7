import Exc.Socket.Framing
import Exc.Socket.Poolsocket

/-!
# The result of a send

A send returns 0 when the transport has accepted the whole frame, and a negative number or an error
code when it has not, with one exception: what `send` returns is the result when it is less than the
length of the frame, and `send` may return 0 (`send_reports_iff`).
-/

set_option autoImplicit false
set_option relaxedAutoImplicit false

namespace Exc.Socket

open Lib

/-- A send returns 0 exactly when the transport accepted the whole frame of the message. -/
def ReportsWhole (message : List UInt8) (result : ℤ × List UInt8) : Prop :=
  result.1 = 0 ↔ result.2 = frame message

/-- The socket is writable and the frame is made, and `send` returns 0. -/
def SendEnv.AcceptsNothing (env : SendEnv) : Prop :=
  env.writeTimeout = 0 ∧ env.malloc ∧ env.accepts = 0

variable {message data : List UInt8} {datalen : ℤ}

theorem frame_ne_nil (message : List UInt8) : frame message ≠ [] := by
  refine List.ne_nil_of_length_pos ?_
  rw [length_frame]
  exact Nat.succ_pos _

/-- A send that fails before it comes to `send`. -/
theorem reportsWhole_error {code : ℤ} (hcode : code ≠ 0) : ReportsWhole message (code, []) :=
  iff_of_false hcode (frame_ne_nil message).symm

/-- The bytes that `send` is called with. -/
theorem sendFrame_data (order : ByteOrder) (hpos : 1 ≤ datalen) (hdata : datalen ≤ data.length)
    (hmax : datalen + 4 ≤ intMax) :
    order.store (order.hostToNet (datalen % 2 ^ 32).toNat) ++ data.take datalen.toNat =
      frame (data.take datalen.toNat) := by
  have hlength : (data.take datalen.toNat).length = datalen.toNat :=
    List.length_take_of_le (by omega)
  have hmod : datalen % 2 ^ 32 = datalen := by
    rw [intMax] at hmax
    omega
  rw [frame, hlength, ByteOrder.store_hostToNet, hmod]

/-- The first bytes of a frame are all of it when they are as many. -/
theorem take_frame_eq_iff {count : ℕ} :
    (frame message).take count = frame message ↔ message.length + 4 ≤ count := by
  rw [List.take_eq_self_iff, length_frame]

theorem sendFrame_reports_iff (env : SendEnv) (hpos : 1 ≤ datalen) (hdata : datalen ≤ data.length)
    (hmax : datalen + 4 ≤ intMax) :
    ReportsWhole (data.take datalen.toNat) (sendFrame env data datalen) ↔ ¬env.AcceptsNothing := by
  have hlength : (data.take datalen.toNat).length = datalen.toNat :=
    List.length_take_of_le (by omega)
  rw [sendFrame, SendEnv.AcceptsNothing]
  dsimp only
  rw [sendFrame_data env.order hpos hdata hmax]
  split_ifs with hwrite hmalloc hshort hlate
  · -- `send` accepts less than the frame, and what it returns is the result
    have hpart : (frame (data.take datalen.toNat)).take env.accepts.toNat ≠
        frame (data.take datalen.toNat) := by
      rw [Ne, take_frame_eq_iff, hlength]
      omega
    simp only [ReportsWhole, hpart, iff_false, hwrite, hmalloc, true_and]
  · have hwhole : (frame (data.take datalen.toNat)).take env.accepts.toNat =
        frame (data.take datalen.toNat) := by
      rw [take_frame_eq_iff, hlength]
      omega
    exact iff_of_true (iff_of_true rfl hwhole) fun hnothing ↦ by omega
  · exact iff_of_true (reportsWhole_error (by decide)) fun hnothing ↦ hmalloc hnothing.2.1
  · exact iff_of_true (reportsWhole_error (by decide)) fun hnothing ↦ hwrite hnothing.1
  · exact iff_of_true (reportsWhole_error hwrite) fun hnothing ↦ hwrite hnothing.1

/-- A send returns 0 exactly when the transport accepted the whole frame, if and only if `send` is
not reached or does not return 0. Assumes: `datalen` bytes of data, at least one, and a frame whose
length is in the range of `int`. For every outcome of `write_timeout`, `malloc` and `send`.
`sckCltPool_send` does not come to `send` either when it rejects its arguments. -/
theorem send_reports_iff (env : SendEnv) (data : List UInt8) (datalen : ℤ) (hpos : 1 ≤ datalen)
    (hdata : datalen ≤ data.length) (hmax : datalen + 4 ≤ intMax)
    (handleNull : Bool) (connfd : ℤ) :
    (ReportsWhole (data.take datalen.toNat) (sckClientSend env (some data) datalen) ↔
      ¬env.AcceptsNothing) ∧
    (ReportsWhole (data.take datalen.toNat) (sckServerSend env data datalen) ↔
      ¬env.AcceptsNothing) ∧
    (ReportsWhole (data.take datalen.toNat)
        (sckCltPoolSend handleNull connfd env (some data) datalen) ↔
      handleNull ∨ connfd < 0 ∨ ¬env.AcceptsNothing) := by
  have hframe := sendFrame_reports_iff env hpos hdata hmax
  have hclient : sckClientSend env (some data) datalen = sendFrame env data datalen :=
    if_neg (by omega)
  refine ⟨by rw [hclient, hframe], by rw [sckServerSend, hframe], ?_⟩
  rw [sckCltPoolSend]
  by_cases hparam : (handleNull : Prop) ∨ connfd < 0
  · rw [if_pos (hparam.imp_right .inl), ← or_assoc]
    exact iff_of_true (reportsWhole_error (by decide)) (.inl hparam)
  · have hgood : ¬((handleNull : Prop) ∨ connfd < 0 ∨ some data = none ∨ datalen ≤ 0) := by
      rw [← or_assoc, or_iff_right hparam, or_iff_right (Option.some_ne_none data)]
      omega
    rw [if_neg hgood, ← or_assoc, or_iff_right hparam, hclient, hframe]

/-- Three bytes, all of which are accepted, on a machine of little byte order. -/
theorem send_reports_whole :
    ReportsWhole [1, 2, 3] (sckClientSend (littleSender 3) (some [1, 2, 3]) 3) :=
  (send_reports_iff (littleSender 3) [1, 2, 3] 3 (by decide) (by decide) (by decide) false 7).1.mpr
    (by simp [SendEnv.AcceptsNothing, littleSender])

/-- `send` accepts nothing of a frame and returns 0: all three functions report success. -/
theorem send_reports_nothing :
    sckClientSend ⟨.little, 0, false, true, 0⟩ (some [1, 2, 3]) 3 = (0, []) ∧
    ¬∀ (env : SendEnv) (data : List UInt8) (datalen : ℤ), 1 ≤ datalen → datalen ≤ data.length →
      datalen + 4 ≤ intMax → env.accepts = -1 ∨ 0 ≤ env.accepts ∧ env.accepts ≤ datalen + 4 →
      ReportsWhole (data.take datalen.toNat) (sckClientSend env (some data) datalen) ∧
      ReportsWhole (data.take datalen.toNat) (sckServerSend env data datalen) ∧
      ReportsWhole (data.take datalen.toNat) (sckCltPoolSend false 7 env (some data) datalen) := by
  have hnothing : sckClientSend ⟨.little, 0, false, true, 0⟩ (some [1, 2, 3]) 3 = (0, []) := rfl
  refine ⟨hnothing, fun hall ↦ ?_⟩
  have hwhole := (hall ⟨.little, 0, false, true, 0⟩ [1, 2, 3] 3 (by decide) (by decide) (by decide)
    (by decide)).1
  rw [hnothing] at hwhole
  exact frame_ne_nil _ (hwhole.mp rfl).symm

end Exc.Socket
