import FiveGProxy.UdpSession.Upstream

/-!
# Frames towards the client

A datagram of the 5G socket becomes one frame in `out_buf`, which is sent piecewise by two
handlers. `DownstreamInv` says that the bytes the client socket has accepted, followed by what
is still to be sent, are the frames of the received datagrams in order. The header is stored
backwards at an offset that depends on the address family, so the frame is compared with
`Datagram.frame`, which is put together forwards.
-/

namespace FiveGProxy

open Memory

namespace Datagram

def body (d : Datagram) : List UInt8 :=
  socks5UdpEncode d.src.ipAddr d.src.port ++ d.payload

def frame (d : Datagram) : List UInt8 :=
  (lenField d.body.length).1 :: (lenField d.body.length).2 :: d.body

def Received (d : Datagram) : Prop :=
  d.payload ≠ [] ∧ d.payload.length ≤ bufferSize - (2 + 22)

theorem length_body (d : Datagram) :
    d.body.length = (socks5UdpEncode d.src.ipAddr d.src.port).length + d.payload.length :=
  List.length_append

/-- A body is long enough for a header and its length fits in the length field. -/
theorem Received.body_bounds {d : Datagram} (h : d.Received) :
    4 ≤ d.body.length ∧ d.body.length < 2 ^ 16 := by
  obtain ⟨hne, hle⟩ := h
  rw [length_body, length_socks5UdpEncode]
  unfold bufferSize at hle
  rcases length_bytes d.src.ipAddr with ⟨hb, _⟩ | ⟨hb, _⟩ <;> rw [hb] <;> omega

end Datagram

namespace Session

def downstream (s : Session) := (s.outBuf, s.outLen, s.outOff, s.sent, s.arrived)

def pending (s : Session) : List UInt8 := slice s.outBuf s.outOff (s.outLen - s.outOff)

end Session

/-- The header begins at the same place whichever of its two computations is used. -/
theorem headerStart_eq (addr : IpAddr) (port : UInt8 × UInt8) (off : ℕ) :
    headerStart addr off = off - (socks5UdpEncode addr port).length := by
  rw [length_socks5UdpEncode]
  cases addr with
  | v4 b => rw [headerStart, IpAddr.bytes, b.length_toList]
  | v6 b => rw [headerStart, IpAddr.bytes, b.length_toList]

theorem slice_header (m : ℕ → UInt8) {off : ℕ} (hdr payload : List UInt8)
    (hoff : hdr.length ≤ off) :
    slice (write (write m off payload) (off - hdr.length) hdr) (off - hdr.length)
      (payload.length + hdr.length) = hdr ++ payload := by
  obtain ⟨start, rfl⟩ := Nat.exists_eq_add_of_le hoff
  rw [Nat.add_sub_cancel_left, Nat.add_comm payload.length, slice_add, slice_write_self,
    Nat.add_comm start, slice_write_of_disjoint _ _ (Or.inr (by rw [Nat.add_comm])),
    slice_write_self]

theorem slice_lenField (m : ℕ → UInt8) {off : ℕ} (hi lo : UInt8) (n : ℕ) (hoff : 2 ≤ off) :
    slice (write (write m (off - 2) [hi]) (off - 1) [lo]) (off - 2) (n + 2) =
      hi :: lo :: slice m off n := by
  obtain ⟨start, rfl⟩ := Nat.exists_eq_add_of_le' hoff
  have hlo : ∀ m : ℕ → UInt8, slice (write m (start + 1) [lo]) (start + 1) 1 = [lo] :=
    fun m => slice_write_self m (start + 1) [lo]
  have hhi : ∀ m : ℕ → UInt8, slice (write m start [hi]) start 1 = [hi] :=
    fun m => slice_write_self m start [hi]
  rw [Nat.add_sub_cancel, show start + 2 - 1 = start + 1 from rfl,
    show n + 2 = 1 + (1 + n) by omega, slice_add, slice_add _ (start + 1), hlo,
    slice_write_of_disjoint _ _ (Or.inl le_rfl), hhi,
    slice_write_of_disjoint _ _ (Or.inr (by simp)),
    slice_write_of_disjoint _ _ (Or.inr (by simp))]
  rfl

/-- The outgoing frame of a received datagram, ready to be sent from the start of the buffer. -/
theorem frameDatagram_spec (s : Session) {d : Datagram} (h : d.Received) :
    ∃ t, frameDatagram s d = some t ∧ t.pending = d.frame ∧ t.outOff ≤ t.outLen ∧
      t.outLen ≤ udpBufCap ∧ t.sent = s.sent ∧ t.arrived = s.arrived ++ [d] := by
  have hbody := h.body_bounds
  have hlen := d.length_body
  have hhdr := length_socks5UdpEncode d.src.ipAddr d.src.port
  have hbytes := length_bytes d.src.ipAddr
  have hpay := h.2
  unfold bufferSize at hpay
  have hfits : headerStart d.src.ipAddr (2 + 22) + (socks5UdpEncode d.src.ipAddr d.src.port).length ≤
        udpBufCap ∧
      2 + 22 - (socks5UdpEncode d.src.ipAddr d.src.port).length - 2 +
        (d.payload.length + (socks5UdpEncode d.src.ipAddr d.src.port).length + 2) ≤ udpBufCap := by
    rw [headerStart_eq _ d.src.port]
    unfold udpBufCap bufferSize
    omega
  have hlen' : d.payload.length + (socks5UdpEncode d.src.ipAddr d.src.port).length =
      d.body.length := by omega
  have hback := slice_lenField
    (write (write s.outBuf (2 + 22) d.payload)
      (2 + 22 - (socks5UdpEncode d.src.ipAddr d.src.port).length)
      (socks5UdpEncode d.src.ipAddr d.src.port))
    (lenField d.body.length).1 (lenField d.body.length).2 d.body.length
    (show 2 ≤ 2 + 22 - (socks5UdpEncode d.src.ipAddr d.src.port).length by omega)
  rw [← hlen', slice_header s.outBuf _ _ (by omega), ← Datagram.body, hlen'] at hback
  refine ⟨_, if_pos hfits, ?_, Nat.zero_le _, ?_, rfl, rfl⟩
  · rw [headerStart_eq _ d.src.port, hlen']
    show slice _ 0 (d.body.length + 2 - 0) = d.frame
    rw [Nat.sub_zero]
    split_ifs with hmove
    · rw [hback]
      have hframe : d.body.length + 2 = d.frame.length := by simp [Datagram.frame]
      rw [hframe]
      exact slice_write_self _ 0 _
    · exact (congrArg (fun k => slice _ k (d.body.length + 2)) (not_not.mp hmove).symm).trans hback
  · show _ + 2 ≤ udpBufCap
    unfold udpBufCap bufferSize
    omega

/-- What flushing does to the downstream direction: bytes move from the pending part to the sent
ones and none is lost. -/
structure Flushed (s t : Session) : Prop where
  bytes : t.sent ++ t.pending = s.sent ++ s.pending
  outOff_le : t.outOff ≤ t.outLen
  outLen_le : t.outLen ≤ udpBufCap
  arrived : t.arrived = s.arrived

theorem udpFlushOut_done {s : Session} (rs : List SendResult) (hle : s.outLen ≤ s.outOff) :
    ∃ t ret rest, udpFlushOut s rs = some (t, ret, rest) ∧ Flushed s t := by
  refine ⟨{ s with outLen := 0, outOff := 0 }, .ok, rs, ?_, ?_, le_rfl, Nat.zero_le _, rfl⟩
  · unfold udpFlushOut
    rw [if_neg (Nat.not_lt.mpr hle)]
  · have hpending : s.pending = [] := by
      rw [Session.pending, Nat.sub_eq_zero_of_le hle, slice_zero]
    rw [hpending]
    simp [Session.pending]

theorem udpFlushOut_spec {s : Session} (rs : List SendResult) (hoff : s.outOff ≤ s.outLen)
    (hcap : s.outLen ≤ udpBufCap) :
    ∃ t ret rest, udpFlushOut s rs = some (t, ret, rest) ∧ Flushed s t := by
  induction rs generalizing s with
  | nil =>
      by_cases hlt : s.outOff < s.outLen
      · refine ⟨s, .ok, [], ?_, rfl, hoff, hcap, rfl⟩
        unfold udpFlushOut
        rw [if_pos hlt, if_pos hcap]
      · exact udpFlushOut_done [] (Nat.not_lt.mp hlt)
  | cons r rs ih =>
      by_cases hlt : s.outOff < s.outLen
      · unfold udpFlushOut
        rw [if_pos hlt, if_pos hcap]
        cases r with
        | again => exact ⟨s, .ok, rs, rfl, rfl, hoff, hcap, rfl⟩
        | error e => exact ⟨_, .close, rs, rfl, rfl, hoff, hcap, rfl⟩
        | sent k =>
            have hk : SendResult.count k (s.outLen - s.outOff) ≤ s.outLen - s.outOff :=
              min_le_right _ _
            have hsplit : s.pending = slice s.outBuf s.outOff
                  (SendResult.count k (s.outLen - s.outOff)) ++
                slice s.outBuf (s.outOff + SendResult.count k (s.outLen - s.outOff))
                  (s.outLen - (s.outOff + SendResult.count k (s.outLen - s.outOff))) := by
              rw [Session.pending, ← slice_add]
              congr 1
              omega
            obtain ⟨t, ret, rest, hflush, hspec⟩ := ih (s := { s with
                outOff := s.outOff + SendResult.count k (s.outLen - s.outOff)
                sent := s.sent ++ slice s.outBuf s.outOff
                  (SendResult.count k (s.outLen - s.outOff)) })
              (show s.outOff + _ ≤ s.outLen by omega) hcap
            refine ⟨t, ret, rest, hflush, ?_, hspec.outOff_le, hspec.outLen_le, hspec.arrived⟩
            rw [hspec.bytes, hsplit, ← List.append_assoc]
            rfl
      · exact udpFlushOut_done (r :: rs) (Nat.not_lt.mp hlt)

/-- The client has accepted the frames of the received datagrams up to the pending part. -/
structure DownstreamInv (s : Session) : Prop where
  bytes : s.sent ++ s.pending = (s.arrived.map Datagram.frame).flatten
  outOff_le : s.outOff ≤ s.outLen
  outLen_le : s.outLen ≤ udpBufCap
  received : ∀ d ∈ s.arrived, d.Received

/-- What does not touch the downstream direction keeps the invariant. -/
theorem DownstreamInv.of_eq {s t : Session} (h : DownstreamInv s)
    (heq : t.downstream = s.downstream) : DownstreamInv t := by
  simp only [Session.downstream, Prod.mk.injEq] at heq
  obtain ⟨hbuf, hlen, hoff, hsent, harrived⟩ := heq
  have hpending : t.pending = s.pending := by
    rw [Session.pending, hbuf, hlen, hoff, Session.pending]
  refine ⟨?_, ?_, ?_, ?_⟩
  · rw [hsent, hpending, harrived, h.bytes]
  · rw [hoff, hlen]
    exact h.outOff_le
  · rw [hlen]
    exact h.outLen_le
  · rw [harrived]
    exact h.received

theorem Flushed.downstreamInv {s t : Session} (h : Flushed s t) (hs : DownstreamInv s) :
    DownstreamInv t := by
  refine ⟨?_, h.outOff_le, h.outLen_le, ?_⟩
  · rw [h.bytes, h.arrived, hs.bytes]
  · rw [h.arrived]
    exact hs.received

theorem frameDatagram_inv {s : Session} (h : DownstreamInv s) (hout : ¬ 0 < s.outLen)
    {d : Datagram} (hd : d.Received) :
    ∃ t, frameDatagram s d = some t ∧ DownstreamInv t := by
  obtain ⟨t, ht, hpending, hoff, hcap, hsent, harrived⟩ := frameDatagram_spec s hd
  have hempty : s.pending = [] := by
    rw [Session.pending, Nat.eq_zero_of_not_pos hout, Nat.zero_sub, slice_zero]
  have hbytes := h.bytes
  rw [hempty, List.append_nil] at hbytes
  refine ⟨t, ht, ?_, hoff, hcap, ?_⟩
  · rw [hsent, hpending, harrived, hbytes]
    simp
  · rw [harrived]
    intro e he
    rcases List.mem_append.mp he with he | he
    · exact h.received e he
    · rw [List.mem_singleton.mp he]
      exact hd

/-- Whatever the two sockets answer, the 5G handler accesses `out_buf` inside its allocation and
keeps the invariant. -/
theorem remoteToTcp_inv {s : Session} (h : DownstreamInv s) (rs : List RecvfromResult)
    (ss : List SendResult) :
    ∃ p, remoteToTcp s rs ss = some p ∧ DownstreamInv p.1 := by
  induction rs generalizing s ss with
  | nil => exact ⟨_, rfl, h⟩
  | cons r rs ih =>
      unfold remoteToTcp
      by_cases hout : 0 < s.outLen
      · exact ⟨_, by rw [if_pos hout], h⟩
      have hcap : bufferSize ≤ udpBufCap := Nat.le_add_right _ _
      rw [if_neg hout, if_pos hcap]
      cases r with
      | again => exact ⟨_, rfl, h⟩
      | error e => exact ⟨_, rfl, h.of_eq rfl⟩
      | data d =>
          by_cases hempty : d.payload.take (bufferSize - (2 + 22)) = []
          · simp only [if_pos hempty]
            exact ih h ss
          · simp only [if_neg hempty]
            have hd : Datagram.Received ⟨d.src, d.payload.take (bufferSize - (2 + 22))⟩ :=
              ⟨hempty, List.length_take_le _ _⟩
            obtain ⟨t, ht, hinv⟩ := frameDatagram_inv h hout hd
            obtain ⟨u, ret, rest, hflush, hspec⟩ :=
              udpFlushOut_spec ss hinv.outOff_le hinv.outLen_le
            rw [ht, Option.bind_some, hflush]
            cases ret with
            | ok => exact ih (hspec.downstreamInv hinv) rest
            | close => exact ⟨_, rfl, hspec.downstreamInv hinv⟩

theorem checkLenField_downstream (s : Session) :
    (checkLenField s).1.downstream = s.downstream := by
  unfold checkLenField
  split
  · rfl
  · split <;> rfl

theorem recvLenField_downstream (s : Session) (r : RecvResult) :
    (recvLenField s r).1.downstream = s.downstream := by
  cases r with
  | again => rfl
  | eof => rfl
  | error e => rfl
  | data b bs => exact checkLenField_downstream _

theorem finishFrame_downstream (now : Time) (s : Session) :
    (finishFrame now s).downstream = s.downstream := by
  unfold finishFrame
  split <;> rfl

theorem recvFrameBody_downstream {s : Session} {r : RecvResult} {p : Session × Option Ret}
    (h : recvFrameBody s r = some p) : p.1.downstream = s.downstream := by
  unfold recvFrameBody at h
  split at h
  · cases r <;> cases h <;> rfl
  · cases h

theorem clientDataTurn_downstream {now : Time} {s : Session} {r : RecvResult}
    {p : Session × Option Ret} (h : clientDataTurn now s r = some p) :
    p.1.downstream = s.downstream := by
  unfold clientDataTurn at h
  split at h
  · cases h
    exact recvLenField_downstream s r
  · obtain ⟨q, hq, rfl⟩ := Option.map_eq_some_iff.mp h
    exact (finishFrame_downstream now q.1).trans (recvFrameBody_downstream hq)

theorem clientDataLoop_downstream {now : Time} {s : Session} {rs : List RecvResult}
    {p : Session × Ret} (h : clientDataLoop now s rs = some p) :
    p.1.downstream = s.downstream := by
  induction rs generalizing s with
  | nil =>
      cases h
      rfl
  | cons r rs ih =>
      unfold clientDataLoop at h
      split at h
      · cases h
      · rename_i hturn
        cases h
        exact clientDataTurn_downstream hturn
      · rename_i hturn
        exact (ih h).trans (clientDataTurn_downstream hturn)

end FiveGProxy
