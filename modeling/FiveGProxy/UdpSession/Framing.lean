import FiveGProxy.UdpSession.Downstream

/-!
# The handlers of a session with command 0x04

Whatever the kernel answers while an event of one of its two sockets is handled, both directions
keep their invariants and no handler leaves the buffers. The bytes that were received decide what
was routed, and whether a violation has closed the session.
-/

namespace FiveGProxy

open Memory LengthPrefixed Steps

/-- What holds of a session between two events. A violation closes the session. -/
structure SessionInv (s : Session) : Prop where
  up : UpstreamInv s
  down : DownstreamInv s
  closed_of_proto : s.closeKind = .proto → s.closed = true

theorem udpStartTcpSession_inv (inBuf outBuf lenBytes : ℕ → UInt8) (now : Time) :
    SessionInv (udpStartTcpSession inBuf outBuf lenBytes now) where
  up := {
    fed := ⟨[], rfl, rfl⟩
    lenGot_le := Nat.zero_le _
    body := nofun
    localUdpFd_neg := Int.negSucc_lt_zero 0 }
  down := {
    bytes := rfl
    outOff_le := le_rfl
    outLen_le := Nat.zero_le _
    received := nofun }
  closed_of_proto := nofun

/-- What a handler leaves behind when it returns. -/
structure HandlerInv (p : Session × Ret) : Prop where
  up : UpstreamInv p.1
  down : DownstreamInv p.1
  close_of_proto : p.1.closeKind = .proto → p.2 = .close

theorem finishFrame_eq_self {s : Session} (h : UpstreamInv s) (hopen : s.closeKind ≠ .proto)
    (hge : ¬ s.lenGot < 2) (now : Time) : finishFrame now s = s := by
  have h2 : s.lenGot = 2 := le_antisymm h.lenGot_le (Nat.not_lt.mp hge)
  rw [finishFrame, if_pos (h.body h2 hopen).1]

theorem clientDataLoop_handlerInv {s : Session} (hup : UpstreamInv s) (hdown : DownstreamInv s)
    (hopen : s.closeKind ≠ .proto) (now : Time) (rs : List RecvResult) :
    ∃ p, clientDataLoop now (if s.lenGot < 2 then s else finishFrame now s) rs = some p ∧
      HandlerInv p := by
  have hstart : (if s.lenGot < 2 then s else finishFrame now s) = s := by
    split_ifs with hlt
    · rfl
    · exact finishFrame_eq_self hup hopen hlt now
  obtain ⟨p, hp, hinv, hclose⟩ := clientDataLoop_inv hup hopen now rs
  rw [hstart]
  exact ⟨p, hp, hinv, hdown.of_eq (clientDataLoop_downstream hp), hclose⟩

theorem udpClientDataEvent_handlerInv {s : Session} (hup : UpstreamInv s)
    (hdown : DownstreamInv s) (hopen : s.closeKind ≠ .proto) (now : Time) (ev : EpollEvents)
    (sends : List SendResult) (recvs : List RecvResult) :
    ∃ p, udpClientDataEvent now ev sends recvs s = some p ∧ HandlerInv p := by
  obtain ⟨t, ret, rest, hflush, hspec⟩ :
      ∃ t ret rest, (if 0 < s.outLen then udpFlushOut s sends else some (s, .ok, sends)) =
          some (t, ret, rest) ∧
        UpstreamInv t ∧ DownstreamInv t ∧ t.closeKind ≠ .proto := by
    split_ifs with hout
    · obtain ⟨t, ret, rest, hflush, hspec⟩ := udpFlushOut_spec sends hdown.outOff_le hdown.outLen_le
      obtain ⟨hsame, hkind⟩ := udpFlushOut_upstream hflush
      have hopen' : t.closeKind ≠ .proto := by
        rcases hkind with hkind | hkind <;> rw [hkind]
        · exact hopen
        · exact nofun
      exact ⟨t, ret, rest, hflush, hup.of_eq hopen hopen' hsame, hspec.downstreamInv hdown, hopen'⟩
    · exact ⟨s, .ok, sends, rfl, hup, hdown, hopen⟩
  obtain ⟨hup', hdown', hopen'⟩ := hspec
  unfold udpClientDataEvent
  rw [hflush, Option.bind_some]
  cases ret with
  | close => exact ⟨_, rfl, hup', hdown', fun h => (hopen' h).elim⟩
  | ok =>
      by_cases hin : ev.epollin
      · obtain ⟨p, hp, hinv⟩ := clientDataLoop_handlerInv hup' hdown' hopen' now recvs
        exact ⟨p, (if_pos hin).trans hp, hinv⟩
      · exact ⟨(t, .ok), if_neg hin, hup', hdown', fun h => (hopen' h).elim⟩

theorem udpRemoteEvent_handlerInv {s : Session} (hup : UpstreamInv s) (hdown : DownstreamInv s)
    (hopen : s.closeKind ≠ .proto) (froms : List RecvfromResult) (sends : List SendResult) :
    ∃ p, udpRemoteEvent froms sends s = some p ∧ HandlerInv p := by
  rw [udpRemoteEvent, if_neg (Int.not_le.mpr hup.localUdpFd_neg)]
  obtain ⟨p, hp, hinv⟩ := remoteToTcp_inv hdown froms sends
  obtain ⟨hsame, hkind⟩ := remoteToTcp_upstream hp
  have hopen' : p.1.closeKind ≠ .proto := by
    rcases hkind with hkind | hkind <;> rw [hkind]
    · exact hopen
    · exact nofun
  exact ⟨p, hp, hup.of_eq hopen hopen' hsame, hinv, fun h => (hopen' h).elim⟩

theorem udpDispatch_handlerInv {s : Session} (hup : UpstreamInv s) (hdown : DownstreamInv s)
    (hopen : s.closeKind ≠ .proto) (e : SessionEvent) :
    ∃ p, udpDispatch s e = some p ∧ HandlerInv p := by
  cases e with
  | client now ev sends recvs =>
      exact udpClientDataEvent_handlerInv (s := { s with lastActive := now })
        (hup.of_eq hopen hopen rfl) (hdown.of_eq rfl) hopen now ev sends recvs
  | remote now froms sends =>
      exact udpRemoteEvent_handlerInv (s := { s with lastActive := now })
        (hup.of_eq hopen hopen rfl) (hdown.of_eq rfl) hopen froms sends

/-- Every event of a session can be handled inside the buffers, and keeps the invariant. -/
theorem udpTcpSessionStep_inv {s : Session} (h : SessionInv s) (e : SessionEvent) :
    ∃ t, udpTcpSessionStep s e = some t ∧ SessionInv t := by
  unfold udpTcpSessionStep
  by_cases hclosed : s.closed = true
  · exact ⟨s, if_pos hclosed, h⟩
  have hopen : s.closeKind ≠ .proto := fun hp => hclosed (h.closed_of_proto hp)
  obtain ⟨p, hp, hinv⟩ := udpDispatch_handlerInv h.up h.down hopen e
  rw [if_neg hclosed, hp]
  refine ⟨_, rfl, ?_⟩
  by_cases hret : p.2 = .close
  · simp only [if_pos hret]
    exact ⟨⟨hinv.up.fed, hinv.up.lenGot_le, hinv.up.body, hinv.up.localUdpFd_neg⟩,
      hinv.down.of_eq rfl, fun _ => rfl⟩
  · simp only [if_neg hret]
    exact ⟨hinv.up, hinv.down, fun hp => (hret (hinv.close_of_proto hp)).elim⟩

theorem UpstreamInv.routed_eq {s : Session} (h : UpstreamInv s) :
    s.routed = (decode frameLen s.received).bodies.filterMap routeOf := by
  obtain ⟨bodies, hfed, hrouted⟩ := h.fed
  rw [← (feed_eq_decode frameLen s.received).1, hfed, hrouted]

theorem UpstreamInv.violated_iff {s : Session} (h : UpstreamInv s) :
    (decode frameLen s.received).violated = true ↔ s.closeKind = .proto := by
  obtain ⟨bodies, hfed, -⟩ := h.fed
  rw [← (feed_eq_decode frameLen s.received).2, hfed, Session.reader]
  split_ifs with hproto <;> simp [Reader.isStopped, hproto]

/-- What the client is told about a datagram. A v4-mapped source counts as IPv4. -/
def Datagram.announced (d : Datagram) : RouteCall :=
  match d.src with
  | .inet addr port => ⟨socks5AtypIpv4, addr.toList, port, d.payload⟩
  | .inet6 addr port =>
      if addr.toList.take 12 = [0, 0, 0, 0, 0, 0, 0, 0, 0, 0, 0xff, 0xff] then
        ⟨socks5AtypIpv4, addr.toList.drop 12, port, d.payload⟩
      else ⟨socks5AtypIpv6, addr.toList, port, d.payload⟩

theorem announced_eq (d : Datagram) :
    d.announced = ⟨d.src.ipAddr.atyp, d.src.ipAddr.bytes, d.src.port, d.payload⟩ := by
  obtain ⟨src, payload⟩ := d
  cases src with
  | inet addr port => rfl
  | inet6 addr port =>
      by_cases hmapped : addr.toList.take 12 = [0, 0, 0, 0, 0, 0, 0, 0, 0, 0, 0xff, 0xff]
      · have hlast : addr.toList.drop 12 = [addr[12], addr[13], addr[14], addr[15]] := by
          apply List.ext_getElem
          · simp
          · intro i _ hi
            rw [List.getElem_drop, Vector.getElem_toList]
            change i < 4 at hi
            rcases i with _ | _ | _ | _ | i
            · rfl
            · rfl
            · rfl
            · rfl
            · omega
        simp [Datagram.announced, SrcAddr.ipAddr, isV4Mapped, hmapped, hlast, IpAddr.atyp,
          IpAddr.bytes, SrcAddr.port]
      · simp [Datagram.announced, SrcAddr.ipAddr, isV4Mapped, hmapped, IpAddr.atyp,
          IpAddr.bytes, SrcAddr.port]

theorem remoteToLocal_body (s : Session) {c : SrcAddr} (hc : s.clientSrc = some c) {d : Datagram}
    (h : d.Received) :
    ∃ t, remoteToLocal s [.data d] = some (t, .ok) ∧ t.localSent = s.localSent ++ [d.body] := by
  obtain ⟨hne, hle⟩ := h
  have hcap : bufferSize ≤ udpBufCap := Nat.le_add_right _ _
  have htake : d.payload.take (bufferSize - 22) = d.payload :=
    List.take_of_length_le (by omega)
  have hhdr : (socks5UdpEncode d.src.ipAddr d.src.port).length ≤ 22 := by
    rw [length_socks5UdpEncode]
    rcases length_bytes d.src.ipAddr with ⟨hb, _⟩ | ⟨hb, _⟩ <;> omega
  simp only [remoteToLocal, if_pos hcap, htake, if_neg hne, hc]
  refine ⟨_, rfl, ?_⟩
  rw [headerStart_eq _ d.src.port, slice_header s.inBuf _ _ hhdr]
  rfl

end FiveGProxy
