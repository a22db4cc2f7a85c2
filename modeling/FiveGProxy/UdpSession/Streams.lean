import FiveGProxy.UdpSession.Passes

/-!
# UDP-in-TCP framing over whole runs

A run of a session with command 0x04 is any sequence of arrivals at its two sockets, of events of
`epoll_wait`, and of the parts of the handlers with whatever the kernel answers. What arrives is
read or waits in the kernel (`UdpConn.Accounts`). What was read of the client's stream is routed as
a one-shot reader asks for, what was read from the 5G socket is framed for the client in the order
of its arrival, and a pass goes on reading until nothing is left.
-/

namespace FiveGProxy

open Memory LengthPrefixed Steps

def UdpConnEvent.clientBytes : UdpConnEvent → List UInt8
  | .network (.clientArrive bytes) => bytes
  | _ => []

def UdpConnEvent.remoteDatagrams : UdpConnEvent → List Datagram
  | .network (.remoteArrive d) => [d]
  | _ => []

namespace UdpConn

variable {s t : UdpConn} {e : UdpConnEvent}

/-- What has arrived at the two sockets, the client's bytes in `stream` and the datagrams of the 5G
socket in `datagrams`, has been read or waits in the kernel. -/
structure Accounts (stream : List UInt8) (datagrams : List Datagram) (s : UdpConn) : Prop where
  inv : TcpInv s
  stream : s.session.received ++ s.client.rx = stream
  datagrams : ∃ got, datagrams = got ++ s.remote.queue ∧ s.session.arrived = nonEmpty got

theorem Accounts.of_same {stream : List UInt8} {datagrams : List Datagram}
    (h : Accounts stream datagrams s) (hinv : TcpInv t) (hclient : t.client.rx = s.client.rx)
    (hqueue : t.remote.queue = s.remote.queue)
    (hreceived : t.session.received = s.session.received)
    (harrived : t.session.arrived = s.session.arrived) : Accounts stream datagrams t := by
  obtain ⟨got, hgot, hnon⟩ := h.datagrams
  exact ⟨hinv, by rw [hreceived, hclient, h.stream], got, by rw [hqueue, hgot],
    by rw [harrived, hnon]⟩

theorem Accounts.handler {stream : List UInt8} {datagrams : List Datagram}
    (h : Accounts stream datagrams s) (ht : udpConnStep s e = some t) (hpart : TcpPart s t) :
    Accounts stream datagrams t := by
  obtain ⟨got, hgot, harrived⟩ := h.datagrams
  obtain ⟨more, hmore, harrived'⟩ := hpart.datagrams
  refine ⟨hpart.inv h.inv ht, hpart.stream.trans h.stream, got ++ more, ?_, ?_⟩
  · rw [hgot, hmore, List.append_assoc]
  · rw [harrived', harrived, nonEmpty_append]

/-- The network brings bytes and datagrams, and changes nothing of the session. -/
theorem Accounts.network {stream : List UInt8} {datagrams : List Datagram}
    (h : Accounts stream datagrams s) {n : UdpNetwork} (ht : s.network n = some t) :
    Accounts (stream ++ (UdpConnEvent.network n).clientBytes)
      (datagrams ++ (UdpConnEvent.network n).remoteDatagrams) t := by
  obtain ⟨got, hgot, harrived⟩ := h.datagrams
  have hinv : TcpInv t := by
    have hconn := udpConnStep_inv (e := .network n) h.inv.conn ht
    obtain ⟨hmasked, hpc, -⟩ := network_same ht
    obtain ⟨hrole, hev⟩ : t.role = s.role ∧ t.ev = s.ev := by
      unfold UdpConn.network at ht
      split at ht
      · split_ifs at ht
        cases ht
        exact ⟨rfl, rfl⟩
      all_goals
        cases ht
        exact ⟨rfl, rfl⟩
    refine ⟨hconn, hmasked ▸ h.inv.up, hmasked ▸ h.inv.down, ?_, ?_⟩
    · rw [hmasked, hpc]
      exact h.inv.closing
    · have hplace := h.inv.place
      simp only [AtPlace, hpc, hrole, hev] at hplace ⊢
      exact hplace
  unfold UdpConn.network at ht
  cases n with
  | clientArrive bytes =>
      simp only at ht
      split_ifs at ht
      cases ht
      refine ⟨hinv, ?_, got, ?_, harrived⟩
      · show s.session.received ++ (s.client.rx ++ bytes) = stream ++ bytes
        rw [← List.append_assoc, h.stream]
      · exact (List.append_nil _).trans hgot
  | remoteArrive d =>
      cases ht
      refine ⟨hinv, ?_, got, ?_, harrived⟩
      · exact h.stream.trans (List.append_nil _).symm
      · show datagrams ++ [d] = got ++ (s.remote.queue ++ [d])
        rw [hgot, List.append_assoc]
  | _ =>
      cases ht
      exact ⟨hinv, h.stream.trans (List.append_nil _).symm, got,
        (List.append_nil _).trans hgot, harrived⟩

theorem Accounts.step {stream : List UInt8} {datagrams : List Datagram}
    (h : Accounts stream datagrams s) (ht : udpConnStep s e = some t) :
    Accounts (stream ++ e.clientBytes) (datagrams ++ e.remoteDatagrams) t := by
  cases e with
  | network n => exact h.network ht
  | wakeup now role =>
      show Accounts (stream ++ []) (datagrams ++ []) t
      rw [List.append_nil, List.append_nil]
      simp only [udpConnStep, wakeup] at ht
      split_ifs at ht with hwake
      cases ht
      have hrole : role ≠ .localUdp := fun hlocal =>
        absurd (hwake.2.2 hlocal) (Int.not_le.mpr h.inv.up.localUdpFd_neg)
      obtain ⟨hsession, hclient, hremote, -⟩ := startHandler_tcp h.inv now hrole
      exact h.of_same (startHandler_inv h.inv hwake.1 now hrole) (by rw [hclient])
        (by rw [hremote]) (by rw [hsession]) (by rw [hsession])
  | scan now pendCount =>
      show Accounts (stream ++ []) (datagrams ++ []) t
      rw [List.append_nil, List.append_nil]
      obtain ⟨hinv, hclient, hremote, hreceived, harrived⟩ := scan_tcp h.inv ht
      exact h.of_same hinv (by rw [hclient]) (by rw [hremote]) hreceived harrived
  | replay payload r =>
      show Accounts (stream ++ []) (datagrams ++ []) t
      rw [List.append_nil, List.append_nil]
      have hconn := udpConnStep_inv h.inv.conn ht
      simp only [udpConnStep, replay] at ht
      split_ifs at ht with hpc
      cases ht
      obtain ⟨hsession, hclient, hrole, -, hqueue⟩ := s.udpSend5g_same payload r
      have hpc' := (s.udpSend5g_pc payload r).trans hpc
      refine h.of_same ⟨hconn, hsession ▸ h.inv.up, hsession ▸ h.inv.down, ?_,
        atPlace_of_rest (Or.inl hpc')⟩ (by rw [hclient]) hqueue (by rw [hsession])
        (by rw [hsession])
      rw [hsession, hpc', ← hpc]
      exact h.inv.closing
  | _ =>
      show Accounts (stream ++ []) (datagrams ++ []) t
      rw [List.append_nil, List.append_nil]
      exact h.handler ht (handle_tcp h.inv ht)

theorem accounts {inBuf outBuf lenBytes : ℕ → UInt8} {remoteUdpFd : ℕ} {peer : SrcAddr}
    {now : Time} {es : List UdpConnEvent}
    (hrun : run udpConnStep (udpStartSession inBuf outBuf lenBytes (-1) remoteUdpFd peer now) es =
      some s) :
    Accounts (es.flatMap UdpConnEvent.clientBytes) (es.flatMap UdpConnEvent.remoteDatagrams) s := by
  refine trace_invariant (P := fun es s => Accounts (es.flatMap UdpConnEvent.clientBytes)
    (es.flatMap UdpConnEvent.remoteDatagrams) s) (fun es s e t h ht => ?_) ?_ hrun
  · rw [List.flatMap_append, List.flatMap_append, List.flatMap_singleton, List.flatMap_singleton]
    exact h.step ht
  · exact ⟨udpStartSession_tcp .., rfl, [], rfl, rfl⟩

end UdpConn

/-! ### From the client to 5G -/

/-- What was done with the stream that has arrived from the client. -/
structure UpstreamFramed (stream : List UInt8) (s : UdpConn) : Prop where
  read : s.session.received ++ s.client.rx = stream
  routed : s.session.routed = (decode frameLen s.session.received).bodies.filterMap routeOf
  violated : s.session.closeKind = .proto ↔ (decode frameLen s.session.received).violated = true
  closed : s.session.closeKind = .proto → s.pc = .close ∨ s.pc = .closed
  routed_prefix : ∀ later, s.session.routed <+:
    (decode frameLen (stream ++ later)).bodies.filterMap routeOf
  whole : s.client.rx = [] ∨ s.session.closeKind = .proto →
    s.session.routed = (decode frameLen stream).bodies.filterMap routeOf ∧
      (s.session.closeKind = .proto ↔ (decode frameLen stream).violated = true)

/-- Every `recv` stays inside the buffers, the reading loop is left at EAGAIN or with a session to
be closed, and whatever has arrived is reported and read in a pass that comes to its end. -/
structure ReadsClient (s : UdpConn) : Prop where
  inBounds : s.pc = .readClient → ∀ k, ∃ t, udpConnStep s (.recv k) = some t
  untilAgain : s.pc = .readClient → ∀ e t, udpConnStep s e = some t → t.pc = .updateClient →
    t.client.Drained
  reads : s.pc = .wait → ¬ s.client.Drained → ∀ now, ∃ t,
    udpConnStep s (.wakeup now .client) = some t ∧
      Inevitable udpConnStep (fun e => e.ofHandler = true)
        (fun u => u.pc = .closed ∨ u.pc = .wait ∧ u.client.Drained) t

namespace UdpConn

variable {s t : UdpConn}

theorem Accounts.upstreamFramed {stream : List UInt8} {datagrams : List Datagram}
    (h : Accounts stream datagrams s) : UpstreamFramed stream s := by
  have hviolated := h.inv.up.violated_iff
  refine ⟨h.stream, h.inv.up.routed_eq, hviolated.symm, h.inv.closing, fun later => ?_,
    fun hend => ?_⟩
  · rw [h.inv.up.routed_eq, ← h.stream, List.append_assoc]
    exact (decode_bodies_mono frameLen (List.prefix_append _ _)).filterMap routeOf
  · have hdecode : decode frameLen stream = decode frameLen s.session.received := by
      rcases hend with hrx | hproto
      · rw [← h.stream, hrx, List.append_nil]
      · rw [← h.stream]
        exact decode_append_of_violated frameLen (hviolated.mpr hproto) _
    rw [hdecode]
    exact ⟨h.inv.up.routed_eq, hviolated.symm⟩

/-- An event that `epoll_wait` reports starts a pass that ends. -/
theorem wakeup_ends (h : TcpInv s) (hpc : s.pc = .wait) (now : Time) {role : UdpRole}
    (hrole : role ≠ .localUdp) (hev : (s.reported role).any = true) :
    ∃ t, udpConnStep s (.wakeup now role) = some t ∧
      Inevitable udpConnStep (fun e => e.ofHandler = true)
        (fun u => u.pc = .closed ∨
          u.pc = .wait ∧ u.Exhausted ∧ u.role = role ∧ u.ev = s.reported role) t := by
  obtain ⟨-, -, -, hrole', hev', -, hover⟩ := startHandler_tcp h now hrole
  refine ⟨s.startHandler now role, ?_, ?_⟩
  · simp only [udpConnStep, wakeup]
    rw [if_pos ⟨hpc, hev, fun hlocal => absurd hlocal hrole⟩]
  · have hends := pass_ends (startHandler_inv h hpc now hrole) hover
    rwa [hrole', hev'] at hends

theorem handle_of_leaves (ht : udpConnStep s e = some t) (hpc : s.pc ≠ .wait)
    (hleaves : t.pc ≠ s.pc) : s.handle e = some t := by
  cases e with
  | wakeup now role =>
      simp only [udpConnStep, wakeup] at ht
      split_ifs at ht with hwake
      exact absurd hwake.1 hpc
  | scan now pendCount =>
      simp only [udpConnStep, scan] at ht
      split_ifs at ht with hwait <;> exact absurd hwait hpc
  | replay payload r =>
      simp only [udpConnStep, replay] at ht
      split_ifs at ht with hwait
      exact absurd hwait hpc
  | network n => exact absurd (network_same ht).2.1 hleaves
  | _ => exact ht

/-- A handler that returns without closing the session has exhausted its socket. -/
theorem TcpInv.exhausted (h : TcpInv s) (hpc : s.pc = .readClient ∨ s.pc = .recvRemote)
    (ht : udpConnStep s e = some t) (hend : t.pc = .updateClient) :
    t.Exhausted ∧ t.role = s.role ∧ t.ev = s.ev := by
  have hpart : TcpPart s t := by
    refine handle_tcp h (handle_of_leaves ht ?_ ?_)
    · rcases hpc with hpc | hpc <;> rw [hpc] <;> rintro ⟨⟩
    · rcases hpc with hpc | hpc <;> rw [hpc, hend] <;> rintro ⟨⟩
  refine ⟨hpart.passOver (fun hover => ?_) (by simp only [passOver, hend]), hpart.role, hpart.ev⟩
  rcases hpc with hpc | hpc <;>
  · simp only [passOver, hpc] at hover
    exact absurd hover Bool.false_ne_true

theorem TcpInv.readsClient (h : TcpInv s) : ReadsClient s := by
  refine ⟨readClient_enabled h, fun hpc e t ht hend => ?_, fun hpc hfull now => ?_⟩
  · obtain ⟨hexhausted, hrole, hev⟩ := h.exhausted (Or.inl hpc) ht hend
    have hplace := h.place
    rw [AtPlace, hpc] at hplace
    rw [Exhausted, hrole, hplace.1, hev] at hexhausted
    exact hexhausted hplace.2
  · have hin : (s.reported .client).epollin = true := by
      simp only [reported, EpollEvents.reported, Bool.and_eq_true]
      exact ⟨h.conn.watches.client_epollin h.up.localUdpFd_neg,
        s.client.epollin_ready_iff.mpr hfull⟩
    have hany : (s.reported .client).any = true := by
      simp only [EpollEvents.any, hin, Bool.true_or]
    obtain ⟨t, ht, hends⟩ := wakeup_ends h hpc now (by rintro ⟨⟩) hany
    refine ⟨t, ht, hends.mono fun u hu => hu.imp_right fun hwait => ⟨hwait.1, ?_⟩⟩
    obtain ⟨-, hexhausted, hrole, hev⟩ := hwait
    rw [Exhausted, hrole, hev] at hexhausted
    exact hexhausted hin

end UdpConn

/-- Two datagrams of 5G and the beginning of a frame of the client, whose output is flushed in
parts in between. -/
def framesRun : List UdpConnEvent :=
  [.network (.remoteArrive ⟨.inet (octets 9 9 9 9) (0, 53), [0x62]⟩),
    .network (.remoteArrive ⟨.inet (octets 9 9 9 9) (0, 53), [0x63]⟩),
    .wakeup 8 .remote, .recvfrom, .send 0, .proceed, .clientCtl true, .remoteCtl true,
    .network (.clientArrive [0]), .network (.clientRoom 5),
    .wakeup 9 .client, .send 9, .send 0, .recv 0, .recv 0, .proceed, .proceed,
    .network (.clientArrive [11, 0, 0, 0, 1, 8]), .network (.clientRoom 99),
    .wakeup 10 .client, .send 99, .recv 0, .recv 2, .recv 9, .recv 0,
    .clientCtl true, .remoteCtl true]

/-- The rest of the frame, a malformed datagram and a length field below four. -/
def violationRun : List UdpConnEvent :=
  framesRun ++
    [.network (.clientArrive [8, 8, 8, 0, 53, 0x61, 0, 4, 0, 0, 1, 1, 0, 3, 7]),
      .wakeup 11 .client, .recv 99, .proceed, .recv 1, .recv 99, .recv 1, .proceed]

/-- What was done with the datagrams that have arrived at the 5G socket. -/
structure DownstreamFramed (datagrams : List Datagram) (s : UdpConn) : Prop where
  read : ∃ got, datagrams = got ++ s.remote.queue ∧ s.session.arrived = nonEmpty got
  bytes : s.session.sent ++ s.session.pending = (s.session.arrived.map Datagram.frame).flatten
  accepted : s.session.sent <+: (s.session.arrived.map Datagram.frame).flatten
  decoded : decode frameLen (s.session.arrived.map Datagram.frame).flatten =
    ⟨s.session.arrived.map Datagram.body, false⟩
  announced : (s.session.arrived.map Datagram.body).filterMap routeOf =
    s.session.arrived.map Datagram.announced
  length_lt : ∀ d ∈ s.session.arrived, d.body.length < 2 ^ 16
  sameAsLocal : ∀ d ∈ s.session.arrived, ∀ (l : Session) (c : SrcAddr) (sends : List SendResult),
    0 ≤ l.localUdpFd → l.clientSrc = some c →
      ∃ t, udpRemoteEvent [.data d] sends l = some (t, .ok) ∧
        t.localSent = l.localSent ++ [d.body]

/-- Every `recvfrom` and `send` stays inside `out_buf`, the loop over the datagrams is left at
EAGAIN, with a frame to wait for or with a session to be closed, and a pass for the 5G socket comes
to its end. -/
structure ReadsRemote (s : UdpConn) : Prop where
  recvfrom : s.pc = .recvRemote → ¬ 0 < s.session.outLen →
    ∃ t, udpConnStep s .recvfrom = some t
  send : s.pc = .flush → s.session.outOff < s.session.outLen →
    ∀ k, ∃ t, udpConnStep s (.send k) = some t
  untilAgain : s.pc = .recvRemote → ∀ e t, udpConnStep s e = some t → t.pc = .updateClient →
    0 < t.session.outLen ∨ t.remote.Drained
  reads : s.pc = .wait → (s.reported .remote).any = true → ∀ now, ∃ t,
    udpConnStep s (.wakeup now .remote) = some t ∧
      Inevitable udpConnStep (fun e => e.ofHandler = true)
        (fun u => u.pc = .closed ∨ u.pc = .wait ∧ (0 < u.session.outLen ∨ u.remote.Drained)) t

namespace UdpConn

variable {s t : UdpConn}

theorem Accounts.downstreamFramed {stream : List UInt8} {datagrams : List Datagram}
    (h : Accounts stream datagrams s) : DownstreamFramed datagrams s := by
  have hbytes := h.inv.down.bytes
  have hreceived := h.inv.down.received
  refine ⟨h.datagrams, hbytes, ⟨_, hbytes⟩, ?_, ?_, fun d hd => (hreceived d hd).body_bounds.2,
    fun d hd l c sends hl hc => ?_⟩
  · have hmap : s.session.arrived.map Datagram.frame =
        (s.session.arrived.map Datagram.body).map fun body =>
          (lenField body.length).1 :: (lenField body.length).2 :: body := by
      rw [List.map_map]
      rfl
    rw [hmap]
    refine decode_flatten frameLen fun body hbody => ?_
    obtain ⟨d, hd, rfl⟩ := List.mem_map.mp hbody
    have hbounds := (hreceived d hd).body_bounds
    exact ⟨_, _, rfl, socks5UdpTcpFrameLen_lenField hbounds.1 hbounds.2⟩
  · rw [List.filterMap_map, ← List.filterMap_eq_map]
    refine List.filterMap_congr fun d hd => ?_
    rw [Function.comp_apply, Datagram.body, routeOf_encode _ _ (hreceived d hd).1,
      Function.comp_apply, announced_eq]
  · rw [udpRemoteEvent, if_pos hl]
    exact remoteToLocal_body l hc (hreceived d hd)

theorem TcpInv.readsRemote (h : TcpInv s) : ReadsRemote s := by
  refine ⟨fun hpc => (recvRemote_enabled h hpc).2, fun hpc hlt k => (flush_enabled h hpc k).1 hlt,
    fun hpc e t ht hend => ?_, fun hpc hev now => ?_⟩
  · obtain ⟨hexhausted, hrole, -⟩ := h.exhausted (Or.inr hpc) ht hend
    have hplace := h.place
    rw [AtPlace, hpc] at hplace
    rwa [Exhausted, hrole, hplace] at hexhausted
  · obtain ⟨t, ht, hends⟩ := wakeup_ends h hpc now (by rintro ⟨⟩) hev
    refine ⟨t, ht, hends.mono fun u hu => hu.imp_right fun hwait => ⟨hwait.1, ?_⟩⟩
    obtain ⟨-, hexhausted, hrole, -⟩ := hwait
    rwa [Exhausted, hrole] at hexhausted

end UdpConn

/-- However the sends are cut and whatever happens in between, every non-empty datagram that
`recvfrom` returns is framed once, the client socket accepts the frames in order, they decode to
what was received, and a pass reads on until nothing is left or a frame is pending. -/
theorem downstream_framing {inBuf outBuf lenBytes : ℕ → UInt8} {remoteUdpFd : ℕ} {peer : SrcAddr}
    {now : Time} {es : List UdpConnEvent} {s : UdpConn}
    (hrun : run udpConnStep
      (.udpStartSession inBuf outBuf lenBytes (-1) remoteUdpFd peer now) es = some s) :
    DownstreamFramed (es.flatMap UdpConnEvent.remoteDatagrams) s ∧ ReadsRemote s := by
  have haccounts := UdpConn.accounts hrun
  exact ⟨haccounts.downstreamFramed, haccounts.inv.readsRemote⟩

def secondFrameRun : List UdpConnEvent :=
  framesRun ++ [.network (.clientRoom 4), .wakeup 11 .remote, .recvfrom, .send 9]

theorem downstream_framing_secondFrame :
    ∃ s, run udpConnStep (freshSession (-1)) secondFrameRun = some s ∧
      s.session.sent = [0, 11, 0, 0, 0, 1, 9, 9, 9, 9, 0, 53, 0x62, 0, 11, 0, 0] ∧
      DownstreamFramed (secondFrameRun.flatMap UdpConnEvent.remoteDatagrams) s ∧
      ReadsRemote s := by
  obtain ⟨s, hrun, hsent⟩ := exists_run_of_any (by decide +kernel :
    (run udpConnStep (freshSession (-1)) secondFrameRun).any (fun s => decide
      (s.session.sent = [0, 11, 0, 0, 0, 1, 9, 9, 9, 9, 0, 53, 0x62, 0, 11, 0, 0])) = true)
  exact ⟨s, hrun, hsent, downstream_framing hrun⟩

end FiveGProxy
